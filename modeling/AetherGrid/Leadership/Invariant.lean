import AetherGrid.Leadership.Stages

/-!
This module contains the invariant of the election and what each step of a process does to it.
-/

namespace AetherGrid

namespace Leadership

open Prog

def Future.Of (f : Future) (task : Task) : Prop :=
  f = .queued task ∨ f = .running task ∨ ∃ result, f = .done task result

def Process.InterruptedAsking (p : Process) : Prop :=
  ∃ k, p.interrupted = some (some k) ∧ (p.futures k).Of .tryAcquire

def Line.outage (down : Bool) (line : Line) : Option Bool :=
  match line with
  | .unreachable _ => if down then none else some true
  | .reachable => if down then some false else none
  | .leads | .lost | .released => some down

def LoopOk (p : Process) (loop : LoopStage) : Prop :=
  match loop with
  | .ready => p.interrupted = none ∧ ∀ k, (p.futures k).isActive = false
  | .led => p.interrupted = none ∧ (∀ k, (p.futures k).isActive = false) ∧ p.connection ≠ none
  | .waiting task k =>
    p.interrupted = none ∧ (∀ l, (p.futures l).isActive = true → l = k) ∧ (p.futures k).Of task
      ∧ (task.isTick = true → p.connection ≠ none)
      ∧ (p.futures k = .done .tryAcquire true → p.connection ≠ none)
  | .stopping =>
    p.interrupted ≠ none ∧ ∀ l, (p.futures l).isActive = true → p.interrupted = some (some l)
  | .releasing k =>
    p.interrupted ≠ none ∧ (∀ l, (p.futures l).isActive = true → l = k ∨ p.interrupted = some (some l))
      ∧ (p.futures k).Of .release
  | .ended =>
    p.interrupted ≠ none ∧ (∀ l, (p.futures l).isActive = true → p.interrupted = some (some l))
      ∧ ∃ k result, p.futures k = .done .release result

structure ProcessOk (p : Process) (loop : LoopStage) : Prop where
  absent : ∀ k, p.submitted ≤ k → p.futures k = .absent
  loop : LoopOk p loop
  -- the loop asks for a release only once it was cancelled
  release : p.interrupted = none → ∀ k, ¬(p.futures k).Of .release
  released : ¬p.InterruptedAsking → ∀ k result, p.futures k = .done .release result →
    p.connection = none
  outages : p.log.foldlM Line.outage false = some p.unreachable

def Process.Inside (p : Process) (k : Nat) (task : Task) : Prop :=
  p.futures k = .running task ∧ p.guard = some k

def StageOk {ι : Type} (s : World ι) (i : ι) (p : Process) (k : Nat) (st : Stage) : Prop :=
  match st with
  | .waiting | .finished => True
  | .started task => p.futures k = .running task
  | .entered task => p.Inside k task
  | .found task conn => p.Inside k task ∧ p.connection = some conn
  | .shut conn => p.Inside k .tryAcquire ∧ p.connection = some conn ∧ s.opened conn = false
  | .clear task => p.Inside k task ∧ p.connection = none
  | .opened conn => p.Inside k .tryAcquire ∧ p.connection = none ∧ s.owner conn = some i
  | .locked conn =>
    p.Inside k .tryAcquire ∧ p.connection = none ∧ s.owner conn = some i
      ∧ (s.live conn = true → s.lock = some conn)
  | .dropped conn => p.Inside k .release ∧ p.connection = none ∧ s.owner conn = some i
  | .leads => p.Inside k .tryAcquire ∧ p.connection ≠ none
  | .left task result =>
    p.futures k = .running task
      ∧ (task = .tryAcquire → result = true → p.interrupted = none → p.connection ≠ none)
      ∧ (task = .release → ¬p.InterruptedAsking → p.connection = none)

structure Ok {ι : Type} (s : World ι) (i : ι) (p : Process) (stages : Nat → Stage) (loop : LoopStage)
    : Prop where
  process : ProcessOk p loop
  stage : ∀ k, StageOk s i p k (stages k)
  owned : ∀ conn, p.connection = some conn → s.owner conn = some i
  locks : ∀ conn, p.connection = some conn → s.live conn = true → s.lock = some conn
  kept : ∀ conn, s.owner conn = some i → s.opened conn = true →
    p.connection = some conn ∨ ∃ k, (stages k).hand = some conn

structure Respects {ι : Type} (j : ι) (s s' : World ι) : Prop where
  owner : ∀ conn, s'.owner conn = some j ↔ s.owner conn = some j
  opened : ∀ conn, s.owner conn = some j → s'.opened conn = s.opened conn
  live : ∀ conn, s.owner conn = some j → s'.live conn = true → s.live conn = true
  lock : ∀ conn, s.owner conn = some j → s'.live conn = true → s.lock = some conn →
    s'.lock = some conn

section respects

variable {ι : Type} {s s' : World ι} {i j : ι}

theorem Respects.refl (j : ι) (s : World ι) : Respects j s s where
  owner _ := Iff.rfl
  opened _ _ := rfl
  live _ _ hlive := hlive
  lock _ _ _ hlock := hlock

theorem Respects.endSession (conn : Session) : Respects j s (s.endSession conn) where
  owner _ := Iff.rfl
  opened _ _ := rfl
  live c _ hlive := by
    by_cases h : c = conn
    . simp [World.endSession, h] at hlive
    . simpa [World.endSession, h] using hlive
  lock c _ hlive hlock := by
    have hne : c ≠ conn := by
      intro h
      simp [World.endSession, h] at hlive
    simp [World.endSession, hlock, hne]

section foreign

variable {conn : Session} (howner : s.owner conn = some i) (hji : j ≠ i)

include howner hji

theorem ne_of_owner {c : Session} (hc : s.owner c = some j) : c ≠ conn := by
  intro h
  rw [h, howner] at hc
  exact hji (Option.some.inj hc).symm

theorem Respects.close (fate : Fate) : Respects j s (s.close conn fate).2 := by
  have hopened : ∀ c, s.owner c = some j → (s.closeClient conn).opened c = s.opened c := by
    intro c hc
    simp [World.closeClient, ne_of_owner howner hji hc]
  have hend := Respects.endSession (s := s.closeClient conn) (j := j) conn
  cases fate with
  | works => exact ⟨fun _ => Iff.rfl, hopened, hend.live, hend.lock⟩
  | fails _ => exact ⟨fun _ => Iff.rfl, hopened, fun _ _ hlive => hlive, fun _ _ _ hlock => hlock⟩
  | failsLate _ => exact ⟨fun _ => Iff.rfl, hopened, hend.live, hend.lock⟩

theorem Respects.takeLock : Respects j s (s.takeLock conn) := by
  unfold World.takeLock
  split
  . next hmay =>
    refine ⟨fun _ => Iff.rfl, fun _ _ => rfl, fun _ _ hlive => hlive, ?_⟩
    intro c hc _ hlock
    have hne := ne_of_owner howner hji hc
    simp [World.mayLock, hlock, hne] at hmay
  . exact .refl j s

theorem Respects.dropLock : Respects j s (s.dropLock conn) where
  owner _ := Iff.rfl
  opened _ _ := rfl
  live _ _ hlive := hlive
  lock c hc _ hlock := by
    have hne := ne_of_owner howner hji hc
    simp [World.dropLock, hlock, hne]

end foreign

theorem Respects.openSession (hfresh : s.owner s.next = none) (hji : j ≠ i) (known : Bool)
    : Respects j s (s.openSession i known) := by
  have hne : ∀ c, s.owner c = some j → c ≠ s.next := by
    intro c hc h
    rw [h, hfresh] at hc
    contradiction
  constructor
  . intro c
    by_cases h : c = s.next
    . simp [World.openSession, h, hfresh, Ne.symm hji]
    . simp [World.openSession, h]
  . intro c hc
    simp [World.openSession, hne c hc]
  . intro c hc hlive
    simpa [World.openSession, hne c hc] using hlive
  . intro _ _ _ hlock
    exact hlock

variable {p : Process} {k : Nat} {st : Stage} {stages : Nat → Stage} {loop : LoopStage}

theorem StageOk.respects (h : StageOk s j p k st)
    (howned : ∀ conn, p.connection = some conn → s.owner conn = some j)
    (hrespects : Respects j s s') : StageOk s' j p k st := by
  cases st with
  | shut conn => exact ⟨h.1, h.2.1, (hrespects.opened conn (howned conn h.2.1)).trans h.2.2⟩
  | opened conn => exact ⟨h.1, h.2.1, (hrespects.owner conn).mpr h.2.2⟩
  | dropped conn => exact ⟨h.1, h.2.1, (hrespects.owner conn).mpr h.2.2⟩
  | locked conn =>
    obtain ⟨hinside, hnone, howner, hlock⟩ := h
    refine ⟨hinside, hnone, (hrespects.owner conn).mpr howner, ?_⟩
    intro hlive
    exact hrespects.lock conn howner hlive (hlock (hrespects.live conn howner hlive))
  | _ => exact h

theorem Ok.respects (h : Ok s j p stages loop) (hrespects : Respects j s s')
    : Ok s' j p stages loop where
  process := h.process
  stage k := (h.stage k).respects h.owned hrespects
  owned conn hconn := (hrespects.owner conn).mpr (h.owned conn hconn)
  locks conn hconn hlive := by
    have howner := h.owned conn hconn
    exact hrespects.lock conn howner hlive (h.locks conn hconn (hrespects.live conn howner hlive))
  kept conn howner hopened := by
    rw [hrespects.owner] at howner
    rw [hrespects.opened conn howner] at hopened
    exact h.kept conn howner hopened

end respects

section process

variable {p : Process} {loop : LoopStage} {k l : Nat} {task task' : Task}

theorem Future.Of.eq_of_running (h : Future.Of (.running task) task') : task = task' := by
  rcases h with h | h | ⟨_, h⟩
  . contradiction
  . exact Future.running.inj h
  . contradiction

theorem Future.Of.eq_of_done {result : Bool} (h : Future.Of (.done task result) task')
    : task = task' := by
  rcases h with h | h | ⟨_, h⟩
  . contradiction
  . contradiction
  . injection h

theorem isActive_of_running (h : p.futures k = .running task) : (p.futures k).isActive = true := by
  rw [h]
  rfl

namespace ProcessOk

theorem interruptedAsking (h : ProcessOk p loop) (hrunning : p.futures k = .running .tryAcquire)
    (hinterrupted : p.interrupted ≠ none) : p.InterruptedAsking := by
  have hactive := isActive_of_running hrunning
  have hof : (p.futures k).Of .tryAcquire := .inr (.inl hrunning)
  have hloop := h.loop
  cases loop with
  | ready => exact absurd hloop.left hinterrupted
  | led => exact absurd hloop.left hinterrupted
  | waiting task l => exact absurd hloop.left hinterrupted
  | stopping => exact ⟨k, hloop.right k hactive, hof⟩
  | releasing l =>
    obtain ⟨_, hactives, hrelease⟩ := hloop
    cases hactives k hactive with
    | inl hkl =>
      rw [← hkl, hrunning] at hrelease
      exact absurd hrelease.eq_of_running (by decide)
    | inr hk => exact ⟨k, hk, hof⟩
  | ended => exact ⟨k, hloop.right.left k hactive, hof⟩

theorem active_unique (h : ProcessOk p loop) (hinterrupted : p.interrupted = none)
    (hk : (p.futures k).isActive = true) (hl : (p.futures l).isActive = true) : k = l := by
  have hloop := h.loop
  cases loop with
  | ready =>
    rw [hloop.right k] at hk
    contradiction
  | led =>
    rw [hloop.right.left k] at hk
    contradiction
  | waiting task m => exact (hloop.right.left k hk).trans (hloop.right.left l hl).symm
  | stopping => exact absurd hinterrupted hloop.left
  | releasing m => exact absurd hinterrupted hloop.left
  | ended => exact absurd hinterrupted hloop.left

theorem setConnection (h : ProcessOk p loop) (hrunning : p.futures k = .running task)
    (htask : task.isTick = false) (conn : Option Session) (hrelease : task = .release → conn = none)
    : ProcessOk { p with connection := conn } loop where
  absent := h.absent
  release := h.release
  outages := h.outages
  loop := by
    have hactive := isActive_of_running hrunning
    have hloop := h.loop
    cases loop with
    | ready => exact hloop
    | led =>
      rw [hloop.right.left k] at hactive
      contradiction
    | waiting task' l =>
      obtain ⟨hinterrupted, hactives, hof, _, _⟩ := hloop
      have hkl := hactives k hactive
      subst hkl
      have hof' := hof
      rw [hrunning] at hof'
      have htask' := hof'.eq_of_running
      subst htask'
      refine ⟨hinterrupted, hactives, hof, ?_, ?_⟩
      . intro htick
        rw [htask] at htick
        contradiction
      . intro hdone
        rw [hrunning] at hdone
        contradiction
    | stopping => exact hloop
    | releasing l => exact hloop
    | ended => exact hloop
  released := by
    intro hasking l result hdone
    cases task with
    | tryAcquire =>
      have hinterrupted : p.interrupted ≠ none := by
        intro hnone
        exact h.release hnone l (.inr (.inr ⟨result, hdone⟩))
      exact absurd (h.interruptedAsking hrunning hinterrupted) hasking
    | clusterTick => contradiction
    | reconcile => contradiction
    | release => exact hrelease rfl

theorem updateFuture (h : ProcessOk p loop) {f : Future} (hk : (p.futures k).isActive = true)
    (hof : ∀ task, f.Of task ↔ (p.futures k).Of task)
    (hled : f = .done .tryAcquire true → p.interrupted = none → p.connection ≠ none)
    (hreleased : ∀ result, f = .done .release result → ¬p.InterruptedAsking → p.connection = none)
    : ProcessOk { p with futures := Function.update p.futures k f } loop := by
  have hactive : ∀ l, (Function.update p.futures k f l).isActive = true →
      (p.futures l).isActive = true := by
    intro l hl
    by_cases h : l = k
    . rw [h]
      exact hk
    . rwa [Function.update_of_ne h] at hl
  have hofs : ∀ l task, (Function.update p.futures k f l).Of task ↔ (p.futures l).Of task := by
    intro l task
    by_cases h : l = k
    . rw [h, Function.update_self]
      exact hof task
    . rw [Function.update_of_ne h]
  have hidle : ∀ l, (p.futures l).isActive = false →
      (Function.update p.futures k f l).isActive = false := by
    intro l hl
    rw [← Bool.not_eq_true] at hl ⊢
    exact fun h => hl (hactive l h)
  constructor
  . intro l hl
    have habsent := h.absent l hl
    have hlk : l ≠ k := by
      intro hlk
      rw [← hlk, habsent] at hk
      contradiction
    dsimp only
    rw [Function.update_of_ne hlk]
    exact habsent
  . have hloop := h.loop
    cases loop with
    | ready => exact ⟨hloop.left, fun l => hidle l (hloop.right l)⟩
    | led => exact ⟨hloop.left, fun l => hidle l (hloop.right.left l), hloop.right.right⟩
    | waiting task l =>
      obtain ⟨hinterrupted, hactives, hoftask, htick, hdone⟩ := hloop
      refine ⟨hinterrupted, fun m hm => hactives m (hactive m hm), (hofs l task).mpr hoftask, htick, ?_⟩
      intro hl
      by_cases h : l = k
      . rw [h] at hl
        dsimp only at hl
        rw [Function.update_self] at hl
        exact hled hl hinterrupted
      . dsimp only at hl
        rw [Function.update_of_ne h] at hl
        exact hdone hl
    | stopping => exact ⟨hloop.left, fun l hl => hloop.right l (hactive l hl)⟩
    | releasing l =>
      exact ⟨hloop.left, fun m hm => hloop.right.left m (hactive m hm),
        (hofs l .release).mpr hloop.right.right⟩
    | ended =>
      obtain ⟨hinterrupted, hactives, l, result, hl⟩ := hloop
      refine ⟨hinterrupted, fun m hm => hactives m (hactive m hm), l, result, ?_⟩
      have hlk : l ≠ k := by
        intro hlk
        rw [← hlk, hl] at hk
        contradiction
      dsimp only
      rw [Function.update_of_ne hlk]
      exact hl
  . intro hinterrupted l hl
    exact h.release hinterrupted l ((hofs l .release).mp hl)
  . intro hasking l result hl
    have hasking' : ¬p.InterruptedAsking := by
      rintro ⟨m, hm, hmof⟩
      exact hasking ⟨m, hm, (hofs m .tryAcquire).mpr hmof⟩
    by_cases h' : l = k
    . rw [h'] at hl
      dsimp only at hl
      rw [Function.update_self] at hl
      exact hreleased result hl hasking'
    . dsimp only at hl
      rw [Function.update_of_ne h'] at hl
      exact h.released hasking' l result hl
  . exact h.outages

theorem start (h : ProcessOk p loop) (hk : p.futures k = .queued task)
    : ProcessOk { p with futures := Function.update p.futures k (.running task) } loop := by
  apply h.updateFuture
  . rw [hk]
    rfl
  . intro task'
    rw [hk]
    simp [Future.Of]
  . intro h
    contradiction
  . intro _ h
    contradiction

theorem finish (h : ProcessOk p loop) (hk : p.futures k = .running task) (result : Bool)
    (hled : task = .tryAcquire → result = true → p.interrupted = none → p.connection ≠ none)
    (hreleased : task = .release → ¬p.InterruptedAsking → p.connection = none)
    : ProcessOk { p with futures := Function.update p.futures k (.done task result) } loop := by
  apply h.updateFuture (isActive_of_running hk)
  . intro task'
    rw [hk]
    simp [Future.Of]
  . intro hdone
    injection hdone with htask hresult
    exact hled htask hresult
  . intro _ hdone
    injection hdone with htask _
    exact hreleased htask

theorem stop (h : ProcessOk p loop) (hnone : p.interrupted = none) {interrupted : Option Nat}
    {futures : Nat → Future}
    (hfutures : ∀ l, futures l = p.futures l ∨ p.futures l ≠ .absent ∧ futures l = .cancelled)
    (hactive : ∀ l, (futures l).isActive = true → interrupted = some l)
    : ProcessOk { p with interrupted := some interrupted, futures := futures } .stopping where
  absent l hl := by
    have habsent := h.absent l hl
    cases hfutures l with
    | inl heq => exact heq.trans habsent
    | inr hcancelled => exact absurd habsent hcancelled.left
  loop := ⟨Option.some_ne_none _, fun l hl => congrArg some (hactive l hl)⟩
  release hinterrupted := absurd hinterrupted (Option.some_ne_none _)
  released _ l result hdone := by
    dsimp only at hdone
    cases hfutures l with
    | inl heq =>
      rw [heq] at hdone
      exact absurd (.inr (.inr ⟨result, hdone⟩)) (h.release hnone l)
    | inr hcancelled =>
      rw [hcancelled.right] at hdone
      contradiction
  outages := h.outages

theorem interruptAwait (h : ProcessOk p (.waiting task k)) : ProcessOk (p.interruptAwait k) .stopping := by
  obtain ⟨hnone, hactives, _⟩ := h.loop
  unfold Process.interruptAwait
  split
  . next task' hk =>
    apply h.stop hnone
    . intro l
      by_cases hlk : l = k
      . rw [hlk, hk, Function.update_self]
        exact .inr ⟨Future.noConfusion, rfl⟩
      . rw [Function.update_of_ne hlk]
        exact .inl rfl
    . intro l hl
      by_cases hlk : l = k
      . rw [hlk, Function.update_self] at hl
        contradiction
      . rw [Function.update_of_ne hlk] at hl
        exact absurd (hactives l hl) hlk
  . exact h.stop hnone (fun _ => .inl rfl) (fun l hl => congrArg some (hactives l hl).symm)
  all_goals
    next hk =>
    apply h.stop hnone (fun _ => .inl rfl)
    intro l hl
    rw [hactives l hl, hk] at hl
    contradiction

theorem interruptSleep (h : ProcessOk p .ready)
    : ProcessOk { p with interrupted := some none } .stopping := by
  obtain ⟨hnone, hidle⟩ := h.loop
  apply h.stop hnone (fun _ => .inl rfl)
  intro l hl
  rw [hidle l] at hl
  contradiction

theorem awaited (h : ProcessOk p (.waiting task k)) {task' : Task} {result : Bool}
    (hk : p.futures k = .done task' result) {ι : Type} (i : ι)
    : ProcessOk p ((LoopStage.waiting task k).next (ι := ι) (.await i k) (some result)) := by
  obtain ⟨hnone, hactives, hof, htick, hdone⟩ := h.loop
  have hidle : ∀ l, (p.futures l).isActive = false := by
    intro l
    rw [← Bool.not_eq_true]
    intro hl
    rw [hactives l hl, hk] at hl
    contradiction
  rw [hk] at hof
  have htask := hof.eq_of_done
  subst htask
  refine ⟨h.absent, ?_, h.release, h.released, h.outages⟩
  cases task' with
  | tryAcquire =>
    cases result with
    | false => exact ⟨hnone, hidle⟩
    | true => exact ⟨hnone, hidle, hdone hk⟩
  | clusterTick => exact ⟨hnone, hidle, htick rfl⟩
  | reconcile => exact ⟨hnone, hidle⟩
  | release => exact ⟨hnone, hidle⟩

theorem awaitedRelease (h : ProcessOk p (.releasing k)) {task : Task} {result : Bool}
    (hk : p.futures k = .done task result) : ProcessOk p .ended := by
  obtain ⟨hinterrupted, hactives, hof⟩ := h.loop
  refine ⟨h.absent, ⟨hinterrupted, ?_, k, result, ?_⟩, h.release, h.released, h.outages⟩
  . intro l hl
    cases hactives l hl with
    | inl hlk =>
      rw [hlk, hk] at hl
      contradiction
    | inr hl => exact hl
  . rw [hk] at hof ⊢
    rw [hof.eq_of_done]

theorem submit (h : ProcessOk p loop) {loop' : LoopStage}
    (hrelease : task = .release → p.interrupted ≠ none) (hloop : LoopOk (p.submit task) loop')
    : ProcessOk (p.submit task) loop' where
  absent l hl := by
    have hne : l ≠ p.submitted := Nat.ne_of_gt hl
    have hle : p.submitted ≤ l := Nat.le_of_succ_le hl
    simp only [Process.submit, Function.update_of_ne hne]
    exact h.absent l hle
  loop := hloop
  release hinterrupted l hl := by
    by_cases hlk : l = p.submitted
    . simp [Process.submit, hlk, Future.Of] at hl
      exact hrelease hl hinterrupted
    . simp only [Process.submit, Function.update_of_ne hlk] at hl
      exact h.release hinterrupted l hl
  released hasking l result hl := by
    have hasking' : ¬p.InterruptedAsking := by
      rintro ⟨m, hm, hmof⟩
      have hne : m ≠ p.submitted := by
        intro heq
        rw [h.absent m (Nat.le_of_eq heq.symm)] at hmof
        simp [Future.Of] at hmof
      refine hasking ⟨m, hm, ?_⟩
      simp only [Process.submit, Function.update_of_ne hne]
      exact hmof
    by_cases hlk : l = p.submitted
    . simp [Process.submit, hlk] at hl
    . simp only [Process.submit, Function.update_of_ne hlk] at hl
      exact h.released hasking' l result hl
  outages := h.outages

theorem submitted (h : ProcessOk p loop) {ι : Type} {i : ι}
    (hallows : LoopAllows i loop (.submit i task))
    : ProcessOk (p.submit task) (loop.next (ι := ι) (.submit i task) p.submitted) := by
  have hself : (p.submit task).futures p.submitted = .queued task := by
    simp [Process.submit]
  have hactive : ∀ l, ((p.submit task).futures l).isActive = true →
      l = p.submitted ∨ (p.futures l).isActive = true := by
    intro l hl
    by_cases hlk : l = p.submitted
    . exact .inl hlk
    . simp only [Process.submit, Function.update_of_ne hlk] at hl
      exact .inr hl
  have hfirst : (∀ l, (p.futures l).isActive = false) →
      ∀ l, ((p.submit task).futures l).isActive = true → l = p.submitted := by
    intro hidle l hl
    cases hactive l hl with
    | inl hl => exact hl
    | inr hl =>
      rw [hidle l] at hl
      contradiction
  have hof : ((p.submit task).futures p.submitted).Of task := .inl hself
  have hnotdone : (p.submit task).futures p.submitted ≠ .done .tryAcquire true := by
    rw [hself]
    exact Future.noConfusion
  cases hallows with
  | ask =>
    obtain ⟨hnone, hidle⟩ := h.loop
    exact h.submit Task.noConfusion
      ⟨hnone, hfirst hidle, hof, Bool.noConfusion, fun hdone => absurd hdone hnotdone⟩
  | tick htask =>
    obtain ⟨hnone, hidle, hconnection⟩ := h.loop
    apply h.submit
    . intro hrelease
      rw [hrelease] at htask
      contradiction
    . exact ⟨hnone, hfirst hidle, hof, fun _ => hconnection, fun _ => hconnection⟩
  | release =>
    obtain ⟨hinterrupted, hactives⟩ := h.loop
    refine h.submit (fun _ => hinterrupted) ⟨hinterrupted, ?_, hof⟩
    intro l hl
    cases hactive l hl with
    | inl hl => exact .inl hl
    | inr hl => exact .inr (hactives l hl)

theorem log (h : ProcessOk p loop) {line : Line} (hline : line.isOutage = false)
    : ProcessOk { p with log := p.log ++ [line] } loop where
  absent := h.absent
  loop := by
    have hloop := h.loop
    cases loop <;> exact hloop
  release := h.release
  released := h.released
  outages := by
    dsimp only
    rw [List.foldlM_append, h.outages]
    cases line with
    | unreachable _ => contradiction
    | reachable => contradiction
    | leads => rfl
    | lost => rfl
    | released => rfl

theorem noteUnreachable (h : ProcessOk p loop) (error : String)
    : ProcessOk (p.noteUnreachable error) loop := by
  unfold Process.noteUnreachable
  split
  . exact h
  . next hup =>
    refine ⟨h.absent, ?_, h.release, h.released, ?_⟩
    . have hloop := h.loop
      cases loop <;> exact hloop
    . dsimp only
      rw [List.foldlM_append, h.outages, Bool.not_eq_true _ |>.mp hup]
      rfl

theorem noteReachable (h : ProcessOk p loop) : ProcessOk p.noteReachable loop := by
  unfold Process.noteReachable
  split
  . next hdown =>
    refine ⟨h.absent, ?_, h.release, h.released, ?_⟩
    . have hloop := h.loop
      cases loop <;> exact hloop
    . dsimp only
      rw [List.foldlM_append, h.outages, hdown]
      rfl
  . exact h

theorem setGuard (h : ProcessOk p loop) (guard : Option Nat) : ProcessOk { p with guard := guard } loop := by
  refine ⟨h.absent, ?_, h.release, h.released, h.outages⟩
  have hloop := h.loop
  cases loop <;> exact hloop

theorem requestCancel (h : ProcessOk p loop) : ProcessOk { p with cancelRequested := true } loop := by
  refine ⟨h.absent, ?_, h.release, h.released, h.outages⟩
  have hloop := h.loop
  cases loop <;> exact hloop

end ProcessOk

end process

end Leadership

end AetherGrid
