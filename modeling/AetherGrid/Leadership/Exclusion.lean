import AetherGrid.Leadership.Invariant

/-!
This module contains what the election guarantees.
-/

namespace AetherGrid

namespace Leadership

open Prog

section workers

variable {ι : Type} {s s' : World ι} {i j : ι} {p p' : Process} {k l : Nat} {st : Stage}
variable {stages : Nat → Stage} {loop loop' : LoopStage} {conn : Session}

theorem StageOk.running (h : StageOk s i p k st) {task : Task} (htask : st.task = some task)
    : p.futures k = .running task := by
  cases st with
  | waiting => contradiction
  | finished => contradiction
  | started _ => exact Option.some.inj htask ▸ h
  | entered _ => exact Option.some.inj htask ▸ h.1
  | left _ _ => exact Option.some.inj htask ▸ h.1
  | _ => exact Option.some.inj htask ▸ h.1.1

theorem StageOk.guard (h : StageOk s i p k st) (hst : st.inside = true) : p.guard = some k := by
  cases st with
  | waiting | finished | started | left => contradiction
  | entered _ => exact h.2
  | _ => exact h.1.2

theorem StageOk.of_outside (h : StageOk s i p k st) (hst : st.inside = false)
    (hrunning : ∀ task, p.futures k = .running task → p'.futures k = .running task)
    (hled : st = .left .tryAcquire true → p'.interrupted = none → p'.connection ≠ none)
    (hreleased : ∀ result, st = .left .release result → ¬p'.InterruptedAsking → p'.connection = none)
    : StageOk s' i p' k st := by
  cases st with
  | waiting | finished => trivial
  | started task => exact hrunning task h
  | left task result =>
    refine ⟨hrunning task h.1, ?_, ?_⟩
    . rintro rfl rfl
      exact hled rfl
    . rintro rfl
      exact hreleased result rfl
  | _ => contradiction

theorem StageOk.of_eq (h : StageOk s i p k st) (hconnection : p'.connection = p.connection)
    (hguard : p'.guard = p.guard)
    (hrunning : ∀ task, p.futures k = .running task → p'.futures k = .running task)
    (hinterrupted : p'.interrupted = none → p.interrupted = none)
    (hasking : p.futures k = .running .release → p.InterruptedAsking → p'.InterruptedAsking)
    : StageOk s i p' k st := by
  by_cases hst : st.inside = false
  . apply h.of_outside hst hrunning
    . rintro rfl hnone
      rw [hconnection]
      exact h.2.1 rfl rfl (hinterrupted hnone)
    . rintro result rfl hnot
      rw [hconnection]
      exact h.2.2 rfl (fun hasked => hnot (hasking h.1 hasked))
  . have hinside : ∀ task, p.Inside k task → p'.Inside k task :=
      fun task h => ⟨hrunning task h.1, hguard.trans h.2⟩
    cases st with
    | waiting | finished | started | left => exact absurd rfl hst
    | entered task => exact hinside task h
    | _ =>
      refine ⟨hinside _ h.1, ?_⟩
      rw [hconnection]
      exact h.2

theorem Ok.outside (h : Ok s i p stages loop) (hk : (stages k).inside = true) (hlk : l ≠ k)
    : (stages l).inside = false := by
  rw [← Bool.not_eq_true]
  intro hl
  exact hlk (Option.some.inj (((h.stage l).guard hl).symm.trans ((h.stage k).guard hk)))

theorem Ok.others (h : Ok s i p stages loop) (hk : (stages k).inside = true) (hlk : l ≠ k)
    : StageOk s' i p l (stages l) := by
  have hl := h.stage l
  generalize hst : stages l = st at hl
  have hinside := h.outside hk hlk
  rw [hst] at hinside
  apply hl.of_outside hinside (fun _ h => h)
  . rintro rfl
    exact hl.2.1 rfl rfl
  . rintro result rfl
    exact hl.2.2 rfl

theorem Ok.others_of_connection (h : Ok s i p stages loop) {connection : Option Session}
    (hk : (stages k).inside = true) {task : Task} (htask : (stages k).task = some task)
    (hconn : connection = none ∨ task = .tryAcquire) (hlk : l ≠ k)
    : StageOk s i { p with connection := connection } l (stages l) := by
  have hrunning := (h.stage k).running htask
  refine (h.stage l).of_outside (h.outside hk hlk) (fun _ h => h) ?_ ?_
  . intro hst hinterrupted
    have hl : p.futures l = .running .tryAcquire := (h.stage l).running (by rw [hst]; rfl)
    exact absurd (h.process.active_unique hinterrupted (isActive_of_running hl)
      (isActive_of_running hrunning)) hlk
  . intro result hst hasking
    cases hconn with
    | inl hnone => exact hnone
    | inr hacquire =>
      rw [hacquire] at hrunning
      have hl : p.futures l = .running .release := (h.stage l).running (by rw [hst]; rfl)
      have hinterrupted : p.interrupted ≠ none := by
        intro hnone
        exact h.process.release hnone l (.inr (.inl hl))
      exact absurd (h.process.interruptedAsking hrunning hinterrupted) hasking

theorem Ok.update (h : Ok s i p stages loop) (hprocess : ProcessOk p' loop)
    (hstage : StageOk s' i p' k st) (hothers : ∀ l, l ≠ k → StageOk s' i p' l (stages l))
    (howned : ∀ conn, p'.connection = some conn → s'.owner conn = some i)
    (hlocks : ∀ conn, p'.connection = some conn → s'.live conn = true → s'.lock = some conn)
    (hkept : ∀ conn, s'.owner conn = some i → s'.opened conn = true →
      (p'.connection = some conn ∨ st.hand = some conn)
        ∨ (s.owner conn = some i ∧ s.opened conn = true ∧ p.connection ≠ some conn
          ∧ (stages k).hand ≠ some conn))
    : Ok s' i p' (Function.update stages k st) loop where
  process := hprocess
  stage l := by
    by_cases hlk : l = k
    . rw [hlk, Function.update_self]
      exact hstage
    . rw [Function.update_of_ne hlk]
      exact hothers l hlk
  owned := howned
  locks := hlocks
  kept conn howner hopened := by
    rcases hkept conn howner hopened with (hconn | hhand) | ⟨howner', hopened', hconn, hhand⟩
    . exact .inl hconn
    . refine .inr ⟨k, ?_⟩
      rw [Function.update_self]
      exact hhand
    . -- it is in the hand of another worker, which keeps it
      rcases h.kept conn howner' hopened' with hconn' | ⟨l, hl⟩
      . exact absurd hconn' hconn
      . refine .inr ⟨l, ?_⟩
        have hlk : l ≠ k := by
          intro heq
          rw [heq] at hl
          exact hhand hl
        rw [Function.update_of_ne hlk]
        exact hl

theorem Ok.move (h : Ok s i p stages loop) (hconnection : p'.connection = p.connection)
    (hhand : st.hand = (stages k).hand) (hprocess : ProcessOk p' loop)
    (hstage : StageOk s i p' k st) (hothers : ∀ l, l ≠ k → StageOk s i p' l (stages l))
    : Ok s i p' (Function.update stages k st) loop := by
  apply h.update hprocess hstage hothers
  . rw [hconnection]
    exact h.owned
  . rw [hconnection]
    exact h.locks
  . intro conn howner hopened
    rw [hconnection, hhand]
    by_cases hin : p.connection = some conn ∨ (stages k).hand = some conn
    . exact .inl hin
    . rw [not_or] at hin
      exact .inr ⟨howner, hopened, hin⟩

theorem Ok.of_process (h : Ok s i p stages loop) (hprocess : ProcessOk p' loop')
    (hconnection : p'.connection = p.connection) (hguard : p'.guard = p.guard)
    (hrunning : ∀ k task, p.futures k = .running task → p'.futures k = .running task)
    (hinterrupted : p'.interrupted = none → p.interrupted = none)
    (hasking : ∀ k, p.futures k = .running .release → p.InterruptedAsking → p'.InterruptedAsking)
    : Ok s i p' stages loop' := by
  refine ⟨hprocess, ?_, ?_, ?_, ?_⟩
  . intro k
    exact (h.stage k).of_eq hconnection hguard (hrunning k) hinterrupted (hasking k)
  all_goals rw [hconnection]
  . exact h.owned
  . exact h.locks
  . exact h.kept

theorem Ok.quiet (h : Ok s i p stages loop) (hprocess : ProcessOk p' loop)
    (hconnection : p'.connection = p.connection) (hguard : p'.guard = p.guard)
    (hfutures : p'.futures = p.futures) (hinterrupted : p'.interrupted = p.interrupted)
    : Ok s i p' stages loop := by
  apply h.of_process hprocess hconnection hguard
  . rw [hfutures]
    exact fun _ _ h => h
  . rw [hinterrupted]
    exact id
  . unfold Process.InterruptedAsking
    rw [hinterrupted, hfutures]
    exact fun _ _ h => h

theorem of_statement {α : Type} {fate : Fate} {answer : α} {after : World ι} (P : World ι → Prop)
    (hs : P s) (hafter : P after) : P (s.statement conn fate answer after).2 := by
  unfold World.statement
  split
  . cases fate with
    | works => exact hafter
    | fails _ => exact hs
    | failsLate _ => exact hafter
  . exact hs

theorem statement_ok {α : Type} {fate : Fate} {answer a : α} {after : World ι}
    (h : (s.statement conn fate answer after).1 = .ok a)
    : a = answer ∧ (s.statement conn fate answer after).2 = after := by
  unfold World.statement at h ⊢
  split at h
  . next hopen =>
    rw [if_pos hopen]
    cases fate with
    | works => exact ⟨(Except.ok.inj h).symm, rfl⟩
    | fails _ => contradiction
    | failsLate _ => contradiction
  . contradiction

theorem Ok.close (h : Ok s i p stages loop) (fate : Fate) (hk : (stages k).inside = true)
    (hstage : StageOk (s.closeClient conn) i p k st)
    (hhad : ∀ c, (stages k).hand = some c → c = conn)
    : Ok (s.close conn fate).2 i p (Function.update stages k st) loop := by
  have hclient : Ok (s.closeClient conn) i p (Function.update stages k st) loop := by
    apply h.update h.process hstage (fun l hlk => h.others hk hlk) h.owned h.locks
    intro c howner hopened
    have hne : c ≠ conn := by
      intro heq
      simp [World.closeClient, heq] at hopened
    simp [World.closeClient, hne] at hopened
    by_cases hconn : p.connection = some c
    . exact .inl (.inl hconn)
    . exact .inr ⟨howner, hopened, hconn, fun hin => hne (hhad c hin)⟩
  cases fate with
  | works => exact hclient.respects (.endSession conn)
  | fails _ => exact hclient
  | failsLate _ => exact hclient.respects (.endSession conn)

theorem Ok.openSession (h : Ok s i p stages loop) (hk : stages k = .clear .tryAcquire) {known : Bool}
    (hst : st = if known then .opened s.next else .clear .tryAcquire)
    : Ok (s.openSession i known) i p (Function.update stages k st) loop := by
  have hstage := h.stage k
  rw [hk] at hstage
  obtain ⟨hinside, hnone⟩ := hstage
  refine h.update h.process ?_ (fun l hlk => h.others (by rw [hk]; rfl) hlk) ?_ ?_ ?_
  . cases known with
    | false =>
      subst hst
      exact ⟨hinside, hnone⟩
    | true =>
      subst hst
      exact ⟨hinside, hnone, by simp [World.openSession]⟩
  . simp [hnone]
  . simp [hnone]
  . intro conn howner hopened
    by_cases hnext : conn = s.next
    . subst hnext
      simp [World.openSession] at hopened
      rw [hst, hopened]
      exact .inl (.inr rfl)
    . simp [World.openSession, hnext] at howner hopened
      exact .inr ⟨howner, hopened, by simp [hnone], by simp [hk, Stage.hand]⟩

theorem Ok.of_lock (h : Ok s i p stages loop) (hk : (stages k).inside = true)
    (hnone : p.connection = none) (hstage : StageOk s' i p k st) (hhand : st.hand = (stages k).hand)
    (howner : s'.owner = s.owner) (hopened : s'.opened = s.opened)
    : Ok s' i p (Function.update stages k st) loop := by
  refine h.update h.process hstage (fun l hlk => h.others hk hlk) ?_ ?_ ?_
  . simp [hnone]
  . simp [hnone]
  . intro conn hconn hopen
    rw [howner] at hconn
    rw [hopened] at hopen
    rw [hhand]
    by_cases hin : (stages k).hand = some conn
    . exact .inl (.inr hin)
    . exact .inr ⟨hconn, hopen, by simp [hnone], hin⟩

theorem Ok.lock (h : Ok s i p stages loop) (fate : Fate) (hk : stages k = .opened conn)
    : Ok (s.statement conn fate (s.mayLock conn) (s.takeLock conn)).2 i p
        (Function.update stages k ((Stage.opened conn).next (ι := ι) (.tryAdvisoryLock conn)
          (s.statement conn fate (s.mayLock conn) (s.takeLock conn)).1)) loop := by
  have hinside : (stages k).inside = true := by
    rw [hk]
    rfl
  have hstage := h.stage k
  rw [hk] at hstage
  have hsame : Function.update stages k (.opened conn) = stages := by
    rw [← hk, Function.update_eq_self]
  have howner : (s.takeLock conn).owner = s.owner ∧ (s.takeLock conn).opened = s.opened := by
    unfold World.takeLock
    split <;> exact ⟨rfl, rfl⟩
  have htaken : ∀ st : Stage, StageOk (s.takeLock conn) i p k st → st.hand = some conn →
      Ok (s.takeLock conn) i p (Function.update stages k st) loop := by
    intro st hst hhand
    exact h.of_lock hinside hstage.2.1 hst (by rw [hk]; exact hhand) howner.left howner.right
  have hopened : StageOk (s.takeLock conn) i p k (.opened conn) :=
    ⟨hstage.1, hstage.2.1, by rw [howner.left]; exact hstage.2.2⟩
  -- the answer may be lost on the way
  have hworld : Ok (s.statement conn fate (s.mayLock conn) (s.takeLock conn)).2 i p
      (Function.update stages k (.opened conn)) loop := by
    apply of_statement (fun s' => Ok s' i p (Function.update stages k (.opened conn)) loop)
    . rw [hsame]
      exact h
    . exact htaken _ hopened rfl
  cases hanswer : (s.statement conn fate (s.mayLock conn) (s.takeLock conn)).1 with
  | error _ => exact hworld
  | ok row =>
    cases row with
    | false => exact hworld
    | true =>
      obtain ⟨hmay, hafter⟩ := statement_ok hanswer
      rw [hafter]
      refine htaken _ ⟨hopened.1, hopened.2.1, hopened.2.2, ?_⟩ rfl
      intro _
      unfold World.takeLock
      rw [if_pos hmay.symm]

theorem Ok.setConnection (h : Ok s i p stages loop) (task : Task) {connection : Option Session}
    (hk : (stages k).inside = true) (htask : (stages k).task = some task) (htick : task.isTick = false)
    (hconnection : connection = none ∨ task = .tryAcquire)
    (hstage : StageOk s i { p with connection := connection } k st)
    (howned : ∀ conn, connection = some conn → s.owner conn = some i)
    (hlocks : ∀ conn, connection = some conn → s.live conn = true → s.lock = some conn)
    (hkept : ∀ conn, s.opened conn = true → p.connection = some conn ∨ (stages k).hand = some conn →
      connection = some conn ∨ st.hand = some conn)
    : Ok s i { p with connection := connection } (Function.update stages k st) loop := by
  refine h.update ?_ hstage (fun l => h.others_of_connection hk htask hconnection) howned hlocks ?_
  . apply h.process.setConnection ((h.stage k).running htask) htick
    intro hrelease
    cases hconnection with
    | inl hnone => exact hnone
    | inr hacquire =>
      rw [hacquire] at hrelease
      contradiction
  . intro conn howner hopened
    by_cases hhad : p.connection = some conn ∨ (stages k).hand = some conn
    . exact .inl (hkept conn hopened hhad)
    . rw [not_or] at hhad
      exact .inr ⟨howner, hopened, hhad⟩

theorem Ok.future (h : Ok s i p stages loop) {f : Future} (hhand : st.hand = (stages k).hand)
    (hprocess : ProcessOk { p with futures := Function.update p.futures k f } loop)
    (hof : (p.futures k).Of .tryAcquire → f.Of .tryAcquire)
    (hstage : StageOk s i { p with futures := Function.update p.futures k f } k st)
    : Ok s i { p with futures := Function.update p.futures k f } (Function.update stages k st) loop := by
  refine h.move rfl hhand hprocess hstage ?_
  intro l hlk
  refine (h.stage l).of_eq rfl rfl ?_ ?_ ?_
  . intro task hrunning
    dsimp only
    rw [Function.update_of_ne hlk]
    exact hrunning
  . exact id
  . rintro _ ⟨m, hm, hmof⟩
    refine ⟨m, hm, ?_⟩
    dsimp only
    by_cases hmk : m = k
    . rw [hmk] at hmof ⊢
      rw [Function.update_self]
      exact hof hmof
    . rw [Function.update_of_ne hmk]
      exact hmof

theorem Ok.finish (h : Ok s i p stages loop) {task : Task} (result : Bool)
    (hk : stages k = .left task result ∨ stages k = .started task ∧ task.isTick = true)
    : Ok s i { p with futures := Function.update p.futures k (.done task result) }
        (Function.update stages k .finished) loop := by
  have hstage := h.stage k
  have hrunning : p.futures k = .running task := by
    rcases hk with hk | ⟨hk, _⟩ <;> rw [hk] at hstage
    . exact hstage.1
    . exact hstage
  refine h.future ?_ ?_ ?_ trivial
  . rcases hk with hk | ⟨hk, _⟩ <;> rw [hk] <;> rfl
  . rcases hk with hk | ⟨_, htick⟩
    . rw [hk] at hstage
      exact h.process.finish hrunning result hstage.2.1 hstage.2.2
    . apply h.process.finish hrunning result
      all_goals
        rintro rfl
        contradiction
  . rw [hrunning]
    simp [Future.Of]

theorem Ok.setGuard (h : Ok s i p stages loop) {guard : Option Nat}
    (hothers : ∀ l, l ≠ k → (stages l).inside = false) (hhand : st.hand = (stages k).hand)
    (hstage : StageOk s i { p with guard := guard } k st)
    : Ok s i { p with guard := guard } (Function.update stages k st) loop := by
  refine h.move rfl hhand (h.process.setGuard _) hstage ?_
  intro l hlk
  have hl := h.stage l
  refine hl.of_outside (hothers l hlk) (fun _ h => h) ?_ ?_
  . intro hst
    rw [hst] at hl
    exact hl.2.1 rfl rfl
  . intro result hst
    rw [hst] at hl
    exact hl.2.2 rfl

theorem Ok.enter (h : Ok s i p stages loop) {task : Task} (hk : stages k = .started task)
    (hfree : p.guard = none)
    : Ok s i { p with guard := some k } (Function.update stages k (.entered task)) loop := by
  have hstage := h.stage k
  rw [hk] at hstage
  refine h.setGuard ?_ (by rw [hk]; rfl) ⟨hstage, rfl⟩
  intro l _
  rw [← Bool.not_eq_true]
  intro hinside
  have hguard := (h.stage l).guard hinside
  rw [hfree] at hguard
  contradiction

theorem processes_of_dropLock : (s.dropLock conn).processes = s.processes :=
  rfl

theorem processes_of_statement {α : Type} {fate : Fate} {answer : α} {after : World ι}
    (h : after.processes = s.processes)
    : (s.statement conn fate answer after).2.processes = s.processes :=
  of_statement (·.processes = s.processes) rfl h

theorem processes_of_close {fate : Fate} : (s.close conn fate).2.processes = s.processes := by
  cases fate <;> rfl

theorem processes_of_connect {fate : Fate} : (s.connect i fate).2.processes = s.processes := by
  cases fate <;> rfl

theorem processes_of_takeLock : (s.takeLock conn).processes = s.processes := by
  unfold World.takeLock
  split <;> rfl

section step

variable [DecidableEq ι] {f : Process → Process} {c : Call ι} {fate : Fate}

@[simp]
theorem World.modify_processes_self : (s.modify i f).processes i = f (s.processes i) := by
  simp [World.modify]

theorem World.modify_processes_of_ne (h : j ≠ i) : (s.modify i f).processes j = s.processes j := by
  simp [World.modify, h]

theorem Respects.modify (hji : j ≠ i)
    : Respects j s (s.modify i f) ∧ (s.modify i f).processes j = s.processes j :=
  ⟨⟨fun _ => Iff.rfl, fun _ _ => rfl, fun _ _ h => h, fun _ _ _ h => h⟩,
    World.modify_processes_of_ne hji⟩

theorem Ok.of_modify (h : Ok s i (f (s.processes i)) stages loop)
    : Ok (s.modify i f) i ((s.modify i f).processes i) stages loop := by
  rw [World.modify_processes_self]
  exact ⟨h.process, h.stage, h.owned, h.locks, h.kept⟩

theorem Ok.worker (h : Ok s i (s.processes i) stages loop) (hallows : Allows i k (stages k) c)
    (hready : s.ready c = true)
    : Ok (World.exec c fate s).2 i ((World.exec c fate s).2.processes i)
        (Function.update stages k ((stages k).next c (World.exec c fate s).1)) loop := by
  have hstage := h.stage k
  have hsame : ∀ st, stages k = st → Function.update stages k st = stages := by
    intro st hst
    rw [← hst, Function.update_eq_self]
  have hins : ∀ st, stages k = st → st.inside = true → (stages k).inside = true := by
    intro st hst hinside
    rw [hst]
    exact hinside
  generalize hk : stages k = st at hallows hstage
  cases hallows with
  | start =>
    cases hfuture : (s.processes i).futures k with
    | queued task =>
      simp only [World.exec, World.start, hfuture]
      apply Ok.of_modify
      refine h.future ?_ (h.process.start hfuture) ?_ ?_
      . rw [hk]
        rfl
      . rw [hfuture]
        simp [Future.Of]
      . exact Function.update_self _ _ _
    | _ => simp [World.ready, hfuture, Future.isQueued] at hready
  | enter htask =>
    have hfree : (s.processes i).guard = none := by
      simpa [World.ready] using hready
    simp only [World.exec]
    apply Ok.of_modify
    exact h.enter hk hfree
  | @finishTick task htask result =>
    have hrunning : (s.processes i).futures k = .running task := hstage
    simp only [World.exec, World.finish, hrunning]
    apply Ok.of_modify
    exact h.finish result (.inr ⟨hk, htask⟩)
  | @finish task result =>
    simp only [World.exec, World.finish, hstage.1]
    apply Ok.of_modify
    exact h.finish result (.inl hk)
  | @connection task =>
    simp only [World.exec]
    cases hconnection : (s.processes i).connection <;>
    . refine h.move rfl ?_ h.process ⟨hstage, hconnection⟩ (fun l _ => h.stage l)
      rw [hk]
      rfl
  | @selectOne conn =>
    have hworld : (World.exec (ι := ι) (.selectOne conn) fate s).2 = s :=
      of_statement (· = s) rfl rfl
    rw [hworld]
    cases (World.exec (ι := ι) (.selectOne conn) fate s).1 with
    | error _ =>
      dsimp only [Stage.next]
      rw [hsame _ hk]
      exact h
    | ok _ =>
      refine h.move rfl ?_ h.process ⟨hstage.1, ?_⟩ (fun l _ => h.stage l)
      . rw [hk]
        rfl
      . rw [hstage.2]
        exact Option.some_ne_none conn
  | @closeFound conn =>
    simp only [World.exec, processes_of_close]
    refine h.close fate (hins _ hk rfl) ⟨hstage.1, hstage.2, by simp [World.closeClient]⟩ ?_
    simp [hk, Stage.hand]
  | closeOpened | closeDropped =>
    simp only [World.exec, processes_of_close]
    refine h.close fate (hins _ hk rfl) ⟨hstage.1, hstage.2.1⟩ ?_
    simp [hk, Stage.hand]
  | @drop conn =>
    simp only [World.exec]
    apply Ok.of_modify
    refine h.setConnection .release (hins _ hk rfl) (by rw [hk]; rfl) rfl (.inl rfl)
      ⟨hstage.1, rfl, h.owned conn hstage.2⟩ (by simp) (by simp) ?_
    intro c _ hc
    rw [hk, hstage.2] at hc
    exact .inr (hc.resolve_right (by simp [Stage.hand]))
  | @forget conn =>
    simp only [World.exec]
    apply Ok.of_modify
    refine h.setConnection .tryAcquire (hins _ hk rfl) (by rw [hk]; rfl) rfl (.inl rfl)
      ⟨hstage.1, rfl⟩ (by simp) (by simp) ?_
    intro c hopened hc
    rw [hk, hstage.2.1] at hc
    rw [← Option.some.inj (hc.resolve_right (by simp [Stage.hand])), hstage.2.2] at hopened
    contradiction
  | @keep conn =>
    obtain ⟨hinside, hnone, howner, hlock⟩ := hstage
    simp only [World.exec]
    apply Ok.of_modify
    refine h.setConnection .tryAcquire (hins _ hk rfl) (by rw [hk]; rfl) rfl (.inr rfl)
      ⟨hinside, Option.some_ne_none conn⟩ ?_ ?_ ?_
    . intro c hc
      rw [← Option.some.inj hc]
      exact howner
    . intro c hc
      rw [← Option.some.inj hc]
      exact hlock
    . intro c _ hc
      rw [hk, hnone] at hc
      exact .inl (hc.resolve_left (by simp))
  | connect =>
    simp only [World.exec, processes_of_connect]
    cases fate with
    | works => exact h.openSession hk rfl
    | fails _ =>
      dsimp only [World.connect, Stage.next]
      rw [hsame _ hk]
      exact h
    | failsLate _ => exact h.openSession hk rfl
  | @tryAdvisoryLock conn =>
    simp only [World.exec, processes_of_statement processes_of_takeLock]
    exact h.lock fate hk
  | @advisoryUnlock conn =>
    have hst : (Stage.dropped conn).next (ι := ι) (.advisoryUnlock conn)
        (World.exec (.advisoryUnlock conn) fate s).1 = .dropped conn := rfl
    rw [hst, hsame _ hk]
    simp only [World.exec]
    rw [processes_of_statement processes_of_dropLock]
    apply of_statement (fun s' => Ok s' i (s.processes i) stages loop) h
    rw [← hsame _ hk]
    refine h.of_lock (hins _ hk rfl) hstage.2.1 ⟨hstage.1, hstage.2⟩ ?_ rfl rfl
    rw [hk]
  | @noteUnreachable st error hst =>
    have hnext : st.next (ι := ι) (.noteUnreachable i error) () = st := rfl
    simp only [World.exec]
    rw [hnext, hsame _ hk]
    apply Ok.of_modify
    apply h.quiet (h.process.noteUnreachable error)
    all_goals
      unfold Process.noteUnreachable
      split <;> rfl
  | noteReachable hst =>
    have hnext : st.next (ι := ι) (.noteReachable i) () = st := rfl
    simp only [World.exec]
    rw [hnext, hsame _ hk]
    apply Ok.of_modify
    apply h.quiet h.process.noteReachable
    all_goals
      unfold Process.noteReachable
      split <;> rfl
  | @log st line hst hline =>
    have hnext : st.next (ι := ι) (.log i line) () = st := rfl
    simp only [World.exec]
    rw [hnext, hsame _ hk]
    apply Ok.of_modify
    exact h.quiet (h.process.log hline) rfl rfl rfl rfl
  | @leaveClear task =>
    simp only [World.exec]
    apply Ok.of_modify
    exact h.setGuard (fun l hlk => h.outside (hins _ hk rfl) hlk) (by rw [hk]; rfl)
      ⟨hstage.1.1, by simp, fun _ _ => hstage.2⟩
  | leaveLeads =>
    simp only [World.exec]
    apply Ok.of_modify
    exact h.setGuard (fun l hlk => h.outside (hins _ hk rfl) hlk) (by rw [hk]; rfl)
      ⟨hstage.1.1, fun _ _ _ => hstage.2, by simp⟩

theorem Ok.worker_respects (h : Ok s i p stages loop) (hallows : Allows i k (stages k) c)
    (hfresh : s.owner s.next = none) (hji : j ≠ i)
    : Respects j s (World.exec c fate s).2 ∧ (World.exec c fate s).2.processes j = s.processes j := by
  have hstage := h.stage k
  generalize stages k = st at hallows hstage
  have hserver : ∀ {s' : World ι}, Respects j s s' → s'.processes = s.processes →
      Respects j s s' ∧ s'.processes j = s.processes j :=
    fun hrespects heq => ⟨hrespects, congrFun heq j⟩
  have hstatement : ∀ {α : Type} (conn : Session) (answer : α) (after : World ι),
      Respects j s after → after.processes = s.processes →
      Respects j s (s.statement conn fate answer after).2
        ∧ (s.statement conn fate answer after).2.processes j = s.processes j := by
    intro _ conn answer after hafter heq
    exact hserver (of_statement (Respects j s) (.refl j s) hafter) (processes_of_statement heq)
  have hfinish : ∀ result, Respects j s (s.finish i k result)
      ∧ (s.finish i k result).processes j = s.processes j := by
    intro result
    unfold World.finish
    split
    . exact Respects.modify hji
    . exact hserver (.refl j s) rfl
  cases hallows with
  | start =>
    simp only [World.exec, World.start]
    split
    . dsimp only
      exact Respects.modify hji
    . exact hserver (.refl j s) rfl
  | finishTick _ result => exact hfinish result
  | finish => exact hfinish _
  | connection => exact hserver (.refl j s) rfl
  | selectOne => exact hstatement _ _ _ (.refl j s) rfl
  | closeFound => exact hserver (.close (h.owned _ hstage.2) hji fate) processes_of_close
  | closeOpened | closeDropped => exact hserver (.close hstage.2.2 hji fate) processes_of_close
  | tryAdvisoryLock =>
    exact hstatement _ _ _ (.takeLock hstage.2.2 hji) processes_of_takeLock
  | advisoryUnlock => exact hstatement _ _ _ (.dropLock hstage.2.2 hji) rfl
  | connect =>
    refine hserver ?_ processes_of_connect
    cases fate with
    | works => exact .openSession hfresh hji true
    | fails _ => exact .refl j s
    | failsLate _ => exact .openSession hfresh hji false
  | enter | drop | forget | keep | noteUnreachable | noteReachable | log | leaveClear | leaveLeads =>
    simp only [World.exec]
    exact Respects.modify hji

end step

end workers

section loops

variable {ι : Type} {s : World ι} {i j : ι} {p p' : Process} {k : Nat} {stages : Nat → Stage}
variable {loop loop' : LoopStage} {task : Task}

theorem Ok.submit (h : Ok s i p stages loop) (hallows : LoopAllows i loop (.submit i task))
    : Ok s i (p.submit task) stages (loop.next (ι := ι) (.submit i task) p.submitted) := by
  have hne : ∀ l, p.futures l ≠ .absent → (p.submit task).futures l = p.futures l := by
    intro l hl
    apply Function.update_of_ne
    intro heq
    exact hl (h.process.absent l (Nat.le_of_eq heq.symm))
  apply h.of_process (h.process.submitted hallows) rfl rfl
  . intro l task' hl
    rw [hne l (by simp [hl])]
    exact hl
  . exact id
  . rintro _ _ ⟨m, hm, hmof⟩
    refine ⟨m, hm, ?_⟩
    rw [hne m (by intro habsent; simp [habsent, Future.Of] at hmof)]
    exact hmof

theorem Ok.interrupt (h : Ok s i p stages loop) (hprocess : ProcessOk p' loop')
    (hnone : p.interrupted = none) (hsome : p'.interrupted ≠ none)
    (hconnection : p'.connection = p.connection) (hguard : p'.guard = p.guard)
    (hrunning : ∀ k task, p.futures k = .running task → p'.futures k = .running task)
    : Ok s i p' stages loop' :=
  h.of_process hprocess hconnection hguard hrunning (fun h => absurd h hsome)
    (fun k hk => absurd (.inr (.inl hk)) (h.process.release hnone k))

theorem Ok.interruptAwait (h : Ok s i p stages (.waiting task k))
    : Ok s i (p.interruptAwait k) stages .stopping := by
  apply h.interrupt h.process.interruptAwait h.process.loop.left
  . unfold Process.interruptAwait
    split <;> exact Option.some_ne_none _
  . unfold Process.interruptAwait
    split <;> rfl
  . unfold Process.interruptAwait
    split <;> rfl
  . intro l task' hl
    unfold Process.interruptAwait
    split
    . next task'' hk =>
      have hlk : l ≠ k := by
        intro heq
        rw [heq, hk] at hl
        contradiction
      dsimp only
      rw [Function.update_of_ne hlk]
      exact hl
    all_goals exact hl

theorem exists_done {k : Nat} (hready : s.ready (.await i k) = true)
    (hcancel : (s.processes i).mustCancel = false)
    : ∃ task result, (s.processes i).futures k = .done task result := by
  simp only [World.ready, hcancel, Bool.false_or] at hready
  cases hk : (s.processes i).futures k with
  | done task result => exact ⟨task, result, rfl⟩
  | _ =>
    rw [hk] at hready
    contradiction

variable [DecidableEq ι] {c : Call ι} {fate : Fate}

theorem Ok.loopStep (h : Ok s i (s.processes i) stages loop) (hallows : LoopAllows i loop c)
    (hready : s.ready c = true)
    : Ok (World.exec c fate s).2 i ((World.exec c fate s).2.processes i) stages
        (loop.next c (World.exec c fate s).1) := by
  have hloop (loop' : LoopStage) (hprocess : ProcessOk (s.processes i) loop')
      : Ok s i (s.processes i) stages loop' := ⟨hprocess, h.stage, h.owned, h.locks, h.kept⟩
  cases hallows with
  | ask =>
    simp only [World.exec]
    apply Ok.of_modify
    exact h.submit .ask
  | tick htask =>
    simp only [World.exec]
    apply Ok.of_modify
    exact h.submit (.tick htask)
  | release =>
    simp only [World.exec]
    apply Ok.of_modify
    exact h.submit .release
  | @await task k =>
    simp only [World.exec, World.await]
    cases hcancel : (s.processes i).mustCancel with
    | true =>
      rw [if_pos rfl]
      dsimp only
      apply Ok.of_modify
      exact h.interruptAwait
    | false =>
      obtain ⟨task', result, hk⟩ := exists_done hready hcancel
      rw [if_neg Bool.false_ne_true, hk]
      exact hloop _ (h.process.awaited hk i)
  | @awaitRelease k =>
    have hcancel : (s.processes i).mustCancel = false := by
      unfold Process.mustCancel
      cases hinterrupted : (s.processes i).interrupted with
      | none => exact absurd hinterrupted h.process.loop.left
      | some _ => simp
    obtain ⟨task', result, hk⟩ := exists_done hready hcancel
    simp only [World.exec, World.await]
    rw [hcancel, if_neg Bool.false_ne_true, hk]
    exact hloop _ (h.process.awaitedRelease hk)
  | sleep =>
    simp only [World.exec, World.sleep]
    cases hcancel : (s.processes i).mustCancel with
    | true =>
      rw [if_pos rfl]
      dsimp only
      apply Ok.of_modify
      exact h.interrupt h.process.interruptSleep h.process.loop.left (Option.some_ne_none _) rfl rfl
        (fun _ _ hl => hl)
    | false =>
      rw [if_neg Bool.false_ne_true]
      exact h

theorem loop_respects (hallows : LoopAllows i loop c) (hji : j ≠ i)
    : Respects j s (World.exec c fate s).2 ∧ (World.exec c fate s).2.processes j = s.processes j := by
  have hawait : ∀ k, Respects j s (s.await i k).2 ∧ (s.await i k).2.processes j = s.processes j := by
    intro k
    unfold World.await
    split
    . dsimp only
      exact Respects.modify hji
    . split <;> exact ⟨.refl j s, rfl⟩
  cases hallows with
  | ask | tick | release =>
    simp only [World.exec]
    exact Respects.modify hji
  | await | awaitRelease => exact hawait _
  | sleep =>
    simp only [World.exec, World.sleep]
    split
    . dsimp only
      exact Respects.modify hji
    . exact ⟨.refl j s, rfl⟩

end loops

section protocol

variable {ι : Type}

def Fresh (s : World ι) : Prop :=
  ∀ conn, s.next ≤ conn → s.owner conn = none

theorem Fresh.openSession {s : World ι} (h : Fresh s) (i : ι) (known : Bool)
    : Fresh (s.openSession i known) := by
  intro conn hconn
  have hne : conn ≠ s.next := Nat.ne_of_gt hconn
  simp only [World.openSession, Function.update_of_ne hne]
  exact h conn (Nat.le_of_succ_le hconn)

theorem Ok.other {j : ι} {s s' : World ι} {stages : Nat → Stage} {loop : LoopStage}
    (h : Ok s j (s.processes j) stages loop)
    (hrespects : Respects j s s' ∧ s'.processes j = s.processes j)
    : Ok s' j (s'.processes j) stages loop := by
  rw [hrespects.right]
  exact h.respects hrespects.left

structure Inv (s : World ι) (notes : Thread ι → Note) : Prop where
  fresh : Fresh s
  ok : ∀ i, Ok s i (s.processes i) (fun k => (notes (.worker i k)).stage) (notes (.loop i)).loop

theorem inv_init : Inv ({} : World ι) (fun _ => {}) := by
  refine ⟨fun _ _ => rfl, ?_⟩
  intro i
  refine ⟨⟨fun _ _ => rfl, ⟨rfl, fun _ => rfl⟩, ?_, fun _ _ _ => Future.noConfusion, rfl⟩,
    fun _ => trivial, ?_, ?_, ?_⟩
  . rintro _ k (h | h | ⟨_, h⟩) <;> contradiction
  all_goals
    intro _ h
    contradiction

variable [DecidableEq ι] {s : World ι} {notes : Thread ι → Note} {c : Call ι} {fate : Fate}

theorem Fresh.exec (h : Fresh s) (c : Call ι) (fate : Fate) : Fresh (World.exec c fate s).2 := by
  cases c with
  | connect i =>
    cases fate with
    | works => exact h.openSession i true
    | fails _ => exact h
    | failsLate _ => exact h.openSession i false
  | selectOne conn => exact of_statement Fresh h h
  | tryAdvisoryLock conn =>
    apply of_statement Fresh h
    unfold World.takeLock
    split <;> exact h
  | advisoryUnlock conn => exact of_statement Fresh h h
  | close conn => cases fate <;> exact h
  | await i k =>
    simp only [World.exec, World.await]
    split
    . exact h
    . split <;> exact h
  | sleep | start | finish =>
    simp only [World.exec, World.sleep, World.start, World.finish]
    split <;> exact h
  | _ => exact h

theorem Inv.step {t : Thread ι} (h : Inv s notes) (hguard : guard t (notes t) c)
    (hready : s.ready c = true)
    : Inv (World.exec c fate s).2
        (Function.update notes t (watched.note c fate s (notes t))) := by
  refine ⟨h.fresh.exec c fate, ?_⟩
  intro j
  have hj := h.ok j
  cases t with
  | loop i =>
    have hne : ∀ k, Thread.worker j k ≠ .loop i := by simp
    simp only [Function.update_of_ne (hne _)]
    by_cases hji : j = i
    . subst hji
      rw [Function.update_self]
      exact hj.loopStep hguard hready
    . rw [Function.update_of_ne (fun heq => hji (Thread.loop.inj heq))]
      exact hj.other (loop_respects hguard hji)
  | worker i k =>
    rw [Function.update_of_ne (a := Thread.loop j) (by simp)]
    by_cases hji : j = i
    . subst hji
      have hstages : (fun l => (Function.update notes (.worker j k)
          (watched.note c fate s (notes (.worker j k))) (.worker j l)).stage)
            = Function.update (fun l => (notes (.worker j l)).stage) k
                ((notes (.worker j k)).stage.next c (World.exec c fate s).1) := by
        funext l
        by_cases hlk : l = k
        . subst hlk
          rw [Function.update_self, Function.update_self]
          rfl
        . rw [Function.update_of_ne (fun heq => hlk (Thread.worker.inj heq).right),
            Function.update_of_ne hlk]
      rw [hstages]
      exact hj.worker hguard hready
    . simp only [Function.update_of_ne (a := Thread.worker j _)
        (fun heq => hji (Thread.worker.inj heq).left)]
      exact hj.other ((h.ok i).worker_respects hguard (h.fresh _ (Nat.le_refl _)) hji)
  | lifespan i =>
    have hworker : ∀ k, Thread.worker j k ≠ .lifespan i := by simp
    have hloop : Thread.loop j ≠ .lifespan i := by simp
    simp only [Function.update_of_ne (hworker _), Function.update_of_ne hloop]
    have hcall : c = .cancel i := hguard
    subst hcall
    by_cases hji : j = i
    . subst hji
      simp only [World.exec]
      apply Ok.of_modify
      exact hj.quiet hj.process.requestCancel rfl rfl rfl rfl
    . simp only [World.exec]
      exact hj.other (Respects.modify hji)
  | outside =>
    have hworker : ∀ k, Thread.worker j k ≠ .outside := by simp
    have hloop : Thread.loop j ≠ .outside := by simp
    simp only [Function.update_of_ne (hworker _), Function.update_of_ne hloop]
    obtain ⟨conn, rfl⟩ := hguard
    exact hj.other ⟨.endSession conn, rfl⟩

def protocol : Pool.Protocol (ι := Thread ι) (watched (ι := ι)) mayCall where
  inv := Inv
  met _ := True
  guard := guard
  hmet _ _ _ _ := trivial
  hstep _ _ _ _ _ hinv hguard hready := hinv.step hguard hready

abbrev ClusterPool (ι : Type) := Pool (signature ι) Cancelled Unit (World ι) Note (Thread ι)

def cluster (rounds : ι → Nat) (sessions : List Session)
    : ClusterPool ι where
  state := {}
  threads := Thread.code rounds sessions
  notes _ := {}

theorem cluster_holds (rounds : ι → Nat) (sessions : List Session)
    : protocol.Holds
        (fun t r n => ∀ i, t = .loop i → r = .error .cancelled → n.loop = .ended)
        (cluster rounds sessions) where
  inv := inv_init
  follows t := by
    cases t with
    | loop i =>
      apply wp_mono (wp_runClusterLoop (rounds i) rfl)
      intro r n hn _ _
      exact hn
    | worker i k =>
      apply wp_mono (wp_worker rfl)
      intro _ _ _ _ h
      contradiction
    | lifespan i =>
      apply wp_ask_last
      . rfl
      . intro _ _ h
        contradiction
    | outside =>
      apply wp_mono (wp_terminateAll sessions)
      intro _ _ _ _ h
      contradiction

def Reachable (pool : ClusterPool ι) : Prop :=
  ∃ rounds sessions, Pool.Reaches watched mayCall (cluster rounds sessions) pool

end protocol

section runs

def isCancelled {ι α : Type} (p : Code ι α) : Bool :=
  match p with
  | .raise .cancelled => true
  | .ret _ | .call _ _ => false

theorem eq_raise_of_isCancelled {ι α : Type} {p : Code ι α} (h : isCancelled p = true)
    : p = .raise .cancelled := by
  cases p with
  | ret _ => contradiction
  | call _ _ => contradiction
  | raise e => cases e; rfl

def leading (i : Bool) : List (Thread Bool × Fate) :=
  [(.loop i, .works)] ++ List.replicate 10 (.worker i 0, .works) ++ [(.loop i, .works), (.loop i, .works),
    (.worker i 1, .works)]

def stoppingTick (i : Bool) : List (Thread Bool × Fate) :=
  [(.lifespan i, .works), (.loop i, .works), (.loop i, .works)]
    ++ List.replicate 9 (.worker i 2, .works) ++ [(.loop i, .works)]

theorem exists_overlap_at_shutdown
    : ∃ pool, Pool.Reaches watched mayCall (cluster (fun _ : Bool => 1) []) pool
        ∧ ((pool.state.processes false).futures 1 = .running .clusterTick
          ∧ (pool.state.processes true).futures 1 = .running .clusterTick
          ∧ (pool.state.processes true).connection = some 1 ∧ pool.state.live 1 = true) := by
  apply Pool.exists_reaches_of_play _ (leading false ++ stoppingTick false ++ leading true)
  decide +kernel

theorem exists_release_in_tick
    : ∃ pool, Pool.Reaches watched mayCall (cluster (fun _ : Bool => 1) []) pool
        ∧ (isCancelled (pool.threads (.loop false)) = true
          ∧ (pool.state.processes false).interrupted = some (some 1)
          ∧ (pool.state.processes false).futures 1 = .running .clusterTick
          ∧ pool.state.owner 0 = some false) := by
  apply Pool.exists_reaches_of_play _ (leading false ++ stoppingTick false)
  decide +kernel

theorem exists_leader
    : ∃ pool, Pool.Reaches watched mayCall (cluster (fun _ : Bool => 1) []) pool
        ∧ ((pool.state.processes false).guard = none ∧ pool.state.owner 0 = some false
          ∧ pool.state.opened 0 = true
          ∧ (pool.state.processes false).futures 1 = .running .clusterTick) := by
  apply Pool.exists_reaches_of_play _ (leading false)
  decide +kernel

theorem exists_outage
    : ∃ pool, Pool.Reaches watched mayCall (cluster (fun _ : Bool => 1) []) pool
        ∧ (pool.state.processes false).log = [.unreachable "refused"] := by
  apply Pool.exists_reaches_of_play _
    ([(.loop false, .works)] ++ List.replicate 3 (.worker false 0, .works)
      ++ [(.worker false 0, .fails "refused"), (.worker false 0, .works)])
  decide +kernel

end runs

section results

variable {ι : Type} [DecidableEq ι] {i j : ι}
variable {pool : ClusterPool ι}

def Process.Ticks (p : Process) : Prop :=
  ∃ k task, p.futures k = .running task ∧ task.isTick = true

theorem Reachable.holds (h : Reachable pool)
    : protocol.Holds (fun t r n => ∀ i, t = .loop i → r = .error .cancelled → n.loop = .ended) pool := by
  obtain ⟨rounds, sessions, hreaches⟩ := h
  exact (cluster_holds rounds sessions).reaches hreaches

theorem ProcessOk.connection_of_ticks {p : Process} {loop : LoopStage} (h : ProcessOk p loop)
    (hticks : p.Ticks) (hnone : p.interrupted = none) : ∃ conn, p.connection = some conn := by
  obtain ⟨k, task, hk, htick⟩ := hticks
  have hactive := isActive_of_running hk
  rw [← Option.ne_none_iff_exists']
  have hloop := h.loop
  cases loop with
  | ready =>
    rw [hloop.right k] at hactive
    contradiction
  | led => exact hloop.right.right
  | waiting task' l =>
    obtain ⟨_, hactives, hof, hconnection, _⟩ := hloop
    rw [← hactives k hactive, hk] at hof
    rw [← hof.eq_of_running] at hconnection
    exact hconnection htick
  | stopping => exact absurd hnone hloop.left
  | releasing l => exact absurd hnone hloop.left
  | ended => exact absurd hnone hloop.left

theorem ProcessOk.tick_eq {p : Process} {loop : LoopStage} (h : ProcessOk p loop) {k l : Nat}
    {task task' : Task} (hk : p.futures k = .running task) (hl : p.futures l = .running task')
    (htick : task.isTick = true) (htick' : task'.isTick = true) : k = l := by
  have hkactive := isActive_of_running hk
  have hlactive := isActive_of_running hl
  have heq (hk : p.interrupted = some (some k)) (hl : p.interrupted = some (some l)) : k = l :=
    Option.some.inj (Option.some.inj (hk.symm.trans hl))
  by_cases hnone : p.interrupted = none
  . exact h.active_unique hnone hkactive hlactive
  . have hloop := h.loop
    cases loop with
    | ready => exact absurd hloop.left hnone
    | led => exact absurd hloop.left hnone
    | waiting task' l => exact absurd hloop.left hnone
    | stopping => exact heq (hloop.right k hkactive) (hloop.right l hlactive)
    | releasing m =>
      obtain ⟨_, hactives, hof⟩ := hloop
      have hne : ∀ {k task}, p.futures k = .running task → task.isTick = true → k ≠ m := by
        intro k task hk htick hkm
        rw [← hkm, hk] at hof
        rw [hof.eq_of_running] at htick
        contradiction
      exact heq ((hactives k hkactive).resolve_left (hne hk htick))
        ((hactives l hlactive).resolve_left (hne hl htick'))
    | ended => exact heq (hloop.right.left k hkactive) (hloop.right.left l hlactive)

theorem ticks_overlap (hreachable : Reachable pool) (hij : i ≠ j)
    (hi : (pool.state.processes i).Ticks) (hj : (pool.state.processes j).Ticks)
    : ∃ p, (p = i ∨ p = j)
        ∧ ((pool.state.processes p).interrupted ≠ none
          ∨ ∃ conn, (pool.state.processes p).connection = some conn ∧ pool.state.live conn = false) := by
  have hinv : Inv pool.state pool.notes := hreachable.holds.inv
  by_cases hi' : (pool.state.processes i).interrupted = none
  . by_cases hj' : (pool.state.processes j).interrupted = none
    . obtain ⟨conn, hconn⟩ := (hinv.ok i).process.connection_of_ticks hi hi'
      obtain ⟨conn', hconn'⟩ := (hinv.ok j).process.connection_of_ticks hj hj'
      cases hlive : pool.state.live conn with
      | false => exact ⟨i, .inl rfl, .inr ⟨conn, hconn, hlive⟩⟩
      | true =>
        cases hlive' : pool.state.live conn' with
        | false => exact ⟨j, .inr rfl, .inr ⟨conn', hconn', hlive'⟩⟩
        | true =>
          -- both would hold the lock
          have hlock := (hinv.ok i).locks conn hconn hlive
          have hlock' := (hinv.ok j).locks conn' hconn' hlive'
          have heq : conn = conn' := Option.some.inj (hlock.symm.trans hlock')
          have howner := (hinv.ok i).owned conn hconn
          have howner' := (hinv.ok j).owned conn' hconn'
          rw [heq, howner'] at howner
          exact absurd (Option.some.inj howner).symm hij
    . exact ⟨j, .inr rfl, .inl hj'⟩
  . exact ⟨i, .inl rfl, .inl hi'⟩

theorem ticks_overlap_at_shutdown
    : ∃ pool : ClusterPool Bool,
        (Reachable pool ∧ (pool.state.processes false).Ticks ∧ (pool.state.processes true).Ticks)
          ∧ ∃ p, (p = false ∨ p = true)
            ∧ ((pool.state.processes p).interrupted ≠ none
              ∨ ∃ conn, (pool.state.processes p).connection = some conn
                ∧ pool.state.live conn = false) := by
  obtain ⟨pool, hreaches, hfalse, htrue, _⟩ := exists_overlap_at_shutdown
  have hreachable : Reachable pool := ⟨_, _, hreaches⟩
  have hticks : (pool.state.processes false).Ticks := ⟨1, _, hfalse, rfl⟩
  have hticks' : (pool.state.processes true).Ticks := ⟨1, _, htrue, rfl⟩
  exact ⟨pool, ⟨hreachable, hticks, hticks'⟩,
    ticks_overlap hreachable Bool.false_ne_true hticks hticks'⟩

theorem tick_unique (hreachable : Reachable pool) {k l : Nat} {task task' : Task}
    (hk : (pool.state.processes i).futures k = .running task) (htick : task.isTick = true)
    (hl : (pool.state.processes i).futures l = .running task') (htick' : task'.isTick = true)
    : k = l := by
  have hinv : Inv pool.state pool.notes := hreachable.holds.inv
  exact (hinv.ok i).process.tick_eq hk hl htick htick'

theorem tick_unique_of_leader
    : ∃ pool : ClusterPool Bool,
        (Reachable pool ∧ (pool.state.processes false).futures 1 = .running .clusterTick)
          ∧ ∀ l task, (pool.state.processes false).futures l = .running task → task.isTick → 1 = l := by
  obtain ⟨pool, hreaches, _, _, _, hticks⟩ := exists_leader
  have hreachable : Reachable pool := ⟨_, _, hreaches⟩
  exact ⟨pool, ⟨hreachable, hticks⟩, fun _ _ hl => tick_unique hreachable hticks rfl hl⟩

theorem no_connection_leaks (hreachable : Reachable pool)
    (hguard : (pool.state.processes i).guard = none) {conn : Session}
    (howner : pool.state.owner conn = some i) (hopened : pool.state.opened conn = true)
    : (pool.state.processes i).connection = some conn := by
  have hinv : Inv pool.state pool.notes := hreachable.holds.inv
  rcases (hinv.ok i).kept conn howner hopened with hconn | ⟨k, hk⟩
  . exact hconn
  . have hinside : (pool.notes (.worker i k)).stage.inside = true := by
      cases hst : (pool.notes (.worker i k)).stage <;> rw [hst] at hk <;> first | rfl | contradiction
    have hsome := ((hinv.ok i).stage k).guard hinside
    rw [hguard] at hsome
    contradiction

theorem no_connection_leaks_leader
    : ∃ pool : ClusterPool Bool,
        (Reachable pool ∧ (pool.state.processes false).guard = none ∧ pool.state.owner 0 = some false
          ∧ pool.state.opened 0 = true)
          ∧ (pool.state.processes false).connection = some 0 := by
  obtain ⟨pool, hreaches, hguard, howner, hopened, _⟩ := exists_leader
  have hreachable : Reachable pool := ⟨_, _, hreaches⟩
  exact ⟨pool, ⟨hreachable, hguard, howner, hopened⟩,
    no_connection_leaks hreachable hguard howner hopened⟩

theorem leadership_handed_over (hreachable : Reachable pool)
    (hended : pool.threads (.loop i) = .raise .cancelled)
    (hasking : ¬(pool.state.processes i).InterruptedAsking)
    : (pool.state.processes i).connection = none := by
  have hholds := hreachable.holds
  have hinv : Inv pool.state pool.notes := hholds.inv
  have hloop := hholds.error hended i rfl rfl
  have hprocess := (hinv.ok i).process
  rw [hloop] at hprocess
  obtain ⟨_, _, k, result, hk⟩ := hprocess.loop
  exact hprocess.released hasking k result hk

theorem leadership_handed_over_in_tick
    : ∃ pool : ClusterPool Bool,
        (Reachable pool ∧ pool.threads (.loop false) = .raise .cancelled
          ∧ ¬(pool.state.processes false).InterruptedAsking)
          ∧ (pool.state.processes false).connection = none := by
  obtain ⟨pool, hreaches, hcancelled, hinterrupted, hfuture, _⟩ := exists_release_in_tick
  have hreachable : Reachable pool := ⟨_, _, hreaches⟩
  have hended := eq_raise_of_isCancelled hcancelled
  have hasking : ¬(pool.state.processes false).InterruptedAsking := by
    rintro ⟨k, hk, hof⟩
    rw [hinterrupted] at hk
    rw [← Option.some.inj (Option.some.inj hk), hfuture] at hof
    exact absurd hof.eq_of_running (by decide)
  exact ⟨pool, ⟨hreachable, hended, hasking⟩, leadership_handed_over hreachable hended hasking⟩

theorem outages_alternate (hreachable : Reachable pool) (i : ι)
    : (pool.state.processes i).log.foldlM Line.outage false
        = some (pool.state.processes i).unreachable := by
  have hinv : Inv pool.state pool.notes := hreachable.holds.inv
  exact (hinv.ok i).process.outages

theorem outages_alternate_refused
    : ∃ pool : ClusterPool Bool,
        (Reachable pool ∧ (pool.state.processes false).log = [.unreachable "refused"])
          ∧ (pool.state.processes false).log.foldlM Line.outage false
            = some (pool.state.processes false).unreachable := by
  obtain ⟨pool, hreaches, hlog⟩ := exists_outage
  have hreachable : Reachable pool := ⟨_, _, hreaches⟩
  exact ⟨pool, ⟨hreachable, hlog⟩, outages_alternate hreachable false⟩

end results

end Leadership

end AetherGrid
