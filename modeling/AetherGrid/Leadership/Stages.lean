import AetherGrid.Leadership.Election

/-!
This module contains the stages the threads of the election go through.
-/

namespace AetherGrid

namespace Leadership

open Prog

inductive Stage where
  | waiting
  | started (task : Task)
  | entered (task : Task)
  | found (task : Task) (conn : Session)
  | shut (conn : Session)
  | clear (task : Task)
  | opened (conn : Session)
  | locked (conn : Session)
  | dropped (conn : Session)
  | leads
  | left (task : Task) (result : Bool)
  | finished

namespace Stage

variable {ι : Type}

def task (st : Stage) : Option Task :=
  match st with
  | .waiting | .finished => none
  | .started task | .entered task | .found task _ | .clear task | .left task _ => some task
  | .shut _ | .opened _ | .locked _ | .leads => some .tryAcquire
  | .dropped _ => some .release

def inside (st : Stage) : Bool :=
  match st with
  | .waiting | .started _ | .left _ _ | .finished => false
  | _ => true

-- a session that is neither `_connection` nor closed yet
def hand (st : Stage) : Option Session :=
  match st with
  | .opened conn | .locked conn | .dropped conn => some conn
  | _ => none

def next (st : Stage) (c : Call ι) (a : c.Answer) : Stage :=
  match c, a with
  | .start _ _, some task => .started task
  | .enter _ _, _ =>
    match st with
    | .started task => .entered task
    | st => st
  | .connection _, some conn =>
    match st with
    | .entered task => .found task conn
    | st => st
  | .connection _, none =>
    match st with
    | .entered task => .clear task
    | st => st
  | .selectOne _, .ok _ => .leads
  | .close _, _ =>
    match st with
    | .found _ conn => .shut conn
    | .opened _ => .clear .tryAcquire
    | .dropped _ => .clear .release
    | st => st
  | .setConnection _ _, _ =>
    match st with
    | .found _ conn => .dropped conn
    | .shut _ => .clear .tryAcquire
    | .locked _ => .leads
    | st => st
  | .connect _, .ok conn => .opened conn
  | .tryAdvisoryLock conn, .ok true => .locked conn
  | .leave _ _, _ =>
    match st with
    | .clear task => .left task false
    | .leads => .left .tryAcquire true
    | st => st
  | .finish _ _ _, _ => .finished
  | _, _ => st

end Stage

inductive LoopStage where
  | ready
  | led
  | waiting (task : Task) (k : Nat)
  | stopping
  | releasing (k : Nat)
  | ended

namespace LoopStage

variable {ι : Type}

def next (st : LoopStage) (c : Call ι) (a : c.Answer) : LoopStage :=
  match c, a with
  | .submit _ task, k =>
    match st with
    | .stopping => .releasing k
    | _ => .waiting task k
  | .await _ _, none =>
    match st with
    | .releasing _ => .ended
    | _ => .stopping
  | .await _ _, some result =>
    match st with
    | .releasing _ => .ended
    | .waiting .tryAcquire _ => if result then .led else .ready
    | .waiting .clusterTick _ => .led
    | .waiting _ _ => .ready
    | st => st
  | .sleep _, none => .stopping
  | _, _ => st

end LoopStage

def Line.isOutage (line : Line) : Bool :=
  match line with
  | .unreachable _ | .reachable => true
  | .leads | .lost | .released => false

inductive Allows {ι : Type} (i : ι) (k : Nat) : Stage → Call ι → Prop where
  | start : Allows i k .waiting (.start i k)
  | enter {task : Task} (htask : task.isTick = false) : Allows i k (.started task) (.enter i k)
  | finishTick {task : Task} (htask : task.isTick = true) (result : Bool)
    : Allows i k (.started task) (.finish i k result)
  | connection {task : Task} : Allows i k (.entered task) (.connection i)
  | selectOne {conn : Session} : Allows i k (.found .tryAcquire conn) (.selectOne conn)
  | closeFound {conn : Session} : Allows i k (.found .tryAcquire conn) (.close conn)
  | drop {conn : Session} : Allows i k (.found .release conn) (.setConnection i none)
  | forget {conn : Session} : Allows i k (.shut conn) (.setConnection i none)
  | connect : Allows i k (.clear .tryAcquire) (.connect i)
  | tryAdvisoryLock {conn : Session} : Allows i k (.opened conn) (.tryAdvisoryLock conn)
  | closeOpened {conn : Session} : Allows i k (.opened conn) (.close conn)
  | keep {conn : Session} : Allows i k (.locked conn) (.setConnection i (some conn))
  | advisoryUnlock {conn : Session} : Allows i k (.dropped conn) (.advisoryUnlock conn)
  | closeDropped {conn : Session} : Allows i k (.dropped conn) (.close conn)
  | noteUnreachable {st : Stage} {error : String} (hst : st.inside = true)
    : Allows i k st (.noteUnreachable i error)
  | noteReachable {st : Stage} (hst : st.inside = true) : Allows i k st (.noteReachable i)
  | log {st : Stage} {line : Line} (hst : st.inside = true) (hline : line.isOutage = false)
    : Allows i k st (.log i line)
  | leaveClear {task : Task} : Allows i k (.clear task) (.leave i k)
  | leaveLeads : Allows i k .leads (.leave i k)
  | finish {task : Task} {result : Bool} : Allows i k (.left task result) (.finish i k result)

inductive LoopAllows {ι : Type} (i : ι) : LoopStage → Call ι → Prop where
  | ask : LoopAllows i .ready (.submit i .tryAcquire)
  | tick {task : Task} (htask : task.isTick = true) : LoopAllows i .led (.submit i task)
  | await {task : Task} {k : Nat} : LoopAllows i (.waiting task k) (.await i k)
  | sleep : LoopAllows i .ready (.sleep i)
  | release : LoopAllows i .stopping (.submit i .release)
  | awaitRelease {k : Nat} : LoopAllows i (.releasing k) (.await i k)

structure Note where
  stage : Stage := .waiting
  loop : LoopStage := .ready

section machine

variable {ι : Type} [DecidableEq ι]

def watched : Watched (signature ι) (World ι) Fate Note where
  exec := World.exec
  note c fate s n :=
    { stage := n.stage.next c (World.exec c fate s).1
      loop := n.loop.next c (World.exec c fate s).1 }

def mayCall (s : World ι) (_ : Thread ι → Note) (_ : Thread ι) (c : Call ι) : Prop :=
  s.ready c = true

instance : ∀ (s : World ι) (notes : Thread ι → Note) (t : Thread ι) (c : Call ι),
    Decidable (mayCall s notes t c) :=
  fun s _ _ c => inferInstanceAs (Decidable (s.ready c = true))

def guard (t : Thread ι) (n : Note) (c : Call ι) : Prop :=
  match t with
  | .loop i => LoopAllows i n.loop c
  | .worker i k => Allows i k n.stage c
  | .lifespan i => c = .cancel i
  | .outside => ∃ conn, c = .terminate conn

end machine

section programs

variable {ι α : Type} [DecidableEq ι] {i : ι} {k : Nat} {conn : Session}
variable {G : Note → Call ι → Prop} {n : Note}

theorem wp_ask {c : Call ι} {f : c.Answer → Code ι α} {Q : Except Cancelled α → Note → Prop}
    (hguard : G n c)
    (h : ∀ a, wp (watched (ι := ι)).view (fun _ => True) G (f a) Q
      { stage := n.stage.next c a, loop := n.loop.next c a })
    : wp (watched (ι := ι)).view (fun _ => True) G (ask c >>= f) Q n := by
  apply Watched.wp_view_perform_bind hguard
  rintro s x _ r _ rfl rfl
  exact h _

theorem wp_ask_last {c : Call ι} {Q : Except Cancelled c.Answer → Note → Prop} (hguard : G n c)
    (h : ∀ a, Q (.ok a) { stage := n.stage.next c a, loop := n.loop.next c a })
    : wp (watched (ι := ι)).view (fun _ => True) G (ask c) Q n :=
  ⟨hguard, fun _ _ => h _⟩

def Stage.closing (task : Task) (leads : Bool) : Stage :=
  if leads then .leads else .clear task

abbrev workerWp (i : ι) (k : Nat) (p : Code ι α) (Q : Except Cancelled α → Note → Prop) (n : Note)
    : Prop :=
  wp (watched (ι := ι)).view (fun _ => True) (guard (.worker i k)) p Q n

theorem wp_takeLock (Q : Except Cancelled Bool → Note → Prop)
    (h : ∀ leads n', n'.stage = .closing .tryAcquire leads → Q (.ok leads) n')
    (hstage : n.stage = .clear .tryAcquire) : workerWp i k (takeLock i) Q n := by
  obtain ⟨stage, loop⟩ := n
  subst hstage
  unfold takeLock
  apply wp_ask .connect
  intro answer
  cases answer with
  | error error =>
    apply wp_ask (.noteUnreachable rfl)
    intro _
    exact h false _ rfl
  | ok connection =>
    apply wp_ask .tryAdvisoryLock
    intro answer
    cases answer with
    | error error =>
      apply wp_ask .closeOpened
      intro _
      apply wp_ask (.noteUnreachable rfl)
      intro _
      exact h false _ rfl
    | ok row =>
      cases row with
      | false =>
        apply wp_ask (.noteReachable rfl)
        intro _
        apply wp_ask .closeOpened
        intro _
        exact h false _ rfl
      | true =>
        apply wp_ask (.noteReachable rfl)
        intro _
        apply wp_ask .keep
        intro _
        apply wp_ask (.log rfl rfl)
        intro _
        exact h true _ rfl

theorem wp_tryAcquireLocked (Q : Except Cancelled Bool → Note → Prop)
    (h : ∀ leads n', n'.stage = .closing .tryAcquire leads → Q (.ok leads) n')
    (hstage : n.stage = .entered .tryAcquire) : workerWp i k (tryAcquireLocked i) Q n := by
  obtain ⟨stage, loop⟩ := n
  subst hstage
  unfold tryAcquireLocked
  apply wp_ask .connection
  intro answer
  cases answer with
  | none => exact wp_takeLock Q h rfl
  | some connection =>
    dsimp only
    rw [wp_bind]
    unfold stillConnected
    apply wp_ask .selectOne
    intro answer
    cases answer with
    | ok _ => exact h true _ rfl
    | error _ =>
      rw [wp_pure]
      dsimp only
      rw [if_neg Bool.false_ne_true]
      apply wp_ask .closeFound
      intro _
      apply wp_ask .forget
      intro _
      apply wp_ask (.log rfl rfl)
      intro _
      exact wp_takeLock Q h rfl

theorem wp_releaseLocked (Q : Except Cancelled Unit → Note → Prop)
    (h : ∀ n', n'.stage = .clear .release → Q (.ok ()) n')
    (hstage : n.stage = .entered .release) : workerWp i k (releaseLocked i) Q n := by
  obtain ⟨stage, loop⟩ := n
  subst hstage
  unfold releaseLocked
  apply wp_ask .connection
  intro answer
  cases answer with
  | none => exact h _ rfl
  | some connection =>
    apply wp_ask .drop
    intro _
    apply wp_ask .advisoryUnlock
    intro answer
    cases answer <;>
    . apply wp_ask .closeDropped
      intro _
      apply wp_ask_last (.log rfl rfl)
      intro _
      exact h _ rfl

theorem wp_worker (hstage : n.stage = .waiting)
    : workerWp i k (worker i k) (fun _ _ => True) n := by
  obtain ⟨stage, loop⟩ := n
  subst hstage
  unfold worker
  apply wp_ask .start
  intro answer
  cases answer with
  | none => trivial
  | some task =>
    cases task with
    | tryAcquire =>
      dsimp only
      rw [wp_bind]
      unfold tryAcquire
      apply wp_ask (.enter rfl)
      intro _
      rw [wp_bind]
      apply wp_tryAcquireLocked
      . intro leads n' hn'
        obtain ⟨stage, loop⟩ := n'
        subst hn'
        cases leads with
        | false =>
          apply wp_ask .leaveClear
          intro _
          exact wp_ask_last .finish (fun _ => trivial)
        | true =>
          apply wp_ask .leaveLeads
          intro _
          exact wp_ask_last .finish (fun _ => trivial)
      . rfl
    | clusterTick => exact wp_ask_last (.finishTick rfl false) (fun _ => trivial)
    | reconcile => exact wp_ask_last (.finishTick rfl false) (fun _ => trivial)
    | release =>
      dsimp only
      rw [wp_bind]
      unfold release
      apply wp_ask (.enter rfl)
      intro _
      rw [wp_bind]
      apply wp_releaseLocked
      . intro n' hn'
        obtain ⟨stage, loop⟩ := n'
        subst hn'
        apply wp_ask_last .leaveClear
        intro _
        exact wp_ask_last .finish (fun _ => trivial)
      . rfl

abbrev loopWp (i : ι) (p : Code ι α) (Q : Except Cancelled α → Note → Prop) (n : Note) : Prop :=
  wp (watched (ι := ι)).view (fun _ => True) (guard (.loop i)) p Q n

theorem wp_toThread {task : Task} {Q : Except Cancelled Bool → Note → Prop}
    (hsubmit : LoopAllows i n.loop (.submit i task))
    (hawait : ∀ k, LoopAllows i (n.loop.next (ι := ι) (.submit i task) k) (.await i k))
    (hcancelled : ∀ k n',
      n'.loop = (n.loop.next (ι := ι) (.submit i task) k).next (ι := ι) (.await i k) none →
      Q (.error .cancelled) n')
    (hok : ∀ k result n',
      n'.loop = (n.loop.next (ι := ι) (.submit i task) k).next (ι := ι) (.await i k) (some result) →
      Q (.ok result) n')
    : loopWp i (toThread i task) Q n := by
  unfold toThread
  apply wp_ask hsubmit
  intro k
  apply wp_ask (hawait k)
  intro answer
  cases answer with
  | none => exact hcancelled k _ rfl
  | some result => exact hok k result _ rfl

theorem wp_runClusterTick {Q : Except Cancelled Unit → Note → Prop}
    (hcancelled : ∀ n', n'.loop = .stopping → Q (.error .cancelled) n')
    (hok : ∀ n', n'.loop = .ready → Q (.ok ()) n') (hloop : n.loop = .led)
    : loopWp i (runClusterTick i) Q n := by
  unfold runClusterTick
  rw [loopWp, wp_bind]
  apply wp_toThread
  . rw [hloop]
    exact .tick rfl
  . intro k
    rw [hloop]
    exact .await
  . intro k n' hn'
    rw [hloop] at hn'
    exact hcancelled n' hn'
  intro k _ n' hn'
  rw [hloop] at hn'
  dsimp only
  rw [wp_bind]
  apply wp_toThread
  . rw [hn']
    exact .tick rfl
  . intro k
    rw [hn']
    exact .await
  . intro k n'' hn''
    rw [hn'] at hn''
    exact hcancelled n'' hn''
  . intro k _ n'' hn''
    rw [hn'] at hn''
    exact hok n'' hn''

theorem wp_runLeaderTick {Q : Except Cancelled Unit → Note → Prop}
    (hcancelled : ∀ n', n'.loop = .stopping → Q (.error .cancelled) n')
    (hok : ∀ n', n'.loop = .ready → Q (.ok ()) n') (hloop : n.loop = .ready)
    : loopWp i (runLeaderTick i) Q n := by
  unfold runLeaderTick
  rw [loopWp, wp_bind]
  apply wp_toThread
  . rw [hloop]
    exact .ask
  . intro k
    rw [hloop]
    exact .await
  . intro k n' hn'
    rw [hloop] at hn'
    exact hcancelled n' hn'
  . intro k leads n' hn'
    rw [hloop] at hn'
    cases leads with
    | false => exact hok n' hn'
    | true => exact wp_runClusterTick hcancelled hok hn'

theorem wp_clusterRounds {Q : Except Cancelled Unit → Note → Prop} (rounds : Nat)
    (hcancelled : ∀ n', n'.loop = .stopping → Q (.error .cancelled) n')
    (hok : ∀ n', Q (.ok ()) n') (hloop : n.loop = .ready)
    : loopWp i (clusterRounds i rounds) Q n := by
  induction rounds generalizing n with
  | zero => exact hok n
  | succ rounds ih =>
    unfold clusterRounds
    rw [loopWp, wp_bind]
    apply wp_runLeaderTick _ _ hloop
    . intro n' hn'
      exact hcancelled n' hn'
    . intro n' hn'
      dsimp only
      apply wp_ask
      . show LoopAllows i n'.loop _
        rw [hn']
        exact .sleep
      . intro answer
        cases answer with
        | none => exact hcancelled _ rfl
        | some _ => exact ih hn'

theorem wp_runClusterLoop (rounds : Nat) (hloop : n.loop = .ready)
    : loopWp i (runClusterLoop i rounds)
        (fun r n' => r = .error .cancelled → n'.loop = .ended) n := by
  unfold runClusterLoop
  rw [loopWp, wp_catching]
  apply wp_clusterRounds rounds _ _ hloop
  . intro n' hn'
    dsimp only
    rw [wp_bind]
    apply wp_toThread
    . rw [hn']
      exact .release
    . intro k
      rw [hn']
      exact .awaitRelease
    . intro k n'' hn'' _
      rw [hn'] at hn''
      exact hn''
    . intro k _ n'' hn'' _
      rw [hn'] at hn''
      exact hn''
  . intro n' h
    contradiction

theorem wp_terminateAll (sessions : List Session)
    : wp (watched (ι := ι)).view (fun _ => True) (guard .outside) (terminateAll sessions)
        (fun _ _ => True) n := by
  apply wp_forM (fun _ _ => True) trivial
  . intro conn _ _ _
    exact wp_ask_last ⟨conn, rfl⟩ (fun _ => trivial)
  . intro _ _
    trivial

end programs

end Leadership

end AetherGrid
