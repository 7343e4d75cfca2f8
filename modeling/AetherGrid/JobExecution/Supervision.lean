import AetherGrid.JobExecution.Host

/-!
This module contains what the owner of a job and its supervisor guarantee together, whatever the command
does and whichever of them is ended at any moment.
-/

namespace AetherGrid

namespace JobExecution

open Prog

inductive Stage where
  | fresh
  | armed
  | launched
  | failed
  | reported
  | waited (code : Int)
  | finished
  deriving DecidableEq

structure Note where
  started : Bool := false
  startInterrupted : Bool := false
  -- a SIGKILL was sent to the group, or there was no group left
  swept : Bool := false
  refused : Bool := false
  killInterrupted : Bool := false
  sawReport : Bool := false
  sawLease : Bool := false
  sawCancel : Bool := false
  codes : List Int := []
  stage : Stage := .fresh

def Note.after (n : Note) (c : Call) (a : Option c.Answer) : Note :=
  match c, a with
  | .startSupervised _, some (.ok _) => { n with started := true }
  | .startSupervised _, none => { n with startInterrupted := true }
  | .killpg .sigkill, some .refused => { n with refused := true }
  | .killpg .sigkill, some _ => { n with swept := true }
  | .killpg .sigkill, none => { n with killInterrupted := true }
  | .readStatus, some (.report _) => { n with sawReport := true }
  | .isSet .leaseLost, some true => { n with sawLease := true }
  | .isSet .cancel, some true => { n with sawCancel := true }
  | .communicate _, some (some (_, code)) => { n with codes := code :: n.codes }
  | .poll, some (some code) => { n with codes := code :: n.codes }
  | .startWatch, some _ => { n with stage := .armed }
  | .popenCommand _, some (.ok _) => { n with stage := .launched }
  | .popenCommand _, some (.error _) => { n with stage := .failed }
  | .report _, some _ => { n with stage := .reported }
  | .waitCommand, some code => { n with stage := .waited code }
  | .killSelf _, some _ => { n with stage := .finished }
  | .exit _, some _ => { n with stage := .finished }
  | _, _ => n

def watched : Watched signature Host Choice Note where
  exec := Host.perform
  note c x s n := n.after c (Host.perform c x s).1

def mayCall (s : Host) (_ : Thread → Note) (_ : Thread) (c : Call) : Prop :=
  s.ready c = true

instance : ∀ (s : Host) (notes : Thread → Note) (t : Thread) (c : Call),
    Decidable (mayCall s notes t c) :=
  fun s _ _ c => inferInstanceAs (Decidable (s.ready c = true))

inductive Allows : Stage → Call → Prop where
  | usage : Allows .fresh (.exit usageExitCode)
  | leadsGroup : Allows .fresh .leadsGroup
  | handleSigterm : Allows .fresh .handleSigterm
  | startWatch : Allows .fresh .startWatch
  | popenCommand {command : List String} : Allows .armed (.popenCommand command)
  | report {e : OSError} : Allows .failed (.report e)
  | exitReported : Allows .reported (.exit launchFailedExitCode)
  | closeStatusWrite : Allows .launched .closeStatusWrite
  | waitCommand : Allows .launched .waitCommand
  | exit {code : Int} : Allows (.waited code) (.exit code)
  | killSelf {code : Int} : Allows (.waited code) (.killSelf (-code))
  | exitFinished {code : Int} : Allows .finished (.exit code)

theorem Allows.caller {st : Stage} {c : Call} (h : Allows st c) : c.caller = .supervisor := by
  cases h <;> rfl

def guard (t : Thread) (n : Note) (c : Call) : Prop :=
  match t with
  | .owner =>
    c.caller = .owner
      ∧ (∀ command, c = .startSupervised command → n.started = false ∧ n.startInterrupted = false)
      ∧ ∀ sig, c = .killpg sig → n.started = true
  | .supervisor => Allows n.stage c
  | .watch => c.caller = .watch
  | .world => c.caller = .world

section rules

variable {α : Type} {G : Note → Call → Prop} {n : Note}

theorem wp_ask {c : Call} {Q : Except Failure c.Answer → Note → Prop} (hguard : G n c)
    (hinterrupt : Q (.error .interrupt) (n.after c none))
    (h : ∀ a, Q (.ok a) (n.after c (some a)))
    : wp watched.view (fun _ => True) G (ask c) Q n := by
  apply wp_request hguard
  rintro ⟨s, x⟩ _
  dsimp only [Watched.view, watched]
  cases (Host.perform c x s).1 with
  | none => exact hinterrupt
  | some a => exact h a

theorem wp_ask_bind {c : Call} {f : c.Answer → Code α} {Q : Except Failure α → Note → Prop}
    (hguard : G n c) (hinterrupt : Q (.error .interrupt) (n.after c none))
    (h : ∀ a, wp watched.view (fun _ => True) G (f a) Q (n.after c (some a)))
    : wp watched.view (fun _ => True) G (ask c >>= f) Q n := by
  rw [wp_bind]
  exact wp_ask hguard hinterrupt h

end rules

structure Note.Le (n n' : Note) : Prop where
  started : n.started = true → n'.started = true
  startInterrupted : n.startInterrupted = true → n'.startInterrupted = true
  swept : n.swept = true → n'.swept = true
  refused : n.refused = true → n'.refused = true
  killInterrupted : n.killInterrupted = true → n'.killInterrupted = true
  sawReport : n.sawReport = true → n'.sawReport = true
  sawLease : n.sawLease = true → n'.sawLease = true
  sawCancel : n.sawCancel = true → n'.sawCancel = true
  codes : n.codes ⊆ n'.codes

namespace Note

theorem Le.trans {n n' n'' : Note} (h : n.Le n') (h' : n'.Le n'') : n.Le n'' where
  started hn := h'.started (h.started hn)
  startInterrupted hn := h'.startInterrupted (h.startInterrupted hn)
  swept hn := h'.swept (h.swept hn)
  refused hn := h'.refused (h.refused hn)
  killInterrupted hn := h'.killInterrupted (h.killInterrupted hn)
  sawReport hn := h'.sawReport (h.sawReport hn)
  sawLease hn := h'.sawLease (h.sawLease hn)
  sawCancel hn := h'.sawCancel (h.sawCancel hn)
  codes _ hn := h'.codes (h.codes hn)

theorem le_after (n : Note) (c : Call) (a : Option c.Answer) : n.Le (n.after c a) := by
  unfold Note.after
  split <;>
    constructor <;>
      first | exact id | exact fun _ => rfl | exact List.subset_cons_self _ _ | exact List.Subset.refl _

def Swept (n : Note) : Prop :=
  n.swept = true ∨ n.refused = true ∨ n.killInterrupted = true

theorem Swept.mono {n n' : Note} (h : n.Swept) (hle : n.Le n') : n'.Swept := by
  rcases h with h | h | h
  . exact .inl (hle.swept h)
  . exact .inr (.inl (hle.refused h))
  . exact .inr (.inr (hle.killInterrupted h))

end Note

structure Faithful (result : Result) (n : Note) : Prop where
  leaseLost : result.leaseLost = true → n.sawLease = true
  cancelled : result.cancelled = true → n.sawCancel = true
  exitCode : ∀ code, result.exitCode = some code → code ∈ n.codes
  unstarted : result.exitCode = none → result.timedOut = false → result.cancelled = false →
    result.leaseLost = false → n.sawReport = true
  exclusive : (result.timedOut = true → result.cancelled = false ∧ result.leaseLost = false)
    ∧ (result.cancelled = true → result.leaseLost = false)

theorem Faithful.mono {result : Result} {n n' : Note} (h : Faithful result n) (hle : n.Le n')
    : Faithful result n' where
  leaseLost hr := hle.sawLease (h.leaseLost hr)
  cancelled hr := hle.sawCancel (h.cancelled hr)
  exitCode code hr := hle.codes (h.exitCode code hr)
  unstarted h1 h2 h3 h4 := hle.sawReport (h.unstarted h1 h2 h3 h4)
  exclusive := h.exclusive

section owner

variable {α : Type} {n : Note} {config : Config} {start deadline : Nat}

abbrev ownerWp (p : Code α) (Q : Except Failure α → Note → Prop) (n : Note) : Prop :=
  wp watched.view (fun _ => True) (guard .owner) p Q n

def Body (r : Except Failure Result) (n : Note) : Prop :=
  n.started = true ∧ ∀ result, r = .ok result → Faithful result n

theorem Body.error (e : Failure) (hstarted : n.started = true) : Body (.error e) n := by
  refine ⟨hstarted, ?_⟩
  intro _ h
  contradiction

theorem Body.ok {result : Result} (hstarted : n.started = true) (h : Faithful result n)
    : Body (.ok result) n := by
  refine ⟨hstarted, ?_⟩
  intro _ hresult
  rw [← Except.ok.inj hresult]
  exact h

-- an owner's call other than the one that starts the supervisor
def Call.inBody (c : Call) : Bool :=
  match c with
  | .startSupervised _ => false
  | c => decide (c.caller = .owner)

theorem guard_owner {c : Call} (hstarted : n.started = true) (hc : c.inBody = true)
    : guard .owner n c := by
  cases c <;> first | contradiction | exact ⟨rfl, fun _ => Call.noConfusion, fun _ _ => hstarted⟩

theorem wp_ask_body {c : Call} {f : c.Answer → Code Result} (hstarted : n.started = true)
    (hc : c.inBody = true)
    (h : ∀ a, (n.after c (some a)).started = true → n.Le (n.after c (some a)) →
      ownerWp (f a) Body (n.after c (some a)))
    : ownerWp (ask c >>= f) Body n := by
  apply wp_ask_bind (guard_owner hstarted hc)
  . exact .error _ ((n.le_after c none).started hstarted)
  . intro a
    have hle := n.le_after c (some a)
    exact h a (hle.started hstarted) hle

theorem wp_signalGroup {sig : Signal} {Q : Except Failure Unit → Note → Prop}
    (hstarted : n.started = true)
    (h : ∀ r n', n.Le n' → (sig = .sigkill → n'.Swept) → Q r n')
    : ownerWp (signalGroup sig) Q n := by
  unfold signalGroup
  apply wp_ask_bind (guard_owner hstarted rfl)
  . apply h _ _ (n.le_after _ _)
    rintro rfl
    exact .inr (.inr rfl)
  . intro a
    have hle := n.le_after (.killpg sig) (some a)
    cases a with
    | sent | noSuchProcess =>
      apply h _ _ hle
      rintro rfl
      exact .inl rfl
    | refused =>
      have hswept : sig = .sigkill → (n.after (.killpg sig) (some .refused)).Swept := by
        rintro rfl
        exact .inr (.inl rfl)
      exact wp_ask (guard_owner (hle.started hstarted) rfl) (h _ _ hle hswept)
        (fun _ => h _ _ hle hswept)

theorem wp_signalGroup_body {sig : Signal} {f : Unit → Code Result} (hstarted : n.started = true)
    (h : ∀ n', n.Le n' → ownerWp (f ()) Body n') : ownerWp (signalGroup sig >>= f) Body n := by
  rw [ownerWp, wp_bind]
  apply wp_signalGroup hstarted
  intro r n' hle _
  cases r with
  | ok _ => exact h n' hle
  | error e => exact .error e (hle.started hstarted)

theorem mem_codes_communicate (n : Note) (timeout : Nat) (collected : Option (Output × Int)) {code : Int}
    (hcode : collected.map (·.2) = some code)
    : code ∈ (n.after (.communicate timeout) (some collected)).codes := by
  cases collected with
  | none => contradiction
  | some pair =>
    rw [← Option.some.inj hcode]
    exact List.mem_cons_self

theorem wp_collectStopped {f : Option (Output × Int) → Code Result} (hstarted : n.started = true)
    (h : ∀ n' collected, n.Le n' →
      (∀ code, collected.map (·.2) = some code → code ∈ n'.codes) → ownerWp (f collected) Body n')
    : ownerWp (collectStopped config >>= f) Body n := by
  unfold collectStopped
  rw [ownerWp, wp_bind]
  apply wp_ask_bind (guard_owner hstarted rfl)
  . exact .error _ ((n.le_after _ _).started hstarted)
  intro collected
  have hle := n.le_after (.communicate config.terminationGracePeriod) (some collected)
  cases hcollected : collected with
  | some pair =>
    rw [hcollected] at hle
    apply h _ _ hle
    intro code
    exact mem_codes_communicate n _ _
  | none =>
    rw [hcollected] at hle
    dsimp only
    rw [wp_bind]
    apply wp_signalGroup (hle.started hstarted)
    intro r n' hle' _
    have hle' := hle.trans hle'
    cases r with
    | error e => exact .error e (hle'.started hstarted)
    | ok _ =>
      apply wp_ask (guard_owner (hle'.started hstarted) rfl)
      . exact .error _ ((n'.le_after _ _).started (hle'.started hstarted))
      . intro collected
        apply h _ _ (hle'.trans (n'.le_after _ _))
        intro code
        exact mem_codes_communicate n' _ _

theorem wp_terminateEarly {timedOut cancelled leaseLost : Bool} (hstarted : n.started = true)
    (hlease : leaseLost = true → n.sawLease = true) (hcancel : cancelled = true → n.sawCancel = true)
    (hsome : ¬(timedOut = false ∧ cancelled = false ∧ leaseLost = false))
    (hone : (timedOut = true → cancelled = false ∧ leaseLost = false)
      ∧ (cancelled = true → leaseLost = false))
    : ownerWp (terminateEarly config start timedOut cancelled leaseLost) Body n := by
  unfold terminateEarly
  apply wp_signalGroup_body hstarted
  intro n1 hle1
  apply wp_collectStopped (hle1.started hstarted)
  intro n2 collected hle2 hcodes
  have hle2 := hle1.trans hle2
  apply wp_ask_body (hle2.started hstarted) rfl
  intro _ hn3 hle3
  have hle3 := hle2.trans hle3
  apply Body.ok hn3
  refine ⟨?_, ?_, ?_, ?_, hone⟩
  . intro hl
    exact hle3.sawLease (hlease hl)
  . intro hc
    exact hle3.sawCancel (hcancel hc)
  . intro code hcode
    exact hcodes code hcode
  . intro _ h1 h2 h3
    exact absurd ⟨h1, h2, h3⟩ hsome

theorem faithful_of_code {result : Result} {code : Int} (hcode : code ∈ n.codes)
    (hexit : result.exitCode = some code) (htimed : result.timedOut = false)
    (hcancelled : result.cancelled = false) (hlost : result.leaseLost = false) : Faithful result n where
  leaseLost h := by
    rw [hlost] at h
    contradiction
  cancelled h := by
    rw [hcancelled] at h
    contradiction
  exitCode code' h := by
    rw [hexit] at h
    rw [← Option.some.inj h]
    exact hcode
  unstarted h := by
    rw [hexit] at h
    contradiction
  exclusive := by
    rw [htimed, hcancelled]
    exact ⟨Bool.noConfusion, Bool.noConfusion⟩

theorem wp_collectAfterSupervisorEnded {code : Int} (hstarted : n.started = true)
    (hcode : code ∈ n.codes) : ownerWp (collectAfterSupervisorEnded config start code) Body n := by
  unfold collectAfterSupervisorEnded
  apply wp_signalGroup_body hstarted
  intro n1 hle1
  apply wp_ask_body (hle1.started hstarted) rfl
  intro collected hn2 hle2
  apply wp_ask_body hn2 rfl
  intro _ hn3 hle3
  exact .ok hn3 (faithful_of_code (hle3.codes (hle2.codes (hle1.codes hcode))) rfl rfl rfl rfl)

theorem wp_couldNotStart (e : OSError) (hstarted : n.started = true) (hreport : n.sawReport = true)
    : ownerWp (couldNotStart e start) Body n := by
  unfold couldNotStart
  apply wp_ask_body hstarted rfl
  intro _ hn1 hle1
  apply wp_ask_body hn1 rfl
  intro _ hn2 hle2
  apply Body.ok hn2
  refine ⟨Bool.noConfusion, Bool.noConfusion, ?_, ?_, Bool.noConfusion, Bool.noConfusion⟩
  . intro _ hcode
    contradiction
  . intro _ _ _ _
    exact hle2.sawReport (hle1.sawReport hreport)

theorem wp_readLaunchFailure {until_ : Nat} {f : Launch → Code Result} (hstarted : n.started = true)
    (h : ∀ n' launch, n'.started = true → (∀ e, launch = .failed e → n'.sawReport = true) →
      ownerWp (f launch) Body n')
    : ownerWp (readLaunchFailure until_ >>= f) Body n := by
  unfold readLaunchFailure
  rw [ownerWp, wp_bind]
  apply wp_ask_bind (guard_owner hstarted rfl) (.error _ hstarted)
  intro _
  apply wp_ask_bind (guard_owner hstarted rfl) (.error _ hstarted)
  intro readable
  cases readable with
  | false =>
    exact h _ _ hstarted (fun _ => Launch.noConfusion)
  | true =>
    apply wp_ask_bind (guard_owner hstarted rfl) (.error _ hstarted)
    intro status
    cases status with
    | empty => exact h _ _ hstarted (fun _ => Launch.noConfusion)
    | report e => exact h _ _ hstarted (fun _ _ => rfl)
    | garbled =>
      apply wp_ask_bind (guard_owner hstarted rfl) (.error _ hstarted)
      intro _
      exact h _ _ hstarted (fun _ => Launch.noConfusion)

theorem wp_isSet {event : StopEvent} {f : Bool → Code Result} (hstarted : n.started = true)
    (h : ∀ n' set, n'.started = true → (set = true → event = .leaseLost → n'.sawLease = true) →
      (set = true → event = .cancel → n'.sawCancel = true) → ownerWp (f set) Body n')
    : ownerWp (isSet config event >>= f) Body n := by
  unfold isSet
  split
  . apply wp_ask_body hstarted rfl
    intro set hn1 _
    apply h _ _ hn1 <;>
    . intro hset hevent
      subst hset hevent
      rfl
  . exact h n false hstarted Bool.noConfusion Bool.noConfusion

theorem wp_waitLoop (rounds : Nat) (launchPending : Bool) (hstarted : n.started = true)
    : ownerWp (waitLoop config start deadline rounds launchPending) Body n := by
  induction rounds generalizing n launchPending with
  | zero => exact .error _ hstarted
  | succ rounds ih =>
    unfold waitLoop
    apply wp_ask_body hstarted rfl
    intro now hn1 _
    split
    . exact wp_terminateEarly hn1 Bool.noConfusion Bool.noConfusion (by decide) (by decide)
    apply wp_isSet hn1
    intro n2 lost hn2 hlost _
    split
    . next hset =>
      exact wp_terminateEarly hn2 (fun _ => hlost hset rfl) Bool.noConfusion (by decide) (by decide)
    apply wp_isSet hn2
    intro n3 cancelled hn3 _ hcancelled
    split
    . next hset =>
      exact wp_terminateEarly hn3 Bool.noConfusion (fun _ => hcancelled hset rfl) (by decide)
        (by decide)
    dsimp only
    split
    . apply wp_ask_body hn3 rfl
      intro _ hn4 _
      apply wp_readLaunchFailure hn4
      intro n5 launch hn5 hreport
      cases launch with
      | pending => exact ih true hn5
      | started => exact ih false hn5
      | failed e =>
        dsimp only
        split
        . exact wp_couldNotStart e hn5 (hreport e rfl)
        . exact .error _ hn5
    . apply wp_ask_body hn3 rfl
      intro collected hn4 _
      cases collected with
      | some pair =>
        obtain ⟨output, code⟩ := pair
        apply wp_ask_body hn4 rfl
        intro _ hn5 hle5
        exact .ok hn5 (faithful_of_code (hle5.codes List.mem_cons_self) rfl rfl rfl rfl)
      | none =>
        apply wp_ask_body hn4 rfl
        intro polled hn5 _
        cases polled with
        | none => exact ih false hn5
        | some code => exact wp_collectAfterSupervisorEnded hn5 List.mem_cons_self

theorem wp_tryFinally {p : Code α} {cleanup : Option Failure → Code Unit}
    {P Q : Except Failure α → Note → Prop} (hp : ownerWp p P n)
    (hunfinished : ∀ n', P (.error .unfinished) n' → Q (.error .unfinished) n')
    (hcleanup : ∀ r e n', P r n' → r ≠ .error .unfinished →
      ownerWp (cleanup e)
        (fun r' n'' =>
          match r' with
          | .ok _ => Q r n''
          | .error e => Q (.error e) n'') n')
    : ownerWp (tryFinally p cleanup) Q n := by
  apply wp_ensuring hp
  . intro e n' hskips
    rw [eq_of_beq hskips]
    exact hunfinished n'
  . intro r e n' hr hpassed
    have hfinished : r ≠ .error .unfinished := by
      rintro rfl
      exact absurd (hpassed _ rfl) (by decide)
    apply wp_mono (hcleanup r e n' hr hfinished)
    intro r' n'' hr'
    cases r' <;> exact hr'

def Over (r : Except Failure Result) (n : Note) : Prop :=
  Body r n ∧ (r ≠ .error .unfinished → n.Swept)

theorem over_of_le {r : Except Failure Result} {r' : Except Failure Unit} {n n' : Note}
    (h : Body r n) (hle : n.Le n') (hswept : n'.Swept)
    : match r' with
      | .ok _ => Over r n'
      | .error e => Over (.error e) n' := by
  have hstarted := hle.started h.left
  cases r' with
  | error e => exact ⟨.error e hstarted, fun _ => hswept⟩
  | ok _ =>
    refine ⟨⟨hstarted, ?_⟩, fun _ => hswept⟩
    intro result hresult
    exact (h.right result hresult).mono hle

theorem wp_supervising {body : Code Result} (hbody : ownerWp body Body n)
    : ownerWp (supervising body) Over n := by
  have hunfinished : ∀ n', Body (.error .unfinished) n' → Over (.error .unfinished) n' :=
    fun _ h => ⟨h, fun hne => absurd rfl hne⟩
  have hask : ∀ {c : Call} {n' : Note} {Q : Except Failure c.Answer → Note → Prop},
      n'.started = true → c.inBody = true → (∀ r n'', n'.Le n'' → Q r n'') → ownerWp (ask c) Q n' := by
    intro c n' Q hn' hc h
    exact wp_ask (guard_owner hn' hc) (h _ _ (n'.le_after c none))
      (fun a => h _ _ (n'.le_after c (some a)))
  unfold supervising
  apply wp_tryFinally (P := Over) _ (fun _ h => h)
  . -- `Popen.__exit__`
    intro r e n' hr hne
    unfold exitProcess
    split <;>
    . apply hask hr.left.left rfl
      intro r' n'' hle
      exact over_of_le hr.left hle ((hr.right hne).mono hle)
  apply wp_tryFinally (P := Over) _ (fun _ h => h)
  . intro r e n' hr hne
    unfold closeDescriptors
    rw [ownerWp, wp_bind]
    apply hask hr.left.left rfl
    intro r' n1 hle1
    have hswept := (hr.right hne).mono hle1
    cases r' with
    | error e => exact ⟨.error e (hle1.started hr.left.left), fun _ => hswept⟩
    | ok _ =>
      apply hask (hle1.started hr.left.left) rfl
      intro r'' n2 hle2
      exact over_of_le hr.left (hle1.trans hle2) (hswept.mono hle2)
  apply wp_tryFinally hbody hunfinished
  intro r e n' hr _
  apply wp_signalGroup hr.left
  intro r' n'' hle hswept
  exact over_of_le hr hle (hswept rfl)

def Ends (r : Except Failure Result) (n : Note) : Prop :=
  (r ≠ .error .unfinished → n.started = true → n.Swept) ∧ ∀ result, r = .ok result → Faithful result n

theorem wp_executeCommand (command : List String) (timeout rounds : Nat) (hstarted : n.started = false)
    (hinterrupted : n.startInterrupted = false)
    : ownerWp (executeCommand config command timeout rounds) Ends n := by
  have hends : ∀ (e : Failure) (n' : Note), n'.started = false → Ends (.error e) n' := by
    intro e n' hn'
    refine ⟨?_, ?_⟩
    . intro _ h
      rw [hn'] at h
      contradiction
    . intro _ h
      contradiction
  unfold executeCommand
  apply wp_ask_bind
  . exact ⟨rfl, fun _ => Call.noConfusion, fun _ => Call.noConfusion⟩
  . exact hends _ _ hstarted
  intro start
  apply wp_ask_bind
  . exact ⟨rfl, fun _ _ => ⟨hstarted, hinterrupted⟩, fun _ => Call.noConfusion⟩
  . exact hends _ _ hstarted
  intro answer
  cases answer with
  | error e => exact hends _ _ hstarted
  | ok _ =>
    apply wp_mono (wp_supervising (wp_waitLoop rounds true rfl))
    intro r n' hr
    exact ⟨fun hne _ => hr.right hne, hr.left.right⟩

end owner

section others

variable {n : Note}

theorem wp_endLike {code : Int} (hstage : n.stage = .waited code)
    : wp watched.view (fun _ => True) (guard .supervisor) (endLike code) (fun _ _ => True) n := by
  obtain ⟨_, _, _, _, _, _, _, _, _, stage⟩ := n
  subst hstage
  unfold endLike
  split
  . exact wp_ask .exit trivial (fun _ => trivial)
  . apply wp_ask_bind .killSelf trivial
    intro _
    exact wp_ask .exitFinished trivial (fun _ => trivial)

theorem wp_main (argv : List String) (hstage : n.stage = .fresh)
    : wp watched.view (fun _ => True) (guard .supervisor) (main argv) (fun _ _ => True) n := by
  obtain ⟨_, _, _, _, _, _, _, _, _, stage⟩ := n
  subst hstage
  unfold main
  split
  . exact wp_ask .usage trivial (fun _ => trivial)
  apply wp_ask_bind .leadsGroup trivial
  intro leads
  split
  . apply wp_ask_bind .handleSigterm trivial
    intro _
    apply wp_ask_bind .startWatch trivial
    intro _
    apply wp_ask_bind .popenCommand trivial
    intro answer
    cases answer with
    | error e =>
      apply wp_ask_bind .report trivial
      intro _
      exact wp_ask .exitReported trivial (fun _ => trivial)
    | ok _ =>
      apply wp_ask_bind .closeStatusWrite trivial
      intro _
      apply wp_ask_bind .waitCommand trivial
      intro code
      exact wp_endLike rfl
  . exact wp_ask .usage trivial (fun _ => trivial)

theorem wp_watch : wp watched.view (fun _ => True) (guard .watch) watch (fun _ _ => True) n := by
  unfold watch
  apply wp_ask_bind rfl trivial
  intro _
  exact wp_ask rfl trivial (fun _ => trivial)

theorem wp_happen (events : List Event)
    : wp watched.view (fun _ => True) (guard .world) (happen events) (fun _ _ => True) n := by
  apply wp_forM (fun _ _ => True) trivial
  . intro e _ _ _
    exact wp_ask rfl trivial (fun _ => trivial)
  . intro _ _
    trivial

end others

def StageOk (s : Host) (st : Stage) : Prop :=
  match st with
  | .fresh => s.command = .absent ∧ ∀ e, s.status ≠ .report e
  | .armed | .failed => s.supervisor ≠ .absent ∧ s.command = .absent ∧ ∀ e, s.status ≠ .report e
  | .reported => s.supervisor ≠ .absent ∧ s.command = .absent
  | .launched => s.supervisor ≠ .absent ∧ s.command ≠ .absent ∧ ∀ e, s.status ≠ .report e
  | .waited code =>
    s.supervisor ≠ .absent ∧ (s.ignoresSigchld = false → s.command = .ended code) ∧ ∀ e, s.status ≠ .report e
  | .finished =>
    (s.supervisor ≠ .absent ∧ s.supervisor ≠ .running) ∧ ∀ e, s.status = .report e → s.command = .absent

theorem StageOk.report {s : Host} {st : Stage} (h : StageOk s st) {e : OSError}
    (he : s.status = .report e) : s.command = .absent := by
  cases st with
  | fresh => exact h.1
  | armed | failed => exact h.2.1
  | reported => exact h.2
  | launched | waited => exact absurd he (h.2.2 e)
  | finished => exact h.2 e he

structure Inv (s : Host) (o : Note) (st : Stage) : Prop where
  stage : StageOk s st
  childless : s.command = .absent → s.children = 0
  watching : st ≠ .fresh → s.supervisor = .running → s.watching = true
  watcher : s.watching = true → s.supervisor = .running
  ended : ∀ code, s.supervisor = .ended code → s.ignoresSigchld = false →
    s.command = .ended code
      ∨ s.command = .absent ∧ (code = usageExitCode ∨ code = launchFailedExitCode)
      ∨ s.struck = true ∧ code ≠ 0
  started : o.started = true → s.supervisor ≠ .absent
  noticed : s.supervisor ≠ .absent → o.started = true ∨ o.startInterrupted = true
  swept : o.swept = true → s.supervisor ≠ .absent ∧ (s.alive = false ∨ s.killed = true)
  sawReport : o.sawReport = true → ∃ e, s.status = .report e
  sawLease : o.sawLease = true → s.leaseLost = true
  sawCancel : o.sawCancel = true → s.cancelled = true
  codes : ∀ code ∈ o.codes, s.ignoresSigchld = false → s.supervisor = .ended code

structure Fades (s s' : Host) : Prop where
  supervisor : s'.supervisor = s.supervisor
    ∨ s.supervisor = .running ∧ (∃ code, s'.supervisor = .ended code ∧ code ≠ 0) ∧ s'.struck = true
  struck : s.struck = true → s'.struck = true
  watching : s'.supervisor = .running → s'.watching = s.watching
  watcher : (s.watching = true → s.supervisor = .running) → s'.watching = true →
    s'.supervisor = .running
  command : s'.command = s.command ∨ s.command = .running ∧ ∃ code, s'.command = .ended code
  children : s.command = .absent → s.children = 0 → s'.children = 0
  dead : s.alive = false → s'.alive = false
  status : s'.status = s.status
  leaseLost : s.leaseLost = true → s'.leaseLost = true
  cancelled : s.cancelled = true → s'.cancelled = true
  killed : s.killed = true → s'.killed = true
  ignoresSigchld : s'.ignoresSigchld = s.ignoresSigchld

section fades

variable {s s' : Host} {o : Note} {st : Stage}

theorem isRunning_iff {l : Life} : Host.isRunning l = true ↔ l = .running := by
  cases l <;> simp [Host.isRunning]

theorem Fades.command_absent (h : Fades s s') : s'.command = .absent ↔ s.command = .absent := by
  rcases h.command with heq | ⟨hrunning, _, hended⟩
  . rw [heq]
  . rw [hrunning, hended]
    constructor <;> exact Life.noConfusion

theorem Fades.command_ended (h : Fades s s') {code : Int} (hended : s.command = .ended code)
    : s'.command = .ended code := by
  rcases h.command with heq | ⟨hrunning, _⟩
  . rw [heq]
    exact hended
  . rw [hrunning] at hended
    contradiction

theorem Fades.supervisor_running (h : Fades s s') (hrunning : s'.supervisor = .running)
    : s.supervisor = .running := by
  rcases h.supervisor with heq | ⟨hrunning, _, _⟩
  . rw [← heq]
    exact hrunning
  . exact hrunning

theorem Fades.supervisor_ended (h : Fades s s') {code : Int} (hended : s.supervisor = .ended code)
    : s'.supervisor = .ended code := by
  rcases h.supervisor with heq | ⟨hrunning, _, _⟩
  . rw [heq]
    exact hended
  . rw [hrunning] at hended
    contradiction

theorem Fades.supervisor_absent (h : Fades s s') : s'.supervisor = .absent ↔ s.supervisor = .absent := by
  rcases h.supervisor with heq | ⟨hrunning, ⟨_, hended, _⟩, _⟩
  . rw [heq]
  . rw [hrunning, hended]
    constructor <;> exact Life.noConfusion

theorem StageOk.fades (h : StageOk s st) (hfades : Fades s s') : StageOk s' st := by
  have hstarted : s.supervisor ≠ .absent → s'.supervisor ≠ .absent := by
    rw [ne_eq, ne_eq, hfades.supervisor_absent]
    exact id
  unfold StageOk at h ⊢
  rw [hfades.status]
  cases st with
  | fresh => exact ⟨hfades.command_absent.mpr h.1, h.2⟩
  | armed | failed => exact ⟨hstarted h.1, hfades.command_absent.mpr h.2.1, h.2.2⟩
  | reported => exact ⟨hstarted h.1, hfades.command_absent.mpr h.2⟩
  | launched => exact ⟨hstarted h.1, fun habsent => h.2.1 (hfades.command_absent.mp habsent), h.2.2⟩
  | waited =>
    refine ⟨hstarted h.1, ?_, h.2.2⟩
    rw [hfades.ignoresSigchld]
    exact fun hign => hfades.command_ended (h.2.1 hign)
  | finished =>
    exact ⟨⟨hstarted h.1.1, fun hrunning => h.1.2 (hfades.supervisor_running hrunning)⟩,
      fun e he => hfades.command_absent.mpr (h.2 e he)⟩

theorem Inv.fades (h : Inv s o st) (hfades : Fades s s') : Inv s' o st where
  stage := h.stage.fades hfades
  childless habsent := by
    have habsent' := hfades.command_absent.mp habsent
    exact hfades.children habsent' (h.childless habsent')
  watching hst hrunning := by
    rw [hfades.watching hrunning]
    exact h.watching hst (hfades.supervisor_running hrunning)
  watcher := hfades.watcher h.watcher
  ended code hended hign := by
    rw [hfades.ignoresSigchld] at hign
    rcases hfades.supervisor with heq | ⟨_, ⟨code', hended', hcode⟩, hstruck⟩
    . rw [heq] at hended
      rcases h.ended code hended hign with hcommand | ⟨habsent, hcode⟩ | ⟨hstruck, hcode⟩
      . exact .inl (hfades.command_ended hcommand)
      . exact .inr (.inl ⟨hfades.command_absent.mpr habsent, hcode⟩)
      . exact .inr (.inr ⟨hfades.struck hstruck, hcode⟩)
    . rw [Life.ended.inj (hended'.symm.trans hended)] at hcode
      exact .inr (.inr ⟨hstruck, hcode⟩)
  started hstarted habsent := h.started hstarted (hfades.supervisor_absent.mp habsent)
  noticed hne := h.noticed (fun habsent => hne (hfades.supervisor_absent.mpr habsent))
  swept hswept := by
    obtain ⟨hstarted, hgone⟩ := h.swept hswept
    exact ⟨fun habsent => hstarted (hfades.supervisor_absent.mp habsent),
      hgone.imp hfades.dead hfades.killed⟩
  sawReport hsaw := by
    rw [hfades.status]
    exact h.sawReport hsaw
  sawLease hsaw := hfades.leaseLost (h.sawLease hsaw)
  sawCancel hsaw := hfades.cancelled (h.sawCancel hsaw)
  codes code hcode hign := by
    rw [hfades.ignoresSigchld] at hign
    exact hfades.supervisor_ended (h.codes code hcode hign)

theorem Fades.of_eq (hsupervisor : s'.supervisor = s.supervisor) (hstruck : s'.struck = s.struck)
    (hwatching : s'.watching = s.watching) (hcommand : s'.command = s.command)
    (hchildren : s'.children = s.children) (hstatus : s'.status = s.status)
    (hlease : s.leaseLost = true → s'.leaseLost = true)
    (hcancelled : s.cancelled = true → s'.cancelled = true) (hkilled : s.killed = true → s'.killed = true)
    (hignores : s'.ignoresSigchld = s.ignoresSigchld) : Fades s s' where
  supervisor := .inl hsupervisor
  struck h := hstruck.trans h
  watching _ := hwatching
  watcher h hwatch := hsupervisor.trans (h (hwatching.symm.trans hwatch))
  command := .inl hcommand
  children _ h := hchildren.trans h
  dead h := by
    unfold Host.alive at h ⊢
    rw [hsupervisor, hcommand, hchildren]
    exact h
  status := hstatus
  leaseLost := hlease
  cancelled := hcancelled
  killed := hkilled
  ignoresSigchld := hignores

theorem Fades.killSupervisor (s : Host) {code : Int} (hcode : code ≠ 0)
    : Fades s (s.killSupervisor code) := by
  unfold Host.killSupervisor
  split
  . next hrunning =>
    refine ⟨.inr ⟨isRunning_iff.mp hrunning, ⟨code, rfl, hcode⟩, rfl⟩, fun _ => rfl, Life.noConfusion,
      fun _ => Bool.noConfusion, .inl rfl, fun _ h => h, ?_, rfl, id, id, id, rfl⟩
    intro hdead
    simp [Host.alive, hrunning] at hdead
  . exact .of_eq rfl rfl rfl rfl rfl rfl id id id rfl

theorem Fades.sigkillGroup (s : Host) : Fades s s.sigkillGroup :=
  .of_eq rfl rfl rfl rfl rfl rfl id id (fun _ => rfl) rfl

theorem Fades.sigtermGroup (s : Host) : Fades s s.sigtermGroup := by
  unfold Host.sigtermGroup
  split
  . exact .of_eq rfl rfl rfl rfl rfl rfl id id id rfl
  . exact .killSupervisor s (by decide)

theorem Fades.killpg (s : Host) (sig : Signal) (refuse : Bool) : Fades s (s.killpg sig refuse).2 := by
  unfold Host.killpg
  split
  . split
    . exact .of_eq rfl rfl rfl rfl rfl rfl id id id rfl
    . cases sig with
      | sigterm => exact .sigtermGroup s
      | sigkill => exact .sigkillGroup s
  . exact .of_eq rfl rfl rfl rfl rfl rfl id id id rfl

theorem Fades.step (s : Host) (e : Event) : Fades s (s.step e) := by
  cases e with
  | commandEnds code =>
    unfold Host.step
    dsimp only
    split
    . next hrunning =>
      refine ⟨.inl rfl, id, fun _ => rfl, id, .inr ⟨isRunning_iff.mp hrunning, code, rfl⟩, fun _ h => h,
        ?_, rfl, id, id, id, rfl⟩
      intro hdead
      simp [Host.alive, hrunning] at hdead
    . exact .of_eq rfl rfl rfl rfl rfl rfl id id id rfl
  | fork =>
    unfold Host.step
    dsimp only
    split
    . next hsome =>
      have hsome := (Bool.and_eq_true _ _ ▸ hsome).right
      refine ⟨.inl rfl, id, fun _ => rfl, id, .inl rfl, ?_, ?_, rfl, id, id, id, rfl⟩
      . intro habsent hzero
        rw [habsent, hzero] at hsome
        contradiction
      . intro hdead
        simp only [Host.alive, Bool.or_eq_false_iff] at hdead
        rw [hdead.left.right, hdead.right] at hsome
        contradiction
    . exact .of_eq rfl rfl rfl rfl rfl rfl id id id rfl
  | childEnds =>
    refine ⟨.inl rfl, id, fun _ => rfl, id, .inl rfl, ?_, ?_, rfl, id, id, id, rfl⟩
    . intro _ hzero
      simp [Host.step, hzero]
    . intro hdead
      simp only [Host.alive, Bool.or_eq_false_iff] at hdead
      have hzero : s.children = 0 := by
        simpa using hdead.right
      simp [Host.alive, Host.step, hdead.left.left, hdead.left.right, hzero]
  | supervisorKilled => exact .killSupervisor s (by decide)
  | supervisorFails => exact .killSupervisor s Int.one_ne_zero
  | watchBreaks => exact .of_eq rfl rfl rfl rfl rfl rfl id id id rfl
  | ownerDies => exact .of_eq rfl rfl rfl rfl rfl rfl id id id rfl
  | leaseIsLost => exact .of_eq rfl rfl rfl rfl rfl rfl (fun _ => rfl) id id rfl
  | cancelRequested => exact .of_eq rfl rfl rfl rfl rfl rfl id (fun _ => rfl) id rfl

end fades

section steps

variable {s : Host} {o : Note} {st : Stage} {x : Choice}

theorem Inv.killed_of_swept (h : Inv s o st) (hrunning : s.supervisor = .running) (hswept : o.swept = true)
    : s.killed = true := by
  rcases (h.swept hswept).right with hdead | hkilled
  . simp [Host.alive, hrunning, Host.isRunning] at hdead
  . exact hkilled

theorem Inv.absent (h : Inv s o st) (hstarted : o.started = false) (hinterrupted : o.startInterrupted = false)
    : s.supervisor = .absent := by
  by_contra hne
  rcases h.noticed hne with h | h
  . rw [hstarted] at h
    contradiction
  . rw [hinterrupted] at h
    contradiction

theorem Inv.startSupervised {o' : Note} (h : Inv s o st) (habsent : s.supervisor = .absent)
    (hnote : o' = { o with started := true } ∨ o' = { o with startInterrupted := true })
    : Inv { s with watchWrite := true, statusRead := true, statusWrite := true, supervisor := .running }
        o' st := by
  have hfresh : st = .fresh := by
    have hstage := h.stage
    cases st with
    | fresh => rfl
    | finished => exact absurd habsent hstage.1.1
    | _ => exact absurd habsent hstage.1
  subst hfresh
  have hnotice : o'.started = true ∨ o'.startInterrupted = true := by
    rcases hnote with rfl | rfl
    . exact .inl rfl
    . exact .inr rfl
  have hsame : o'.swept = o.swept ∧ o'.sawReport = o.sawReport ∧ o'.sawLease = o.sawLease
      ∧ o'.sawCancel = o.sawCancel ∧ o'.codes = o.codes := by
    rcases hnote with rfl | rfl <;> exact ⟨rfl, rfl, rfl, rfl, rfl⟩
  obtain ⟨hswept, hreport, hlease, hcancel, hcodes⟩ := hsame
  constructor
  . exact h.stage
  . exact h.childless
  . intro hst
    exact absurd rfl hst
  . exact fun _ => rfl
  . intro _
    exact Life.noConfusion
  . exact fun _ => Life.noConfusion
  . exact fun _ => hnotice
  . rw [hswept]
    exact fun hs => absurd habsent (h.swept hs).left
  . rw [hreport]
    exact h.sawReport
  . rw [hlease]
    exact h.sawLease
  . rw [hcancel]
    exact h.sawCancel
  . rw [hcodes]
    intro code hcode hign
    exact absurd (habsent.symm.trans (h.codes code hcode hign)) Life.noConfusion

theorem Inv.sweep (h : Inv s o st) (hstarted : o.started = true) (hgone : s.alive = false ∨ s.killed = true)
    : Inv s { o with swept := true } st :=
  { h with swept := fun _ => ⟨h.started hstarted, hgone⟩ }

theorem Inv.code (h : Inv s o st) {code : Int} (hcode : s.ignoresSigchld = false → s.supervisor = .ended code)
    : Inv s { o with codes := code :: o.codes } st :=
  { h with
    codes := by
      intro code' hmem
      cases hmem with
      | head => exact hcode
      | tail _ hmem => exact h.codes code' hmem }

theorem Inv.killpg (h : Inv s o st) (hstarted : o.started = true) (sig : Signal)
    : Inv (s.killpg sig x.refuse).2 (o.after (.killpg sig) (some (s.killpg sig x.refuse).1)) st := by
  have hfades := h.fades (.killpg s sig x.refuse)
  unfold Host.killpg at hfades ⊢
  cases halive : s.alive with
  | false =>
    rw [if_neg Bool.false_ne_true]
    cases sig with
    | sigterm => exact h
    | sigkill => exact h.sweep hstarted (.inl halive)
  | true =>
    rw [halive, if_pos rfl] at hfades
    rw [if_pos rfl]
    cases hrefuse : x.refuse with
    | true =>
      rw [if_pos rfl]
      cases sig with
      | sigterm => exact h
      | sigkill => exact { h with }
    | false =>
      rw [hrefuse, if_neg Bool.false_ne_true] at hfades
      rw [if_neg Bool.false_ne_true]
      cases sig with
      | sigterm => exact hfades
      | sigkill => exact hfades.sweep hstarted (.inr rfl)

theorem eq_ended_of_code {l : Life} {code : Int} (h : Host.code l = some code) : l = .ended code := by
  cases l with
  | absent => contradiction
  | running => contradiction
  | ended code' => rw [Option.some.inj h]

theorem ended_of_reaped {code : Int} (h : Host.code s.supervisor = some code)
    : s.ignoresSigchld = false → s.supervisor = .ended (s.reaped code) := by
  intro hign
  unfold Host.reaped
  rw [hign]
  exact eq_ended_of_code h

theorem Inv.communicate (h : Inv s o st) (timeout : Nat)
    : Inv s (o.after (.communicate timeout) (some (s.communicate x))) st := by
  cases hanswer : s.communicate x with
  | none => exact h
  | some pair =>
    obtain ⟨output, code⟩ := pair
    unfold Host.communicate at hanswer
    split at hanswer
    . rw [Option.map_eq_some_iff] at hanswer
      obtain ⟨code', hcode, heq⟩ := hanswer
      rw [← (Prod.mk.inj heq).right]
      exact h.code (ended_of_reaped hcode)
    . contradiction

theorem Inv.isSet (h : Inv s o st) (event : StopEvent)
    : Inv s (o.after (.isSet event) (some (s.isSet event))) st := by
  cases hset : s.isSet event with
  | false => cases event <;> exact h
  | true =>
    cases event with
    | leaseLost => exact { h with sawLease := fun _ => hset }
    | cancel => exact { h with sawCancel := fun _ => hset }

theorem Inv.readStatus (h : Inv s o st) : Inv s (o.after .readStatus (some s.status)) st := by
  cases hstatus : s.status with
  | empty => exact h
  | garbled => exact h
  | report e => exact { h with sawReport := fun _ => ⟨e, hstatus⟩ }

theorem Inv.poll (h : Inv s o st)
    : Inv s (o.after .poll (some ((Host.code s.supervisor).map s.reaped))) st := by
  cases hcode : Host.code s.supervisor with
  | none => exact h
  | some code => exact h.code (ended_of_reaped hcode)

theorem Inv.owner (h : Inv s o st) {c : Call} (hguard : guard .owner o c)
    : Inv (Host.exec c x s).2 (o.after c (some (Host.exec c x s).1)) st := by
  obtain ⟨hcaller, hstart, hkill⟩ := hguard
  cases c with
  | startSupervised command =>
    simp only [Host.exec, Host.startSupervised]
    cases x.error with
    | some e => exact h
    | none =>
      obtain ⟨hstarted, hinterrupted⟩ := hstart command rfl
      exact h.startSupervised (h.absent hstarted hinterrupted) (.inl rfl)
  | killpg sig => exact h.killpg (hkill sig rfl) sig
  | communicate timeout => exact h.communicate timeout
  | isSet event => exact h.isSet event
  | readStatus => exact h.readStatus
  | poll => exact h.poll
  | closeWatch => exact h.fades (.of_eq rfl rfl rfl rfl rfl rfl id id id rfl)
  | closeStatus => exact h.fades (.of_eq rfl rfl rfl rfl rfl rfl id id id rfl)
  | monotonic | select | wait | waitBriefly | warn => exact h
  | _ => contradiction

theorem Inv.interrupted (h : Inv s o st) {c : Call} (hguard : guard .owner o c) (late : Bool)
    : Inv (if late then (Host.exec c x s).2 else s) (o.after c none) st := by
  obtain ⟨hcaller, hstart, _⟩ := hguard
  cases c with
  | startSupervised command =>
    have hinterrupted : Inv s { o with startInterrupted := true } st := { h with noticed := fun _ => .inr rfl }
    cases late with
    | false => exact hinterrupted
    | true =>
      simp only [Host.exec, Host.startSupervised]
      cases x.error with
      | some e => exact hinterrupted
      | none =>
        obtain ⟨hstarted, hstill⟩ := hstart command rfl
        exact h.startSupervised (h.absent hstarted hstill) (.inr rfl)
  | killpg sig =>
    have hfades : Inv (if late then (s.killpg sig x.refuse).2 else s) o st := by
      cases late with
      | false => exact h
      | true => exact h.fades (.killpg s sig x.refuse)
    cases sig with
    | sigterm => exact hfades
    | sigkill => exact { hfades with }
  | closeWatch | closeStatus =>
    cases late with
    | false => exact h
    | true => exact h.fades (.of_eq rfl rfl rfl rfl rfl rfl id id id rfl)
  | monotonic | select | wait | waitBriefly | warn | communicate | poll | readStatus =>
    cases late <;> exact h
  | isSet event => cases event <;> cases late <;> exact h
  | _ => contradiction

theorem Inv.endSupervisor (h : Inv s o st) (hrunning : s.supervisor = .running) {code : Int}
    (hcode : s.ignoresSigchld = false → s.command = .ended code
      ∨ s.command = .absent ∧ (code = usageExitCode ∨ code = launchFailedExitCode))
    : Inv (s.endSupervisor code) o .finished where
  stage := ⟨⟨Life.noConfusion, Life.noConfusion⟩, fun _ he => h.stage.report he⟩
  childless := h.childless
  watching _ := Life.noConfusion
  watcher := Bool.noConfusion
  ended code' hended hign := by
    rw [← Life.ended.inj hended]
    exact (hcode hign).imp_right .inl
  started _ := Life.noConfusion
  noticed _ := h.noticed (hrunning ▸ Life.noConfusion)
  swept hswept := ⟨Life.noConfusion, .inr (h.killed_of_swept hrunning hswept)⟩
  sawReport := h.sawReport
  sawLease := h.sawLease
  sawCancel := h.sawCancel
  codes code hcode hign := absurd (hrunning.symm.trans (h.codes code hcode hign)) Life.noConfusion

theorem Inv.startWatch (h : Inv s o .fresh) (hrunning : s.supervisor = .running)
    : Inv { s with watching := true } o .armed :=
  { h with
    stage := ⟨by simp [hrunning], h.stage⟩
    watching := fun _ _ => rfl
    watcher := fun _ => hrunning }

theorem Inv.arm_struck (h : Inv s o .fresh) {code : Int} (hended : s.supervisor = .ended code)
    : Inv s o .armed :=
  { h with
    stage := ⟨by simp [hended], h.stage⟩
    watching := fun _ hrunning => absurd (hended.symm.trans hrunning) Life.noConfusion }

theorem Inv.launch (h : Inv s o .armed) (hrunning : s.supervisor = .running) (hkilled : s.killed = false)
    : Inv { s with command := .running } o .launched :=
  { h with
    stage := ⟨h.stage.1, Life.noConfusion, h.stage.2.2⟩
    childless := Life.noConfusion
    watching := fun _ => h.watching Stage.noConfusion
    ended := fun _ hended => absurd (hrunning.symm.trans hended) Life.noConfusion
    swept := fun hswept => by
      rw [h.killed_of_swept hrunning hswept] at hkilled
      contradiction }

theorem Inv.fail (h : Inv s o .armed) : Inv s o .failed :=
  { h with
    stage := h.stage
    watching := fun _ => h.watching Stage.noConfusion }

theorem Inv.reported (h : Inv s o .failed) : Inv s o .reported :=
  { h with
    stage := ⟨h.stage.1, h.stage.2.1⟩
    watching := fun _ => h.watching Stage.noConfusion }

theorem Fades.strikeSupervisor (hrunning : s.supervisor = .running) {code : Int} (hcode : code ≠ 0)
    : Fades s (s.strikeSupervisor code) := by
  have h := Fades.killSupervisor s hcode
  unfold Host.killSupervisor at h
  rw [if_pos (isRunning_iff.mpr hrunning)] at h
  exact h

theorem Inv.writeReport (h : Inv s o .failed) (hrunning : s.supervisor = .running) (e : OSError)
    (torn : Bool) : Inv (s.report e torn) o .reported := by
  unfold Host.report
  split
  . exact (h.fades (.strikeSupervisor hrunning Int.one_ne_zero)).reported
  . split
    . have hstruck := (h.fades (.strikeSupervisor hrunning (by decide : (-9 : Int) ≠ 0))).reported
      exact { hstruck with
        sawReport := fun hsaw => by
          obtain ⟨e', he'⟩ := h.sawReport hsaw
          exact absurd he' (h.stage.2.2 e') }
    . exact { h.reported with sawReport := fun _ => ⟨e, rfl⟩ }

theorem Inv.wait (h : Inv s o .launched) (hended : Host.isRunning s.command = false)
    : Inv s o (.waited (s.reaped ((Host.code s.command).getD 0))) := by
  have hcommand : s.command = .ended ((Host.code s.command).getD 0) := by
    cases hs : s.command with
    | absent => exact absurd hs h.stage.2.1
    | running =>
      rw [hs] at hended
      contradiction
    | ended code => rfl
  exact { h with
    stage := by
      refine ⟨h.stage.1, ?_, h.stage.2.2⟩
      intro hign
      unfold Host.reaped
      rw [hign]
      exact hcommand
    watching := fun _ => h.watching Stage.noConfusion }

theorem Inv.supervisor {n : Note} (h : Inv s o n.stage) {c : Call} (hallows : Allows n.stage c)
    (hready : s.ready c = true)
    : Inv (Host.exec c x s).2 o (n.after c (some (Host.exec c x s).1)).stage := by
  have hcaller := hallows.caller
  have hrunning : s.supervisor = .running := by
    unfold Host.ready at hready
    rw [hcaller] at hready
    dsimp only at hready
    rw [Bool.and_eq_true] at hready
    exact isRunning_iff.mp hready.left
  obtain ⟨_, _, _, _, _, _, _, _, _, stage⟩ := n
  cases hallows with
  | usage => exact h.endSupervisor hrunning (fun _ => .inr ⟨h.stage.1, .inl rfl⟩)
  | leadsGroup => exact h
  | handleSigterm => exact h.fades (.of_eq rfl rfl rfl rfl rfl rfl id id id rfl)
  | startWatch =>
    simp only [Host.exec, Host.startWatch]
    cases x.error with
    | some e => exact (h.fades (.strikeSupervisor hrunning Int.one_ne_zero)).arm_struck rfl
    | none => exact h.startWatch hrunning
  | popenCommand =>
    simp only [Host.exec, Host.popenCommand]
    cases x.error with
    | some e => exact h.fail
    | none =>
      apply h.launch hrunning
      unfold Host.ready at hready
      simpa [Call.caller, hrunning, Host.isRunning] using hready
  | report => exact h.writeReport hrunning _ x.torn
  | exitReported => exact h.endSupervisor hrunning (fun _ => .inr ⟨h.stage.2, .inr rfl⟩)
  | closeStatusWrite => exact h.fades (.of_eq rfl rfl rfl rfl rfl rfl id id id rfl)
  | waitCommand =>
    apply h.wait
    unfold Host.ready at hready
    simpa [Call.caller, hrunning, Host.isRunning] using hready
  | exit => exact h.endSupervisor hrunning (fun hign => .inl (h.stage.2.1 hign))
  | killSelf =>
    simp only [Host.exec, Int.neg_neg]
    exact h.endSupervisor hrunning (fun hign => .inl (h.stage.2.1 hign))
  | exitFinished => exact absurd hrunning h.stage.1.2

def protocol : Pool.Protocol watched mayCall where
  inv s notes := Inv s (notes .owner) (notes .supervisor).stage
  met _ := True
  guard := guard
  hmet _ _ _ _ := trivial
  hstep s notes t c x hinv hguard hready := by
    have htime : Fades s { s with clock := s.clock + x.elapsed } :=
      .of_eq rfl rfl rfl rfl rfl rfl id id id rfl
    have hinv' := hinv.fades htime
    have hother : ∀ t' n, t' ≠ t → Function.update notes t n t' = notes t' :=
      fun _ _ h => Function.update_of_ne h _ _
    dsimp only [watched, Host.perform]
    cases t with
    | owner =>
      rw [Function.update_self, hother .supervisor _ (by decide)]
      split
      . exact hinv'.interrupted hguard x.late
      . exact hinv'.owner hguard
    | supervisor =>
      rw [Function.update_self, hother .owner _ (by decide)]
      have hcaller := Allows.caller hguard
      rw [if_neg (by rw [hcaller]; simp)]
      exact hinv'.supervisor hguard hready
    | watch =>
      rw [hother .owner _ (by decide), hother .supervisor _ (by decide)]
      have hcaller : c.caller = .watch := hguard
      rw [if_neg (by rw [hcaller]; simp)]
      cases c with
      | readWatch => exact hinv'
      | killOwnGroup => exact hinv'.fades (.sigkillGroup _)
      | _ => contradiction
    | world =>
      rw [hother .owner _ (by decide), hother .supervisor _ (by decide)]
      have hcaller : c.caller = .world := hguard
      rw [if_neg (by rw [hcaller]; simp)]
      cases c with
      | event e => exact hinv'.fades (.step _ e)
      | _ => contradiction

end steps

section results

abbrev JobPool := Pool signature Failure (Option Result) Host Note Thread

def job (config : Config) (command : Option (List String)) (timeout rounds : Nat) (events : List Event)
    (ignoresSigchld : Bool) : JobPool where
  state := { ignoresSigchld }
  threads := Thread.code config command timeout rounds events
  notes _ := {}

theorem inv_init (ignoresSigchld : Bool) : Inv { ignoresSigchld } {} .fresh where
  stage := ⟨rfl, fun _ => Status.noConfusion⟩
  childless _ := rfl
  watching h := absurd rfl h
  watcher := Bool.noConfusion
  ended _ := Life.noConfusion
  started := Bool.noConfusion
  noticed h := absurd rfl h
  swept := Bool.noConfusion
  sawReport := Bool.noConfusion
  sawLease := Bool.noConfusion
  sawCancel := Bool.noConfusion
  codes _ h := by
    contradiction

def Post (command : Option (List String)) (t : Thread) (r : Except Failure (Option Result)) (n : Note) : Prop :=
  t = .owner → (r ≠ .error .unfinished → n.started = true → n.Swept)
    ∧ ∀ result, r = .ok (some result) → Faithful result n ∨ command = none ∧ result = nothingToRun

variable {config : Config} {command : Option (List String)} {timeout rounds : Nat} {events : List Event}
  {ignoresSigchld : Bool} {pool : JobPool}

theorem wp_execute (command : Option (List String)) (timeout rounds : Nat)
    : ownerWp (some <$> execute config command timeout rounds) (Post command .owner) {} := by
  rw [ownerWp, wp_map]
  cases command with
  | none =>
    intro _
    refine ⟨fun _ => Bool.noConfusion, ?_⟩
    intro result hresult
    exact .inr ⟨rfl, (Option.some.inj (Except.ok.inj hresult)).symm⟩
  | some command =>
    apply wp_mono (wp_executeCommand command timeout rounds rfl rfl)
    intro r n hr _
    refine ⟨?_, ?_⟩
    . intro hne
      apply hr.left
      intro heq
      rw [heq] at hne
      exact hne rfl
    . intro result hresult
      cases r with
      | error e => contradiction
      | ok result' =>
        rw [← Option.some.inj (Except.ok.inj hresult)]
        exact .inl (hr.right result' rfl)

theorem job_holds (config : Config) (command : Option (List String)) (timeout rounds : Nat)
    (events : List Event) (ignoresSigchld : Bool)
    : protocol.Holds (Post command) (job config command timeout rounds events ignoresSigchld) where
  inv := inv_init ignoresSigchld
  follows t := by
    have hother : ∀ (t : Thread) (p : Code Unit) (n : Note), t ≠ .owner →
        wp watched.view (fun _ => True) (guard t) p (fun _ _ => True) n →
        wp watched.view (fun _ => True) (guard t) ((fun _ => (none : Option Result)) <$> p)
          (Post command t) n := by
      intro t p n ht hp
      rw [wp_map]
      apply wp_mono hp
      intro _ _ _ h
      exact absurd h ht
    cases t with
    | owner => exact wp_execute command timeout rounds
    | supervisor => exact hother _ _ _ (by decide) (wp_main _ rfl)
    | watch => exact hother _ _ _ (by decide) wp_watch
    | world => exact hother _ _ _ (by decide) (wp_happen events)

def Reachable (pool : JobPool) : Prop :=
  ∃ config command timeout rounds events ignoresSigchld,
    Pool.Reaches watched mayCall (job config command timeout rounds events ignoresSigchld) pool

theorem Reachable.holds (h : Reachable pool) : ∃ command, protocol.Holds (Post command) pool := by
  obtain ⟨config, command, timeout, rounds, events, ignoresSigchld, hreaches⟩ := h
  exact ⟨command, (job_holds config command timeout rounds events ignoresSigchld).reaches hreaches⟩

theorem Reachable.inv (h : Reachable pool)
    : Inv pool.state (pool.notes .owner) (pool.notes .supervisor).stage := by
  have ⟨_, hholds⟩ := h.holds
  exact hholds.inv

def times (n : Nat) (t : Thread) : List (Thread × Choice) :=
  List.replicate n (t, ({} : Choice))

def launching (error : Option OSError) : List (Thread × Choice) :=
  times 2 .owner ++ times 3 .supervisor ++ [(.supervisor, { error := error })]
    ++ times 1 .supervisor

theorem exists_completed
    : ∃ pool, Pool.Reaches watched mayCall (job {} (some ["true"]) 10 3 [.commandEnds 0] false) pool
        ∧ (returned (pool.threads .owner)
            = some (some {
              exitCode := some 0, timedOut := false, cancelled := false, duration := 0, stdout := ""
              stderr := "" })
          ∧ pool.state.struck = false ∧ pool.state.ignoresSigchld = false
          ∧ pool.state.supervisor ≠ .absent) := by
  apply Pool.exists_reaches_of_play _
    (launching none ++ times 10 .owner ++ times 1 .world
      ++ times 2 .supervisor ++ times 6 .owner)
  decide +kernel

theorem exists_unstarted
    : ∃ pool, Pool.Reaches watched mayCall (job {} (some ["missing"]) 10 3 [] false) pool
        ∧ returned (pool.threads .owner)
          = some (some {
            exitCode := none, timedOut := false, cancelled := false, duration := 0, stdout := ""
            stderr := "The command could not be started: [Errno 2] No such file or directory: 'missing'\n" }) := by
  apply Pool.exists_reaches_of_play _
    (launching (some { errno := 2, strerror := "No such file or directory", filename := some "'missing'" })
      ++ times 1 .supervisor ++ times 13 .owner)
  decide +kernel

theorem exists_preempted
    : ∃ pool, Pool.Reaches watched mayCall (job {} (some ["sleep"]) 10 3 [.leaseIsLost, .supervisorKilled, .commandEnds (-9)] false) pool
        ∧ returned (pool.threads .owner)
          = some (some {
            exitCode := some (-9), timedOut := false, cancelled := false, leaseLost := true
            duration := 0, stdout := "", stderr := "" }) := by
  apply Pool.exists_reaches_of_play _
    (launching none ++ times 1 .world ++ times 5 .owner ++ times 2 .world ++ times 6 .owner)
  decide +kernel

theorem exists_orphaned
    : ∃ pool, Pool.Reaches watched mayCall (job {} (some ["sleep"]) 10 3 [.ownerDies] false) pool
        ∧ (pool.state.supervisor = .running ∧ pool.state.command = .running
          ∧ pool.state.watchWrite = false) := by
  apply Pool.exists_reaches_of_play _ (launching none ++ times 1 .world)
  decide +kernel

theorem Reachable.faithful (h : Reachable pool) {result : Result}
    (hreturned : pool.threads .owner = .ret (some result))
    : Faithful result (pool.notes .owner) ∨ result = nothingToRun := by
  have ⟨_, hholds⟩ := h.holds
  exact ((hholds.result hreturned rfl).right result rfl).imp_right And.right

theorem watching_of_command (hreachable : Reachable pool) (hrunning : pool.state.supervisor = .running)
    (hcommand : pool.state.command ≠ .absent) : pool.state.watching = true := by
  have hinv := hreachable.inv
  apply hinv.watching _ hrunning
  intro hfresh
  have hstage := hinv.stage
  rw [hfresh] at hstage
  exact hcommand hstage.1

theorem perform_of_caller {c : Call} (hcaller : c.caller ≠ .owner) {x : Choice} {s : Host}
    : Host.perform c x s
        = (some (Host.exec c x { s with clock := s.clock + x.elapsed }).1,
          (Host.exec c x { s with clock := s.clock + x.elapsed }).2) := by
  unfold Host.perform
  simp [hcaller]

theorem fades_exec {s : Host} {c : Call} {x : Choice} (hcaller : c.caller ≠ .supervisor)
    (hstart : ∀ command, c ≠ .startSupervised command) : Fades s (Host.exec c x s).2 := by
  cases c with
  | startSupervised command => exact absurd rfl (hstart command)
  | killpg sig => exact .killpg s sig x.refuse
  | killOwnGroup => exact .sigkillGroup s
  | event e => exact .step s e
  | leadsGroup | handleSigterm | startWatch | popenCommand | report | closeStatusWrite | waitCommand
  | killSelf | exit => exact absurd rfl hcaller
  | _ => exact .of_eq rfl rfl rfl rfl rfl rfl id id id rfl

theorem fades_perform {s : Host} {c : Call} {x : Choice} (hcaller : c.caller ≠ .supervisor)
    (hstart : ∀ command, c ≠ .startSupervised command) : Fades s (Host.perform c x s).2 := by
  have hexec : Fades s (Host.exec c x { s with clock := s.clock + x.elapsed }).2 :=
    { fades_exec (s := { s with clock := s.clock + x.elapsed }) hcaller hstart with }
  unfold Host.perform
  dsimp only
  split
  . split
    . exact hexec
    . exact .of_eq rfl rfl rfl rfl rfl rfl id id id rfl
  . exact hexec

def Watches (pool : JobPool) : Prop :=
  pool.threads .watch = (fun _ => none) <$> watch
    ∨ pool.threads .watch = (fun _ => none) <$> ask .killOwnGroup
    ∨ (∃ code, pool.state.supervisor = .ended code)
    ∨ pool.state.killed = true

theorem killed_exec {s : Host} {c : Call} {x : Choice} (hkilled : s.killed = true)
    : (Host.exec c x s).2.killed = true := by
  cases c with
  | startSupervised command =>
    simp only [Host.exec, Host.startSupervised]
    cases x.error <;> exact hkilled
  | startWatch =>
    simp only [Host.exec, Host.startWatch]
    cases x.error <;> exact hkilled
  | popenCommand command =>
    simp only [Host.exec, Host.popenCommand]
    cases x.error <;> exact hkilled
  | report e =>
    simp only [Host.exec, Host.report]
    split
    . exact hkilled
    . split <;> exact hkilled
  | killpg sig => exact (Fades.killpg s sig x.refuse).killed hkilled
  | event e => exact (Fades.step s e).killed hkilled
  | killOwnGroup => rfl
  | _ => exact hkilled

theorem killed_perform {s : Host} {c : Call} {x : Choice} (hkilled : s.killed = true)
    : (Host.perform c x s).2.killed = true := by
  have hexec := killed_exec (s := { s with clock := s.clock + x.elapsed }) (c := c) (x := x) hkilled
  unfold Host.perform
  dsimp only
  split
  . split
    . exact hexec
    . exact hkilled
  . exact hexec

theorem Inv.not_started_again {s : Host} {notes : Thread → Note} {t : Thread} {c : Call} {code : Int}
    (h : Inv s (notes .owner) (notes .supervisor).stage) (hguard : guard t (notes t) c)
    (hended : s.supervisor = .ended code) (command : List String) : c ≠ .startSupervised command := by
  rintro rfl
  cases t with
  | owner =>
    obtain ⟨_, hstart, _⟩ := hguard
    obtain ⟨hstarted, hinterrupted⟩ := hstart command rfl
    exact absurd (hended.symm.trans (h.absent hstarted hinterrupted)) Life.noConfusion
  | supervisor => exact absurd (Allows.caller hguard) Thread.noConfusion
  | watch | world => contradiction

theorem watch_shape
    (hreaches : Pool.Reaches watched mayCall (job config command timeout rounds events ignoresSigchld) pool)
    : Watches pool := by
  induction hreaches with
  | refl => exact .inl rfl
  | @tail pool pool' hreaches hstep ih =>
    obtain ⟨t, hstep⟩ := hstep
    have hholds := (job_holds config command timeout rounds events ignoresSigchld).reaches hreaches
    have hinv : Inv pool.state (pool.notes .owner) (pool.notes .supervisor).stage := hholds.inv
    cases hstep with
    | @call c k x hthread hready =>
      have hguard : guard t (pool.notes t) c := hholds.guard hthread
      have hover : (∃ code, pool.state.supervisor = .ended code) ∨ pool.state.killed = true →
          (∃ code, (Host.perform c x pool.state).2.supervisor = .ended code)
            ∨ (Host.perform c x pool.state).2.killed = true := by
        rintro (⟨code, hcode⟩ | hkilled)
        . have hcaller : c.caller ≠ .supervisor := by
            intro hcaller
            simp [mayCall, Host.ready, hcaller, hcode, Host.isRunning] at hready
          exact .inl ⟨code, (fades_perform hcaller (hinv.not_started_again hguard hcode)).supervisor_ended hcode⟩
        . exact .inr (killed_perform hkilled)
      unfold Watches
      dsimp only [Pool.advance, watched]
      by_cases ht : t = .watch
      . subst ht
        rw [Function.update_self]
        rcases ih with ih | ih | ih
        . rw [ih] at hthread
          injection hthread with hc hk
          subst hc
          obtain rfl := eq_of_heq hk
          rw [perform_of_caller (by decide)]
          exact .inr (.inl rfl)
        . rw [ih] at hthread
          injection hthread with hc hk
          subst hc
          rw [perform_of_caller (by decide)]
          exact .inr (.inr (.inr rfl))
        . exact .inr (.inr (hover ih))
      . rw [Function.update_of_ne (Ne.symm ht)]
        rcases ih with ih | ih | ih
        . exact .inl ih
        . exact .inr (.inl ih)
        . exact .inr (.inr (hover ih))

theorem Reachable.watches (h : Reachable pool) : Watches pool := by
  obtain ⟨config, command, timeout, rounds, events, ignoresSigchld, hreaches⟩ := h
  exact watch_shape hreaches

theorem command_watched (hreachable : Reachable pool) (hrunning : pool.state.supervisor = .running)
    (hcommand : pool.state.command ≠ .absent)
    : pool.state.watching = true
        ∧ ((∃ k, pool.threads .watch = .call (S := signature) .readWatch k)
          ∨ (∃ k, pool.threads .watch = .call (S := signature) .killOwnGroup k)
          ∨ pool.state.killed = true) := by
  refine ⟨watching_of_command hreachable hrunning hcommand, ?_⟩
  rcases hreachable.watches with hthread | hthread | ⟨code, hcode⟩ | hkilled
  . exact .inl ⟨_, hthread⟩
  . exact .inr (.inl ⟨_, hthread⟩)
  . rw [hrunning] at hcode
    contradiction
  . exact .inr (.inr hkilled)

theorem command_watched_orphaned
    : ∃ pool : JobPool,
        (Reachable pool ∧ pool.state.supervisor = .running ∧ pool.state.command ≠ .absent)
          ∧ pool.state.watching = true
          ∧ ((∃ k, pool.threads .watch = .call (S := signature) .readWatch k)
            ∨ (∃ k, pool.threads .watch = .call (S := signature) .killOwnGroup k)
            ∨ pool.state.killed = true) := by
  obtain ⟨pool, hreaches, hrunning, hcommand, _⟩ := exists_orphaned
  have hreachable : Reachable pool := ⟨_, _, _, _, _, _, hreaches⟩
  have hne : pool.state.command ≠ .absent := by
    rw [hcommand]
    exact Life.noConfusion
  exact ⟨pool, ⟨hreachable, hrunning, hne⟩, command_watched hreachable hrunning hne⟩

theorem watch_kills_group (hreachable : Reachable pool) (hwatching : pool.state.watching = true)
    (hclosed : pool.state.watchWrite = false)
    : ∃ pool', Relation.ReflTransGen (Pool.Step watched mayCall .watch) pool pool'
        ∧ pool'.state.killed = true := by
  have hkill : ∀ pool' : JobPool,
      pool'.state.watching = true → pool'.threads .watch = (fun _ => none) <$> ask .killOwnGroup →
      ∃ pool'', Pool.Step watched mayCall .watch pool' pool'' ∧ pool''.state.killed = true := by
    intro pool' hwatching hthread
    refine ⟨_, .call {} hthread ?_, ?_⟩
    . simpa [mayCall, Host.ready, Call.caller] using hwatching
    . dsimp only [Pool.advance, watched]
      rw [perform_of_caller (by decide)]
      rfl
  rcases hreachable.watches with hthread | hthread | ⟨code, hcode⟩ | hkilled
  . have hready : mayCall pool.state pool.notes .watch .readWatch := by
      simp [mayCall, Host.ready, Call.caller, hwatching, hclosed]
    obtain ⟨pool1, ⟨hwatching1, hthread1⟩, hstep⟩ : ∃ pool1, (pool1.state.watching = true
        ∧ pool1.threads .watch = (fun _ => none) <$> ask .killOwnGroup)
        ∧ Pool.Step watched mayCall .watch pool pool1 := by
      refine ⟨_, ⟨?_, ?_⟩, .call {} hthread hready⟩
      . dsimp only [Pool.advance, watched]
        rw [perform_of_caller (by decide)]
        exact hwatching
      . dsimp only [Pool.advance, watched]
        rw [Function.update_self, perform_of_caller (by decide)]
        rfl
    obtain ⟨pool'', hstep', hkilled⟩ := hkill pool1 hwatching1 hthread1
    exact ⟨pool'', (Relation.ReflTransGen.single hstep).tail hstep', hkilled⟩
  . obtain ⟨pool'', hstep, hkilled⟩ := hkill pool hwatching hthread
    exact ⟨pool'', .single hstep, hkilled⟩
  . rw [hreachable.inv.watcher hwatching] at hcode
    contradiction
  . exact ⟨pool, .refl, hkilled⟩

theorem watch_kills_group_orphaned
    : ∃ pool : JobPool,
        (Reachable pool ∧ pool.state.watching = true ∧ pool.state.watchWrite = false)
          ∧ ∃ pool', Relation.ReflTransGen (Pool.Step watched mayCall .watch) pool pool'
            ∧ pool'.state.killed = true := by
  obtain ⟨pool, hreaches, hrunning, hcommand, hclosed⟩ := exists_orphaned
  have hreachable : Reachable pool := ⟨_, _, _, _, _, _, hreaches⟩
  have hwatching : pool.state.watching = true := by
    apply watching_of_command hreachable hrunning
    rw [hcommand]
    exact Life.noConfusion
  exact ⟨pool, ⟨hreachable, hwatching, hclosed⟩, watch_kills_group hreachable hwatching hclosed⟩

theorem unstarted_never_ran (hreachable : Reachable pool) {result : Result}
    (hreturned : pool.threads .owner = .ret (some result)) (hcode : result.exitCode = none)
    (htimed : result.timedOut = false) (hcancelled : result.cancelled = false)
    (hlost : result.leaseLost = false) : pool.state.command = .absent := by
  have hinv := hreachable.inv
  rcases hreachable.faithful hreturned with hfaithful | rfl
  . obtain ⟨e, he⟩ := hinv.sawReport (hfaithful.unstarted hcode htimed hcancelled hlost)
    exact hinv.stage.report he
  . contradiction

theorem unstarted_never_ran_missing
    : ∃ pool : JobPool,
        (Reachable pool ∧ ∃ result, pool.threads .owner = .ret (some result)
          ∧ result.exitCode = none ∧ result.leaseLost = false)
          ∧ pool.state.command = .absent := by
  obtain ⟨pool, hreaches, hreturned⟩ := exists_unstarted
  have hreachable : Reachable pool := ⟨_, _, _, _, _, _, hreaches⟩
  have hthread := eq_ret_of_returned hreturned
  exact ⟨pool, ⟨hreachable, _, hthread, rfl, rfl⟩,
    unstarted_never_ran hreachable hthread rfl rfl rfl rfl⟩

theorem success_of_command
    (hreaches : Pool.Reaches watched mayCall (job config command timeout rounds events ignoresSigchld) pool)
    {result : Result} (hreturned : pool.threads .owner = .ret (some result))
    (hsucceeded : result.succeeded = true) (hreaped : pool.state.ignoresSigchld = false)
    : command = none ∨ pool.state.command = .ended 0 := by
  have hholds := (job_holds config command timeout rounds events ignoresSigchld).reaches hreaches
  have hinv : Inv pool.state (pool.notes .owner) (pool.notes .supervisor).stage := hholds.inv
  have hexit : result.exitCode = some 0 := by
    unfold JobExecutionResult.succeeded at hsucceeded
    simp_all
  rcases (hholds.result hreturned rfl).right result rfl with hfaithful | ⟨hnone, _⟩
  . have hended := hinv.codes 0 (hfaithful.exitCode 0 hexit) hreaped
    rcases hinv.ended 0 hended hreaped with hcommand | ⟨_, hcode | hcode⟩ | ⟨_, hcode⟩
    . exact .inr hcommand
    all_goals contradiction
  . exact .inl hnone

theorem success_of_command_completed
    : ∃ pool : JobPool,
        (Pool.Reaches watched mayCall (job {} (some ["true"]) 10 3 [.commandEnds 0] false) pool
          ∧ ∃ result, pool.threads .owner = .ret (some result) ∧ result.succeeded = true)
          ∧ pool.state.command = .ended 0 := by
  obtain ⟨pool, hreaches, hreturned, _, hreaped, _⟩ := exists_completed
  have hthread := eq_ret_of_returned hreturned
  refine ⟨pool, ⟨hreaches, _, hthread, rfl⟩, ?_⟩
  rcases success_of_command hreaches hthread rfl hreaped with hnone | hcommand
  . contradiction
  . exact hcommand

theorem stopped_for_a_reason (hreachable : Reachable pool) {result : Result}
    (hreturned : pool.threads .owner = .ret (some result))
    : (result.leaseLost = true → pool.state.leaseLost = true)
        ∧ (result.cancelled = true → pool.state.cancelled = true)
        ∧ (result.timedOut = true → result.cancelled = false ∧ result.leaseLost = false)
        ∧ (result.cancelled = true → result.leaseLost = false) := by
  have hinv := hreachable.inv
  rcases hreachable.faithful hreturned with hfaithful | rfl
  . exact ⟨fun h => hinv.sawLease (hfaithful.leaseLost h), fun h => hinv.sawCancel (hfaithful.cancelled h),
      hfaithful.exclusive.left, hfaithful.exclusive.right⟩
  . exact ⟨Bool.noConfusion, Bool.noConfusion, Bool.noConfusion, Bool.noConfusion⟩

theorem stopped_for_a_reason_preempted
    : ∃ pool : JobPool,
        (Reachable pool ∧ ∃ result, pool.threads .owner = .ret (some result)
          ∧ result.leaseLost = true)
          ∧ pool.state.leaseLost = true := by
  obtain ⟨pool, hreaches, hreturned⟩ := exists_preempted
  have hreachable : Reachable pool := ⟨_, _, _, _, _, _, hreaches⟩
  have hthread := eq_ret_of_returned hreturned
  exact ⟨pool, ⟨hreachable, _, hthread, rfl⟩, (stopped_for_a_reason hreachable hthread).left rfl⟩

end results

end JobExecution

end AetherGrid
