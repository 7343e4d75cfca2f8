import AetherGrid.JobExecution.Host

/-!
This module contains how long the execution of a job takes.
-/

namespace AetherGrid

namespace JobExecution

open Prog

def Call.waits (c : Call) (reaping : Nat) : Nat :=
  match c with
  | .select timeout | .communicate timeout => timeout
  | .wait | .waitBriefly => reaping
  | _ => 0

structure Reply where
  interrupt : Bool
  answer : (c : Call) → c.Answer
  elapsed : Call → Nat

structure Prompt (latency reaping : Nat) (x : Reply) : Prop where
  elapsed : ∀ c, x.elapsed c ≤ latency + c.waits reaping
  select : ∀ timeout, x.answer (.select timeout) = false → timeout ≤ x.elapsed (.select timeout)
  communicate : ∀ timeout, x.answer (.communicate timeout) = none →
    timeout ≤ x.elapsed (.communicate timeout)

def reply (setAt : StopEvent → Option Nat) (c : Call) (x : Reply) (t : Nat) : c.Answer :=
  match c with
  | .monotonic => t
  | .isSet event => (setAt event).any (· ≤ t)
  | c => x.answer c

def clocked (setAt : StopEvent → Option Nat) : Machine signature Nat Reply where
  exec c x t := (if x.interrupt then none else some (reply setAt c x t), t + x.elapsed c)

section rules

variable {α : Type} {setAt : StopEvent → Option Nat} {latency reaping t : Nat}

abbrev timedWp (setAt : StopEvent → Option Nat) (latency reaping : Nat) (p : Code α)
    (Q : Except Failure α → Nat → Prop) (t : Nat) : Prop :=
  wp (clocked setAt) (Prompt latency reaping) (fun _ _ => True) p Q t

def Says (setAt : StopEvent → Option Nat) (c : Call) (a : c.Answer) (t t' : Nat) : Prop :=
  match c, a with
  | .monotonic, now => now = t
  | .isSet event, set => set = (setAt event).any (· ≤ t)
  | .select timeout, ready => ready = false → t + timeout ≤ t'
  | .communicate timeout, collected => collected = none → t + timeout ≤ t'
  | _, _ => True

theorem says_reply {x : Reply} (hprompt : Prompt latency reaping x) (c : Call)
    : Says setAt c (reply setAt c x t) t (t + x.elapsed c) := by
  cases c with
  | monotonic => rfl
  | isSet event => rfl
  | select timeout =>
    intro h
    exact Nat.add_le_add_left (hprompt.select timeout h) t
  | communicate timeout =>
    intro h
    exact Nat.add_le_add_left (hprompt.communicate timeout h) t
  | _ => trivial

theorem timed_ask {c : Call} {Q : Except Failure c.Answer → Nat → Prop} (waits : Nat)
    (hwaits : c.waits reaping = waits)
    (hinterrupt : ∀ t', t ≤ t' → t' ≤ t + latency + waits → Q (.error .interrupt) t')
    (h : ∀ a t', t ≤ t' → t' ≤ t + latency + waits → Says setAt c a t t' → Q (.ok a) t')
    : timedWp setAt latency reaping (ask c) Q t := by
  subst hwaits
  refine ⟨trivial, ?_⟩
  intro x hx
  have hle : t ≤ t + x.elapsed c := Nat.le_add_right _ _
  have hge : t + x.elapsed c ≤ t + latency + c.waits reaping := by
    rw [Nat.add_assoc]
    exact Nat.add_le_add_left (hx.elapsed c) t
  dsimp only [clocked]
  cases x.interrupt with
  | true => exact hinterrupt _ hle hge
  | false => exact h _ _ hle hge (says_reply hx c)

theorem timed_ask_bind {c : Call} {f : c.Answer → Code α} {Q : Except Failure α → Nat → Prop}
    (waits : Nat) (hwaits : c.waits reaping = waits)
    (hinterrupt : ∀ t', t ≤ t' → t' ≤ t + latency + waits → Q (.error .interrupt) t')
    (h : ∀ a t', t ≤ t' → t' ≤ t + latency + waits → Says setAt c a t t' →
      timedWp setAt latency reaping (f a) Q t')
    : timedWp setAt latency reaping (ask c >>= f) Q t := by
  rw [timedWp, wp_bind]
  exact timed_ask waits hwaits hinterrupt h

end rules

section owner

variable {setAt : StopEvent → Option Nat} {latency reaping t : Nat} {config : Config}
variable {start timeout : Nat}

def By {α : Type} (limit : Nat) (r : Except Failure α) (t : Nat) : Prop :=
  t ≤ limit ∧ r ≠ .error .unfinished

theorem By.interrupt {α : Type} {limit : Nat} (h : t ≤ limit)
    : By (α := α) limit (.error .interrupt) t :=
  ⟨h, by simp⟩

theorem By.ok {α : Type} {limit : Nat} {a : α} (h : t ≤ limit) : By limit (.ok a) t :=
  ⟨h, by simp⟩

theorem timed_signalGroup {sig : Signal} {Q : Except Failure Unit → Nat → Prop}
    (hinterrupt : ∀ t', t ≤ t' → t' ≤ t + 2 * latency → Q (.error .interrupt) t')
    (h : ∀ t', t ≤ t' → t' ≤ t + 2 * latency → Q (.ok ()) t')
    : timedWp setAt latency reaping (signalGroup sig) Q t := by
  unfold signalGroup
  refine timed_ask_bind 0 rfl ?_ ?_
  . intro t' hle hge
    exact hinterrupt t' hle (by omega)
  intro answer t1 hle1 hge1 _
  cases answer with
  | sent => exact h t1 hle1 (by omega)
  | noSuchProcess => exact h t1 hle1 (by omega)
  | refused =>
    refine timed_ask 0 rfl ?_ ?_
    . intro t' hle hge
      exact hinterrupt t' (by omega) (by omega)
    . intro _ t' hle hge _
      exact h t' (by omega) (by omega)

theorem timed_collectStopped {Q : Except Failure (Option (Output × Int)) → Nat → Prop}
    (hinterrupt : ∀ t', t ≤ t' → t' ≤ t + 2 * config.terminationGracePeriod + 4 * latency →
      Q (.error .interrupt) t')
    (h : ∀ collected t', t ≤ t' → t' ≤ t + 2 * config.terminationGracePeriod + 4 * latency →
      Q (.ok collected) t')
    : timedWp setAt latency reaping (collectStopped config) Q t := by
  unfold collectStopped
  refine timed_ask_bind config.terminationGracePeriod rfl ?_ ?_
  . intro t' hle hge
    exact hinterrupt t' hle (by omega)
  intro collected t1 hle1 hge1 _
  cases collected with
  | some collected => exact h _ t1 hle1 (by omega)
  | none =>
    dsimp only
    rw [timedWp, wp_bind]
    apply timed_signalGroup
    . intro t' hle hge
      exact hinterrupt t' (by omega) (by omega)
    . intro t2 hle2 hge2
      refine timed_ask config.terminationGracePeriod rfl ?_ ?_
      . intro t' hle hge
        exact hinterrupt t' (by omega) (by omega)
      . intro collected t' hle hge _
        exact h collected t' (by omega) (by omega)

def InTime (timeout limit : Nat) (r : Except Failure Result) (t : Nat) : Prop :=
  By limit r t ∧ ∀ result, r = .ok result → result.timedOut = true → timeout ≤ result.duration

theorem InTime.interrupt {limit : Nat} (h : t ≤ limit)
    : InTime timeout limit (.error .interrupt) t := by
  refine ⟨.interrupt h, ?_⟩
  intro _ hr
  contradiction

theorem InTime.ok {limit : Nat} {result : Result} (h : t ≤ limit)
    (hresult : result.timedOut = true → timeout ≤ result.duration)
    : InTime timeout limit (.ok result) t := by
  refine ⟨.ok h, ?_⟩
  intro result' hr
  rw [← Except.ok.inj hr]
  exact hresult

theorem timed_ask_inTime {c : Call} {f : c.Answer → Code Result} {limit : Nat} (waits : Nat)
    (hwaits : c.waits reaping = waits) (hlimit : t + latency + waits ≤ limit)
    (h : ∀ a t', t ≤ t' → t' ≤ t + latency + waits → Says setAt c a t t' →
      timedWp setAt latency reaping (f a) (InTime timeout limit) t')
    : timedWp setAt latency reaping (ask c >>= f) (InTime timeout limit) t := by
  refine timed_ask_bind waits hwaits ?_ h
  intro t' _ hge
  exact .interrupt (Nat.le_trans hge hlimit)

theorem timed_terminateEarly {timedOut cancelled leaseLost : Bool} {limit : Nat}
    (hlimit : t + 2 * config.terminationGracePeriod + 7 * latency ≤ limit)
    (hoverrun : timedOut = true → start + timeout ≤ t)
    : timedWp setAt latency reaping (terminateEarly config start timedOut cancelled leaseLost)
        (InTime timeout limit) t := by
  unfold terminateEarly
  rw [timedWp, wp_bind]
  apply timed_signalGroup
  . intro t' _ hge
    exact .interrupt (by omega)
  intro t1 hle1 hge1
  dsimp only
  rw [wp_bind]
  apply timed_collectStopped
  . intro t' _ hge
    exact .interrupt (by omega)
  intro collected t2 hle2 hge2
  refine timed_ask_inTime 0 rfl (by omega) ?_
  intro now t3 hle3 hge3 hnow
  have hnow : t2 = now := Eq.symm hnow
  subst hnow
  apply InTime.ok (by omega)
  intro htimed
  have := hoverrun htimed
  dsimp only
  omega

theorem timed_collectAfterSupervisorEnded {code : Int} {limit : Nat}
    (hlimit : t + config.terminationGracePeriod + 4 * latency ≤ limit)
    : timedWp setAt latency reaping (collectAfterSupervisorEnded config start code)
        (InTime timeout limit) t := by
  unfold collectAfterSupervisorEnded
  rw [timedWp, wp_bind]
  apply timed_signalGroup
  . intro t' _ hge
    exact .interrupt (by omega)
  intro t1 _ hge1
  refine timed_ask_inTime config.terminationGracePeriod rfl (by omega) ?_
  intro _ t2 _ hge2 _
  refine timed_ask_inTime 0 rfl (by omega) ?_
  intro _ t3 _ hge3 _
  exact .ok (by omega) Bool.noConfusion

theorem timed_couldNotStart (e : OSError) {limit : Nat} (hlimit : t + 2 * latency ≤ limit)
    : timedWp setAt latency reaping (couldNotStart e start) (InTime timeout limit) t := by
  unfold couldNotStart
  refine timed_ask_inTime 0 rfl (by omega) ?_
  intro _ t1 _ hge1 _
  refine timed_ask_inTime 0 rfl (by omega) ?_
  intro _ t2 _ hge2 _
  exact .ok (by omega) Bool.noConfusion

theorem timed_readLaunchFailure {until_ : Nat} {f : Launch → Code Result} {limit : Nat}
    (hlimit : max t until_ + 4 * latency ≤ limit)
    (h : ∀ launch t', t ≤ t' → t' ≤ max t until_ + 4 * latency → (launch = .pending → until_ ≤ t') →
      timedWp setAt latency reaping (f launch) (InTime timeout limit) t')
    : timedWp setAt latency reaping (readLaunchFailure until_ >>= f) (InTime timeout limit) t := by
  unfold readLaunchFailure
  rw [timedWp, wp_bind]
  refine timed_ask_bind 0 rfl ?_ ?_
  . intro t' _ hge
    exact .interrupt (by omega)
  intro now t1 hle1 hge1 hnow
  have hnow : t = now := Eq.symm hnow
  subst hnow
  refine timed_ask_bind (until_ - t) rfl ?_ ?_
  . intro t' _ hge
    exact .interrupt (by omega)
  intro ready t2 hle2 hge2 hready
  cases ready with
  | false =>
    have hready := hready rfl
    exact h .pending t2 (by omega) (by omega) (by omega)
  | true =>
    refine timed_ask_bind 0 rfl ?_ ?_
    . intro t' _ hge
      exact .interrupt (by omega)
    intro status t3 hle3 hge3 _
    cases status with
    | empty => exact h .started t3 (by omega) (by omega) Launch.noConfusion
    | report e => exact h (.failed e) t3 (by omega) (by omega) Launch.noConfusion
    | garbled =>
      refine timed_ask_bind 0 rfl ?_ ?_
      . intro t' _ hge
        exact .interrupt (by omega)
      intro _ t4 hle4 hge4 _
      exact h .started t4 (by omega) (by omega) Launch.noConfusion

def roundsLeft (config : Config) (deadline : Nat) (launchPending : Bool) (t : Nat) : Nat :=
  if deadline ≤ t then
    1
  else
    (deadline - t) / config.pollInterval + 2 + launchPending.toNat

variable {deadline : Nat}

theorem roundsLeft_pos (config : Config) (deadline : Nat) (launchPending : Bool) (t : Nat)
    : 0 < roundsLeft config deadline launchPending t := by
  unfold roundsLeft
  split
  . exact Nat.one_pos
  . exact Nat.add_pos_left (Nat.succ_pos _) _

theorem roundsLeft_lt {launchPending launchPending' : Bool} {t' : Nat} (hpoll : 0 < config.pollInterval)
    (ht : t < deadline) (hle : t ≤ t')
    (h : t + min config.pollInterval (deadline - t) ≤ t' ∧ launchPending' = launchPending
      ∨ launchPending = true ∧ launchPending' = false)
    : roundsLeft config deadline launchPending' t' < roundsLeft config deadline launchPending t := by
  unfold roundsLeft
  rw [if_neg (Nat.not_le.mpr ht)]
  split
  . exact Nat.lt_add_right _ (Nat.lt_add_left _ Nat.one_lt_two)
  . next ht' =>
    rcases h with ⟨hwait, heq⟩ | ⟨hpending, hstarted⟩
    . -- a whole interval has passed, because the deadline has not
      have hpassed : t + config.pollInterval ≤ t' := by omega
      have hdiv : (deadline - t') / config.pollInterval + 1 ≤ (deadline - t) / config.pollInterval := by
        rw [← Nat.add_div_right _ hpoll]
        exact Nat.div_le_div_right (by omega)
      rw [heq]
      omega
    . have hdiv : (deadline - t') / config.pollInterval ≤ (deadline - t) / config.pollInterval :=
        Nat.div_le_div_right (by omega)
      rw [hpending, hstarted]
      simp only [Bool.toNat_false, Bool.toNat_true]
      omega

def Horizon (setAt : StopEvent → Option Nat) (config : Config) (deadline horizon : Nat) : Prop :=
  ∀ t, t < deadline → (∀ event, config.given event = true → (setAt event).any (· ≤ t) = false) →
    t + min config.pollInterval (deadline - t) ≤ horizon

theorem timed_isSet {event : StopEvent} {f : Bool → Code Result} {limit : Nat}
    (hlimit : t + latency ≤ limit)
    (h : ∀ set t', t ≤ t' → t' ≤ t + latency →
      (set = false → config.given event = true → (setAt event).any (· ≤ t) = false) →
      timedWp setAt latency reaping (f set) (InTime timeout limit) t')
    : timedWp setAt latency reaping (isSet config event >>= f) (InTime timeout limit) t := by
  unfold isSet
  split
  . refine timed_ask_bind 0 rfl ?_ ?_
    . intro t' _ hge
      exact .interrupt (by omega)
    . intro set t' hle hge hset
      have hset : set = (setAt event).any (· ≤ t) := hset
      exact h set t' hle (by omega) (fun hfalse _ => hset.symm.trans hfalse)
  . next hgiven =>
    exact h false t (Nat.le_refl _) (by omega) (fun _ h => absurd h hgiven)

theorem any_le_of_le {setAt : Option Nat} {t t' : Nat} (h : setAt.any (· ≤ t') = false) (hle : t ≤ t')
    : setAt.any (· ≤ t) = false := by
  cases setAt with
  | none => rfl
  | some at_ =>
    simp only [Option.any_some, decide_eq_false_iff_not] at h ⊢
    omega

theorem timed_waitLoop {horizon limit : Nat} (hpoll : 0 < config.pollInterval)
    (hdeadline : deadline = start + timeout) (hhorizon : Horizon setAt config deadline horizon)
    (hlimit : horizon + 2 * config.terminationGracePeriod + 19 * latency ≤ limit) (rounds : Nat)
    (launchPending : Bool) (ht : t ≤ horizon + 9 * latency)
    (hrounds : roundsLeft config deadline launchPending t ≤ rounds)
    : timedWp setAt latency reaping (waitLoop config start deadline rounds launchPending)
        (InTime timeout limit) t := by
  induction rounds generalizing t launchPending with
  | zero =>
    have := roundsLeft_pos config deadline launchPending t
    omega
  | succ rounds ih =>
    unfold waitLoop
    refine timed_ask_inTime 0 rfl (by omega) ?_
    intro now t1 hle1 hge1 hnow
    have hnow : t = now := Eq.symm hnow
    subst hnow
    split
    . next hover =>
      apply timed_terminateEarly (by omega)
      intro _
      omega
    next hbefore =>
    apply timed_isSet (by omega)
    intro lost t2 hle2 hge2 hlost
    split
    . exact timed_terminateEarly (by omega) Bool.noConfusion
    next hlost' =>
    apply timed_isSet (by omega)
    intro cancelled t3 hle3 hge3 hcancelled
    split
    . exact timed_terminateEarly (by omega) Bool.noConfusion
    next hcancelled' =>
    have hwait : t + min config.pollInterval (deadline - t) ≤ horizon := by
      apply hhorizon t (Nat.lt_of_not_le hbefore)
      intro event hgiven
      cases event with
      | leaseLost => exact any_le_of_le (hlost (Bool.eq_false_iff.mpr hlost') hgiven) (by omega)
      | cancel => exact any_le_of_le (hcancelled (Bool.eq_false_iff.mpr hcancelled') hgiven) (by omega)
    have hnext : ∀ (launchPending' : Bool) (t' : Nat), t ≤ t' →
        (t + min config.pollInterval (deadline - t) ≤ t' ∧ launchPending' = launchPending
          ∨ launchPending = true ∧ launchPending' = false) →
        roundsLeft config deadline launchPending' t' ≤ rounds := by
      intro launchPending' t' hle h
      have := roundsLeft_lt hpoll (Nat.lt_of_not_le hbefore) hle h
      omega
    dsimp only
    split
    . next hpending =>
      refine timed_ask_inTime 0 rfl (by omega) ?_
      intro now' t4 hle4 hge4 hnow'
      have hnow' : t3 = now' := Eq.symm hnow'
      subst hnow'
      apply timed_readLaunchFailure
      . omega
      intro launch t5 hle5 hge5 hlaunch
      cases launch with
      | pending =>
        have hlaunch := hlaunch rfl
        apply ih
        . omega
        . exact hnext _ _ (by omega) (.inl ⟨by omega, hpending.symm⟩)
      | started =>
        apply ih
        . omega
        . exact hnext _ _ (by omega) (.inr ⟨hpending, rfl⟩)
      | failed e =>
        dsimp only
        split
        . exact timed_couldNotStart e (by omega)
        . refine ⟨⟨by omega, by simp⟩, ?_⟩
          intro _ hr
          contradiction
    . next hpending =>
      refine timed_ask_inTime (min config.pollInterval (deadline - t)) rfl (by omega) ?_
      intro collected t4 hle4 hge4 hcollected
      cases collected with
      | some pair =>
        refine timed_ask_inTime 0 rfl (by omega) ?_
        intro _ t5 _ hge5 _
        exact .ok (by omega) Bool.noConfusion
      | none =>
        have hcollected := hcollected rfl
        refine timed_ask_inTime 0 rfl (by omega) ?_
        intro polled t5 hle5 hge5 _
        cases polled with
        | none =>
          apply ih
          . omega
          . exact hnext _ _ (by omega) (.inl ⟨by omega, (Bool.eq_false_iff.mpr hpending).symm⟩)
        | some code => exact timed_collectAfterSupervisorEnded (by omega)

theorem timed_tryFinally {p : Code Result} {cleanup : Option Failure → Code Unit} (limit : Nat)
    {limit' : Nat} (hp : timedWp setAt latency reaping p (InTime timeout limit) t)
    (hcleanup : ∀ e t', t' ≤ limit → timedWp setAt latency reaping (cleanup e) (By limit') t')
    : timedWp setAt latency reaping (tryFinally p cleanup) (InTime timeout limit') t := by
  apply wp_ensuring hp
  . rintro e t' hskips ⟨⟨_, hfinished⟩, _⟩
    rw [eq_of_beq hskips] at hfinished
    exact absurd rfl hfinished
  . rintro r e t' ⟨⟨hle, hfinished⟩, hresult⟩ _
    apply wp_mono (hcleanup e t' hle)
    rintro (e | _) t'' ⟨hle', hfinished'⟩
    . refine ⟨⟨hle', fun h => hfinished' (congrArg _ (Except.error.inj h))⟩, ?_⟩
      intro _ hr
      contradiction
    . exact ⟨⟨hle', hfinished⟩, hresult⟩

theorem timed_supervising {body : Code Result} {limit : Nat}
    (hbody : timedWp setAt latency reaping body (InTime timeout limit) t)
    : timedWp setAt latency reaping (supervising body)
        (InTime timeout (limit + reaping + 5 * latency)) t := by
  unfold supervising
  apply timed_tryFinally (limit + 4 * latency)
  . apply timed_tryFinally (limit + 2 * latency)
    . apply timed_tryFinally limit hbody
      intro _ t' ht'
      apply timed_signalGroup
      . intro t'' _ hge
        exact .interrupt (by omega)
      . intro t'' _ hge
        exact .ok (by omega)
    . intro _ t' ht'
      unfold closeDescriptors
      refine timed_ask_bind 0 rfl ?_ ?_
      . intro t'' _ hge
        exact .interrupt (by omega)
      intro _ t1 _ hge1 _
      refine timed_ask 0 rfl ?_ ?_
      . intro t'' _ hge
        exact .interrupt (by omega)
      . intro _ t'' _ hge _
        exact .ok (by omega)
  . intro e t' ht'
    unfold exitProcess
    split <;>
    . refine timed_ask reaping rfl ?_ ?_
      . intro t'' _ hge
        exact .interrupt (by omega)
      . intro _ t'' _ hge _
        exact .ok (by omega)

theorem timed_execute {horizon : Nat} (command : Option (List String)) (hpoll : 0 < config.pollInterval)
    (hhorizon : Horizon setAt config (t + timeout) horizon) (hstart : t ≤ horizon) {rounds : Nat}
    (hrounds : timeout / config.pollInterval + 3 ≤ rounds)
    : timedWp setAt latency reaping (execute config command timeout rounds)
        (InTime timeout (horizon + 2 * config.terminationGracePeriod + reaping + 24 * latency)) t := by
  cases command with
  | none => exact .ok (by omega) Bool.noConfusion
  | some command =>
    unfold execute executeCommand
    refine timed_ask_inTime 0 rfl (by omega) ?_
    intro start t1 hle1 hge1 hnow
    have hnow : t = start := Eq.symm hnow
    subst hnow
    refine timed_ask_inTime 0 rfl (by omega) ?_
    intro answer t2 hle2 hge2 _
    cases answer with
    | error e =>
      refine ⟨⟨by omega, by simp⟩, ?_⟩
      intro _ hr
      contradiction
    | ok _ =>
      have hleft : roundsLeft config (t + timeout) true t2 ≤ rounds := by
        have hdiv : (t + timeout - t2) / config.pollInterval ≤ timeout / config.pollInterval :=
          Nat.div_le_div_right (by omega)
        unfold roundsLeft
        split
        . exact Nat.le_trans (Nat.le_add_left 1 _) (Nat.le_trans (Nat.add_le_add_left (by omega) _) hrounds)
        . exact Nat.le_trans (Nat.add_le_add_right (Nat.add_le_add_right hdiv 2) 1) hrounds
      have hbody : timedWp setAt latency reaping (waitLoop config t (t + timeout) rounds true)
          (InTime timeout (horizon + 2 * config.terminationGracePeriod + 19 * latency)) t2 :=
        timed_waitLoop hpoll rfl hhorizon (Nat.le_refl _) rounds true (by omega) hleft
      apply wp_mono (timed_supervising hbody)
      rintro r t' ⟨⟨hle, hfinished⟩, hresult⟩
      exact ⟨⟨by omega, hfinished⟩, hresult⟩

end owner

def slowReply (reaping : Nat) : Reply where
  interrupt := false
  answer c :=
    match c with
    | .monotonic => (0 : Nat)
    | .startSupervised _ | .popenCommand _ => Except.ok ()
    | .isSet _ | .select _ | .leadsGroup => false
    | .readStatus => Status.empty
    | .communicate _ => (none : Option (Output × Int))
    | .poll => (none : Option Int)
    | .killpg _ => KillAnswer.sent
    | .waitCommand => (0 : Int)
    | .closeWatch | .closeStatus | .wait | .waitBriefly | .warn _ | .handleSigterm | .startWatch
    | .report _ | .closeStatusWrite | .killSelf _ | .exit _ | .readWatch | .killOwnGroup | .event _ => ()
  elapsed c := c.waits reaping

theorem prompt_slowReply (latency reaping : Nat) : Prompt latency reaping (slowReply reaping) where
  elapsed _ := Nat.le_add_left _ _
  select _ _ := Nat.le_refl _
  communicate _ _ := Nat.le_refl _

section results

variable {setAt : StopEvent → Option Nat} {latency reaping t : Nat} {config : Config}
variable {timeout rounds : Nat}

theorem execute_ends_in_time (command : Option (List String)) (hpoll : 0 < config.pollInterval)
    (hrounds : timeout / config.pollInterval + 3 ≤ rounds)
    : timedWp setAt latency reaping (execute config command timeout rounds)
        (InTime timeout (t + timeout + 2 * config.terminationGracePeriod + reaping + 24 * latency)) t := by
  apply timed_execute command hpoll _ (Nat.le_add_right _ _) hrounds
  intro t' ht' _
  omega

theorem execute_ends_in_time_default
    : Prompt 1000 2000000 (slowReply 2000000)
        ∧ timedWp (fun _ => none) 1000 2000000 (execute {} (some ["sleep"]) 10000000 53)
          (InTime 10000000 22024000) 0 :=
  ⟨prompt_slowReply _ _, execute_ends_in_time (some ["sleep"]) (by decide) (by decide)⟩

theorem preempted_in_time (command : Option (List String)) (hpoll : 0 < config.pollInterval)
    (hrounds : timeout / config.pollInterval + 3 ≤ rounds) (event : StopEvent) {at_ : Nat}
    (hgiven : config.given event = true) (hset : setAt event = some at_)
    : timedWp setAt latency reaping (execute config command timeout rounds)
        (By (max t at_ + config.pollInterval + 2 * config.terminationGracePeriod + reaping
          + 24 * latency)) t := by
  have hhorizon : Horizon setAt config (t + timeout) (max t at_ + config.pollInterval) := by
    intro t' ht' hunset
    have hbefore := hunset event hgiven
    rw [hset, Option.any_some, decide_eq_false_iff_not] at hbefore
    omega
  apply wp_mono (timed_execute command hpoll hhorizon (by omega) hrounds)
  intro r t' hr
  exact hr.left

theorem preempted_in_time_default
    : Prompt 1000 2000000 (slowReply 2000000)
        ∧ timedWp (fun _ => some 1000000) 1000 2000000 (execute {} (some ["sleep"]) 3600000000 18003)
          (By 13224000) 0 :=
  ⟨prompt_slowReply _ _,
    preempted_in_time (some ["sleep"]) (by decide) (by decide) .leaseLost rfl rfl⟩

end results

end JobExecution

end AetherGrid
