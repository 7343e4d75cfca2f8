import AetherGrid.Civil.Double
import AetherGrid.Prog.Guarded

/-!
This module contains the circuit breaker of the resilient client: its description by the outcomes reported
so far, which holds as long as calls are made one after the other, and what callers that share it may
expect of the trial call.
-/

namespace AetherGrid

namespace ResilientClient

inductive CircuitState where
  | closed
  | opened
  | halfOpen
  deriving DecidableEq, Repr

structure CircuitBreaker where
  failureThreshold : Nat := 5
  resetTimeoutS : ℚ := 30
  -- the field `_state`, which the property `state` brings up to date
  stored : CircuitState := .closed
  consecutiveFailures : Nat := 0
  openedAt : Option ℚ := none
  deriving DecidableEq

structure CircuitOpenError where
  resetTimeoutS : ℚ
  deriving DecidableEq

namespace CircuitBreaker

def state (now : ℚ) (breaker : CircuitBreaker) : CircuitBreaker :=
  match breaker.stored, breaker.openedAt with
  | .opened, some openedAt =>
    if breaker.resetTimeoutS ≤ Double.round (now - openedAt) then
      { breaker with stored := .halfOpen }
    else
      breaker
  | _, _ => breaker

def beforeCall (now : ℚ) (breaker : CircuitBreaker) : Except CircuitOpenError Unit × CircuitBreaker :=
  let breaker := breaker.state now
  if breaker.stored = .opened then
    (.error ⟨breaker.resetTimeoutS⟩, breaker)
  else
    (.ok (), breaker)

def onSuccess (breaker : CircuitBreaker) : CircuitBreaker :=
  { breaker with stored := .closed, consecutiveFailures := 0, openedAt := none }

def trip (now : ℚ) (breaker : CircuitBreaker) : CircuitBreaker :=
  { breaker with stored := .opened, openedAt := some now }

def onFailure (now trippedAt : ℚ) (breaker : CircuitBreaker) : CircuitBreaker :=
  let breaker := { breaker with consecutiveFailures := breaker.consecutiveFailures + 1 }
  let breaker := breaker.state now
  if breaker.stored = .halfOpen then
    breaker.trip trippedAt
  else if breaker.failureThreshold ≤ breaker.consecutiveFailures then
    breaker.trip trippedAt
  else
    breaker

variable {breaker : CircuitBreaker} {now trippedAt openedAt : ℚ}

theorem state_of_ne_opened (h : breaker.stored ≠ .opened) : breaker.state now = breaker := by
  unfold state
  split
  . next hopened _ => exact absurd hopened h
  . rfl

theorem state_of_opened (h : breaker.stored = .opened) (hat : breaker.openedAt = some openedAt)
    : breaker.state now
        =
      if breaker.resetTimeoutS ≤ Double.round (now - openedAt) then
        { breaker with stored := .halfOpen }
      else
        breaker := by
  unfold state
  rw [h, hat]

theorem beforeCall_of_opened (h : (breaker.state now).stored = .opened)
    : breaker.beforeCall now = (.error ⟨breaker.resetTimeoutS⟩, breaker.state now) := by
  have htimeout : (breaker.state now).resetTimeoutS = breaker.resetTimeoutS := by
    unfold state
    split
    . split <;> rfl
    . rfl
  simp only [beforeCall, h, if_true, htimeout]

theorem beforeCall_of_ne_opened (h : (breaker.state now).stored ≠ .opened)
    : breaker.beforeCall now = (.ok (), breaker.state now) := by
  simp only [beforeCall, h, if_false]

theorem onFailure_eq (h : breaker.stored ≠ .opened)
    : breaker.onFailure now trippedAt
        =
      if breaker.stored = .halfOpen ∨ breaker.failureThreshold ≤ breaker.consecutiveFailures + 1 then
        { breaker with
          consecutiveFailures := breaker.consecutiveFailures + 1
          stored := .opened
          openedAt := some trippedAt }
      else
        { breaker with consecutiveFailures := breaker.consecutiveFailures + 1 } := by
  unfold onFailure
  have hstate : { breaker with consecutiveFailures := breaker.consecutiveFailures + 1 }.state now
      = { breaker with consecutiveFailures := breaker.consecutiveFailures + 1 } :=
    state_of_ne_opened h
  simp only [hstate]
  by_cases hhalf : breaker.stored = .halfOpen
  . simp only [hhalf, true_or, if_true, trip]
  . simp only [hhalf, false_or, if_false, trip]

end CircuitBreaker

inductive Ending where
  | success
  | failure (now trippedAt : ℚ)
  | neither

structure Call where
  now : ℚ
  ending : Ending

inductive Report where
  | success
  | failure (reportedAt : ℚ)
  deriving DecidableEq

def Report.isFailure (report : Report) : Bool :=
  match report with
  | .success => false
  | .failure _ => true

def Report.failedAt (report : Report) : Option ℚ :=
  match report with
  | .success => none
  | .failure reportedAt => some reportedAt

structure History where
  breaker : CircuitBreaker
  reports : List Report := []
  readings : List ℚ := []

def History.call (history : History) (call : Call) : History :=
  let (admitted, breaker) := history.breaker.beforeCall call.now
  let history := { history with breaker, readings := call.now :: history.readings }
  match admitted, call.ending with
  | .error _, _ => history
  | .ok _, .neither => history
  | .ok _, .success =>
    { history with breaker := breaker.onSuccess, reports := .success :: history.reports }
  | .ok _, .failure now trippedAt =>
    { breaker := breaker.onFailure now trippedAt
      reports := .failure trippedAt :: history.reports
      readings := trippedAt :: now :: history.readings }

def failuresSinceSuccess (reports : List Report) : Nat :=
  (reports.takeWhile (·.isFailure)).length

def lastFailure (reports : List Report) : Option ℚ :=
  reports.findSome? (·.failedAt)

structure History.Tracks (failureThreshold : Nat) (resetTimeoutS : ℚ) (history : History) : Prop where
  threshold : history.breaker.failureThreshold = failureThreshold
  timeout : history.breaker.resetTimeoutS = resetTimeoutS
  failures : history.breaker.consecutiveFailures = failuresSinceSuccess history.reports
  closed : failuresSinceSuccess history.reports < failureThreshold → history.breaker.stored = .closed
  -- the breaker has tripped at the last failure, and half opens at some later reading
  tripped : failureThreshold ≤ failuresSinceSuccess history.reports →
    ∃ last, lastFailure history.reports = some last
      ∧ history.breaker.openedAt = some last
      ∧ (history.breaker.stored = .opened
        ∨ history.breaker.stored = .halfOpen
          ∧ ∃ reading ∈ history.readings, resetTimeoutS ≤ Double.round (reading - last))

variable {failureThreshold : Nat} {resetTimeoutS : ℚ} {history : History}

theorem tracks_new (hthreshold : 1 ≤ failureThreshold)
    : History.Tracks failureThreshold resetTimeoutS
        { breaker := { failureThreshold, resetTimeoutS } } := by
  refine ⟨rfl, rfl, rfl, fun _ => rfl, ?_⟩
  intro htripped
  exact absurd (hthreshold.trans htripped) (by simp [failuresSinceSuccess])

theorem History.Tracks.read (h : history.Tracks failureThreshold resetTimeoutS) (now : ℚ)
    : History.Tracks failureThreshold resetTimeoutS
        { history with
          breaker := history.breaker.state now
          readings := now :: history.readings } := by
  by_cases htripped : failureThreshold ≤ failuresSinceSuccess history.reports
  . have ⟨last, hlast, hopenedAt, hstored⟩ := h.tripped htripped
    rcases hstored with hopened | ⟨hhalf, reading, hreading, helapsed⟩
    . rw [CircuitBreaker.state_of_opened hopened hopenedAt]
      split
      . next helapsed =>
        rw [h.timeout] at helapsed
        refine ⟨h.threshold, h.timeout, h.failures, ?_, ?_⟩
        . intro hbelow
          exact absurd htripped (not_le.mpr hbelow)
        . intro _
          exact ⟨last, hlast, hopenedAt, .inr ⟨rfl, now, List.mem_cons_self, helapsed⟩⟩
      . refine ⟨h.threshold, h.timeout, h.failures, h.closed, ?_⟩
        intro _
        exact ⟨last, hlast, hopenedAt, .inl hopened⟩
    . rw [CircuitBreaker.state_of_ne_opened (by simp [hhalf])]
      refine ⟨h.threshold, h.timeout, h.failures, h.closed, ?_⟩
      intro _
      exact ⟨last, hlast, hopenedAt, .inr ⟨hhalf, reading, List.mem_cons_of_mem _ hreading, helapsed⟩⟩
  . have hclosed := h.closed (not_le.mp htripped)
    rw [CircuitBreaker.state_of_ne_opened (by simp [hclosed])]
    exact ⟨h.threshold, h.timeout, h.failures, h.closed, fun h => absurd h htripped⟩

theorem History.Tracks.success (hthreshold : 1 ≤ failureThreshold)
    (h : history.Tracks failureThreshold resetTimeoutS)
    : History.Tracks failureThreshold resetTimeoutS
        { history with
          breaker := history.breaker.onSuccess
          reports := .success :: history.reports } := by
  refine ⟨h.threshold, h.timeout, rfl, fun _ => rfl, ?_⟩
  intro htripped
  exact absurd (hthreshold.trans htripped) (by simp [failuresSinceSuccess, Report.isFailure])

theorem History.Tracks.failure (h : history.Tracks failureThreshold resetTimeoutS)
    (hadmitted : history.breaker.stored ≠ .opened) (now trippedAt : ℚ)
    : History.Tracks failureThreshold resetTimeoutS
        { breaker := history.breaker.onFailure now trippedAt
          reports := .failure trippedAt :: history.reports
          readings := trippedAt :: now :: history.readings } := by
  have hcount : failuresSinceSuccess (.failure trippedAt :: history.reports)
      = failuresSinceSuccess history.reports + 1 := rfl
  -- half open, the threshold was reached long ago
  have htrips : history.breaker.stored = .halfOpen
        ∨ history.breaker.failureThreshold ≤ history.breaker.consecutiveFailures + 1
      ↔ failureThreshold ≤ failuresSinceSuccess history.reports + 1 := by
    rw [h.threshold, h.failures]
    refine or_iff_right_of_imp ?_
    intro hhalf
    by_contra hbelow
    have := h.closed (by omega)
    rw [hhalf] at this
    contradiction
  rw [CircuitBreaker.onFailure_eq hadmitted]
  simp only [htrips]
  split
  . next htripped =>
    refine ⟨h.threshold, h.timeout, ?_, ?_, ?_⟩
    . rw [hcount, ← h.failures]
    . intro hbelow
      simp only [hcount] at hbelow
      omega
    . intro _
      exact ⟨trippedAt, rfl, rfl, .inl rfl⟩
  . next hbelow =>
    refine ⟨h.threshold, h.timeout, ?_, ?_, ?_⟩
    . rw [hcount, ← h.failures]
    . intro _
      exact h.closed (by omega)
    . intro htripped
      exact absurd htripped hbelow

theorem History.Tracks.call (hthreshold : 1 ≤ failureThreshold)
    (h : history.Tracks failureThreshold resetTimeoutS) (call : Call)
    : (history.call call).Tracks failureThreshold resetTimeoutS := by
  have hread := h.read call.now
  unfold History.call
  by_cases hopened : (history.breaker.state call.now).stored = .opened
  . rw [CircuitBreaker.beforeCall_of_opened hopened]
    exact hread
  . rw [CircuitBreaker.beforeCall_of_ne_opened hopened]
    cases call.ending with
    | neither => exact hread
    | success => exact hread.success hthreshold
    | failure now trippedAt => exact hread.failure hopened now trippedAt

def History.run (failureThreshold : Nat) (resetTimeoutS : ℚ) (calls : List Call) : History :=
  calls.foldl History.call { breaker := { failureThreshold, resetTimeoutS } }

theorem tracks_run (hthreshold : 1 ≤ failureThreshold) (resetTimeoutS : ℚ) (calls : List Call)
    : (History.run failureThreshold resetTimeoutS calls).Tracks failureThreshold resetTimeoutS :=
  List.foldlRecOn calls History.call (tracks_new hthreshold)
    (fun _ h call _ => h.call hthreshold call)

theorem History.Tracks.opened_iff {t : ℚ} (htimeout : 0 < resetTimeoutS)
    (h : history.Tracks failureThreshold resetTimeoutS)
    (hclock : ∀ reading ∈ history.readings, reading ≤ t)
    : (history.breaker.state t).stored = .opened
        ↔
      failureThreshold ≤ failuresSinceSuccess history.reports
        ∧ ∃ last, lastFailure history.reports = some last
            ∧ Double.round (t - last) < resetTimeoutS := by
  by_cases htripped : failureThreshold ≤ failuresSinceSuccess history.reports
  . have ⟨last, hlast, hopenedAt, hstored⟩ := h.tripped htripped
    simp only [htripped, true_and, hlast, Option.some.injEq, exists_eq_left']
    rcases hstored with hopened | ⟨hhalf, reading, hreading, helapsed⟩
    . rw [CircuitBreaker.state_of_opened hopened hopenedAt, h.timeout]
      split
      . next helapsed => simpa using helapsed
      . next helapsed => simpa [hopened] using helapsed
    . have := hclock reading hreading
      rw [CircuitBreaker.state_of_ne_opened (by simp [hhalf]), hhalf]
      simp only [reduceCtorEq, false_iff, not_lt]
      -- a difference that rounds to the timeout is positive, and rounding keeps the order of those
      have hpos : 0 < reading - last := by
        by_contra hneg
        have := Double.round_nonpos (not_lt.mp hneg)
        linarith
      exact helapsed.trans (Double.round_le_round hpos (by linarith))
  . have hclosed := h.closed (not_le.mp htripped)
    rw [CircuitBreaker.state_of_ne_opened (by simp [hclosed]), hclosed]
    simp [htripped]

theorem rejects_iff_closed_form {calls : List Call} {t : ℚ} (hthreshold : 1 ≤ failureThreshold)
    (htimeout : 0 < resetTimeoutS)
    (hclock : (t :: (History.run failureThreshold resetTimeoutS calls).readings).Pairwise (· ≥ ·))
    : (∃ exc, ((History.run failureThreshold resetTimeoutS calls).breaker.beforeCall t).1 = .error exc)
        ↔
      failureThreshold ≤ failuresSinceSuccess (History.run failureThreshold resetTimeoutS calls).reports
        ∧ ∃ last, lastFailure (History.run failureThreshold resetTimeoutS calls).reports = some last
            ∧ Double.round (t - last) < resetTimeoutS := by
  have htracks := tracks_run hthreshold resetTimeoutS calls
  rw [← htracks.opened_iff htimeout (List.pairwise_cons.mp hclock).left]
  by_cases hopened : ((History.run failureThreshold resetTimeoutS calls).breaker.state t).stored = .opened
  . simp [CircuitBreaker.beforeCall_of_opened hopened, hopened]
  . simp [CircuitBreaker.beforeCall_of_ne_opened hopened, hopened]

theorem rejects_iff_closed_form_reopened
    : let calls : List Call :=
        [⟨0, .failure 1 1⟩, ⟨2, .failure 3 3⟩, ⟨10, .success⟩, ⟨34, .neither⟩, ⟨64, .failure 65 65⟩]
      (94 :: (History.run 2 30 calls).readings).Pairwise (· ≥ ·)
        ∧ ((∃ exc, ((History.run 2 30 calls).breaker.beforeCall 94).1 = .error exc)
            ↔
          2 ≤ failuresSinceSuccess (History.run 2 30 calls).reports
            ∧ ∃ last, lastFailure (History.run 2 30 calls).reports = some last
                ∧ Double.round (94 - last) < 30) := by
  intro calls
  have hclock : (94 :: (History.run 2 30 calls).readings).Pairwise (· ≥ ·) := by decide +kernel
  exact ⟨hclock, rejects_iff_closed_form (by decide) (by norm_num) hclock⟩

theorem admits_before_timeout
    : let last := Double.round (2 / 10)
      let t := Double.round (302 / 10)
      let history := History.run 1 30 [⟨0, .failure last last⟩]
      (t :: history.readings).Pairwise (· ≥ ·)
        ∧ 1 ≤ failuresSinceSuccess history.reports
        ∧ lastFailure history.reports = some last
        ∧ t - last < 30
        ∧ (history.breaker.beforeCall t).1 = .ok () := by
  decide +kernel

structure InFlight where
  id : Nat
  admittedIn : CircuitState
  deriving DecidableEq

structure Shared where
  breaker : CircuitBreaker
  inFlight : List InFlight := []

inductive SharedEvent where
  | begin (id : Nat) (now : ℚ)
  | finish (id : Nat) (ending : Ending)

def Ending.report (ending : Ending) (breaker : CircuitBreaker) : CircuitBreaker :=
  match ending with
  | .success => breaker.onSuccess
  | .failure now trippedAt => breaker.onFailure now trippedAt
  | .neither => breaker

def Shared.step (s : Shared) (event : SharedEvent) : Shared :=
  match event with
  | .begin id now =>
    if s.inFlight.any (·.id = id) then
      s
    else
      let (admitted, breaker) := s.breaker.beforeCall now
      match admitted with
      | .error _ => { s with breaker }
      | .ok _ => { breaker, inFlight := s.inFlight ++ [⟨id, breaker.stored⟩] }
  | .finish id ending =>
    if s.inFlight.any (·.id = id) then
      { breaker := ending.report s.breaker
        inFlight := s.inFlight.filter (·.id ≠ id) }
    else
      s

def Shared.OneTrial (s : Shared) : Prop :=
  s.inFlight.Pairwise (fun earlier _ => earlier.admittedIn ≠ .halfOpen)

instance (s : Shared) : Decidable s.OneTrial :=
  inferInstanceAs (Decidable (s.inFlight.Pairwise _))

def SharedEvent.Patient (s : Shared) (event : SharedEvent) : Prop :=
  match event with
  | .begin _ _ => s.breaker.stored = .closed ∨ s.inFlight = []
  | .finish _ _ => True

def Shared.TrialAlone (s : Shared) : Prop :=
  ∀ trial ∈ s.inFlight, trial.admittedIn = .halfOpen →
    s.inFlight = [trial] ∧ s.breaker.stored ≠ .closed

variable {s : Shared}

theorem Shared.TrialAlone.oneTrial (h : s.TrialAlone) : s.OneTrial := by
  unfold Shared.OneTrial
  by_cases htrial : ∃ trial ∈ s.inFlight, trial.admittedIn = .halfOpen
  . have ⟨trial, hmem, hhalf⟩ := htrial
    rw [(h trial hmem hhalf).left]
    exact List.pairwise_singleton _ _
  . simp only [not_exists, not_and] at htrial
    exact List.pairwise_of_forall_mem_list (fun earlier hearlier _ _ => htrial earlier hearlier)

theorem Shared.TrialAlone.begins {id : Nat} {now : ℚ} (h : s.TrialAlone)
    (hpatient : s.breaker.stored = .closed ∨ s.inFlight = [])
    : Shared.TrialAlone
        { breaker := s.breaker.state now
          inFlight := s.inFlight ++ [⟨id, (s.breaker.state now).stored⟩] } := by
  intro trial htrial hhalf
  rcases hpatient with hclosed | hnone
  -- a closed breaker admits calls as they come, and none of them is a trial
  . rw [CircuitBreaker.state_of_ne_opened (by simp [hclosed])] at htrial
    simp only [List.mem_append, List.mem_singleton] at htrial
    rcases htrial with hold | hnew
    . exact absurd hclosed (h trial hold hhalf).right
    . rw [hnew, hclosed] at hhalf
      contradiction
  . simp only [hnone, List.nil_append, List.mem_singleton] at htrial ⊢
    rw [htrial] at hhalf ⊢
    simp only at hhalf
    exact ⟨rfl, by simp [hhalf]⟩

theorem Shared.TrialAlone.finish {id : Nat} {ending : Ending} (h : s.TrialAlone)
    (hin : s.inFlight.any (·.id = id))
    : Shared.TrialAlone
        { breaker := ending.report s.breaker, inFlight := s.inFlight.filter (·.id ≠ id) } := by
  intro trial htrial hhalf
  simp only [List.mem_filter] at htrial
  have halone := (h trial htrial.left hhalf).left
  simp [halone] at hin
  simp [hin] at htrial

theorem Shared.TrialAlone.step {event : SharedEvent} (h : s.TrialAlone) (hpatient : event.Patient s)
    : (s.step event).TrialAlone := by
  cases event with
  | begin id now =>
    simp only [Shared.step]
    split
    . exact h
    . by_cases hopened : (s.breaker.state now).stored = .opened
      . rw [CircuitBreaker.beforeCall_of_opened hopened]
        intro trial htrial hhalf
        exact ⟨(h trial htrial hhalf).left, by simp [hopened]⟩
      . rw [CircuitBreaker.beforeCall_of_ne_opened hopened]
        exact h.begins hpatient
  | finish id ending =>
    simp only [Shared.step]
    split
    . next hin => exact h.finish hin
    . exact h

theorem one_trial_of_patient {breaker : CircuitBreaker} {events : List SharedEvent}
    (hpatient : Guarded Shared.step (fun s event => event.Patient s) { breaker } events)
    : (events.foldl Shared.step { breaker }).OneTrial := by
  have hnone : Shared.TrialAlone { breaker } := nofun
  have hstep : ∀ (s : Shared) (event : SharedEvent), s.TrialAlone → event.Patient s →
      (s.step event).TrialAlone :=
    fun _ _ h hallowed => h.step hallowed
  exact (hpatient.invariant hstep hnone).oneTrial

theorem one_trial_of_patient_trial
    : let events : List SharedEvent :=
        [.begin 1 0, .begin 2 0, .finish 1 (.failure 1 1), .finish 2 .neither, .begin 3 31]
      Guarded Shared.step (fun s event => event.Patient s)
          { breaker := { failureThreshold := 1 } } events
        ∧ (events.foldl Shared.step { breaker := { failureThreshold := 1 } }).OneTrial := by
  intro events
  have hpatient : Guarded Shared.step (fun s event => event.Patient s)
      { breaker := { failureThreshold := 1 } } events := by
    refine ⟨.inl rfl, .inl rfl, trivial, trivial, .inr ?_, trivial⟩
    decide +kernel
  exact ⟨hpatient, one_trial_of_patient hpatient⟩

theorem two_trials
    : ¬ (List.foldl Shared.step { breaker := { failureThreshold := 1 } }
        [.begin 1 0, .finish 1 (.failure 1 1), .begin 2 31, .begin 3 31]).OneTrial := by
  decide +kernel

end ResilientClient

end AetherGrid
