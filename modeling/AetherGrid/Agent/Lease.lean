import AetherGrid.Domain.Basic

/-!
This module contains the standalone agent: how it comes to see a lease, and the thread of `run_job` that
renews the lease and decides when it is lost.
-/

namespace AetherGrid

namespace Agent

def pollIntervalSeconds : ℚ := 5

def leaseDurationSeconds : ℚ := defaultLeaseDuration / seconds 1

def renewalIntervalSeconds : ℚ := leaseDurationSeconds / 3

def backoffBaseSeconds : ℚ := 1

def backoffCapSeconds : ℚ := 30

def maxBackoffExponent : Nat := 10

def intervalJitterFraction : ℚ := 1 / 5

def leaseAgeMarginSeconds : ℚ := pollIntervalSeconds

def leaseTrustWindowSeconds : ℚ := leaseDurationSeconds - leaseAgeMarginSeconds

inductive HttpError where
  | status (code : Nat) (retryAfter : Option ℚ)
  | transport
  | other
  deriving DecidableEq

def isTransient (exc : HttpError) : Bool :=
  match exc with
  | .status code _ => code = 429 || 500 ≤ code
  | .transport => true
  | .other => false

def retryAfterSeconds (exc : HttpError) : Option ℚ :=
  match exc with
  | .status _ (some value) => if 0 ≤ value then some value else none
  | _ => none

def backoffDelaySeconds (attempt : Nat) (retryAfter : Option ℚ) (draw : ℚ) : ℚ :=
  let exponent := min attempt maxBackoffExponent
  let ceiling := min backoffCapSeconds (backoffBaseSeconds * 2 ^ exponent)
  let jittered := ceiling * draw
  max jittered (retryAfter.getD 0)

def jitteredIntervalSeconds (base draw : ℚ) : ℚ :=
  let spread := base * intervalJitterFraction
  base - spread + (base + spread - (base - spread)) * draw

inductive Reply where
  | response (code : Nat) (retryAfter : Option ℚ) (jobStatus : Option JobStatus)
  | transportError
  | otherError

def renewLease (reply : Reply) : Except HttpError (Bool × Option JobStatus) :=
  match reply with
  | .response code retryAfter jobStatus =>
    if code = 409 then
      .ok (false, none)
    else if 200 ≤ code ∧ code < 300 then
      .ok (true, jobStatus)
    else
      .error (.status code retryAfter)
  | .transportError => .error .transport
  | .otherError => .error .other

inductive Phase where
  | waiting (due : ℚ)
  | renewing (attemptedAt : ℚ)
  | lost
  | stopped
  deriving DecidableEq

structure Renewals where
  now : ℚ
  lastConfirmedAt : ℚ
  attempt : Nat
  cancelRequested : Bool
  phase : Phase

def Renewals.answered (s : Renewals) (attemptedAt : ℚ) (reply : Reply) (draw : ℚ) : Renewals :=
  match renewLease reply with
  | .error exc =>
    let trustDeadline := s.lastConfirmedAt + leaseTrustWindowSeconds
    if !isTransient exc || trustDeadline ≤ s.now then
      { s with phase := .lost }
    else
      let delay := backoffDelaySeconds s.attempt (retryAfterSeconds exc) draw
      let wait := min delay (trustDeadline - s.now)
      { s with attempt := s.attempt + 1, phase := .waiting (s.now + wait) }
  | .ok (leaseOk, jobStatus) =>
    if !leaseOk then
      { s with attempt := 0, phase := .lost }
    else
      { s with
        attempt := 0
        lastConfirmedAt := attemptedAt
        cancelRequested := s.cancelRequested || jobStatus = some .cancelling
        phase := .waiting (s.now + renewalIntervalSeconds) }

structure World where
  agent : Renewals
  expiry : ℚ

def World.Trusting (s : World) : Prop :=
  s.agent.phase ≠ .lost ∧ s.agent.phase ≠ .stopped

def Phase.Allows (latency : ℚ) (phase : Phase) (time : ℚ) : Prop :=
  match phase with
  | .waiting due => time ≤ due
  | .renewing attemptedAt => time ≤ attemptedAt + latency
  | .lost | .stopped => True

def expiryAfter (expiry processedAt : ℚ) (reply : Reply) : ℚ :=
  match renewLease reply with
  | .ok (true, _) => processedAt + leaseDurationSeconds
  | _ => expiry

inductive Step (latency : ℚ) : World → World → Prop
  | elapse (s : World) (d : ℚ) (hd : 0 ≤ d) (hallows : s.agent.phase.Allows latency (s.agent.now + d))
    : Step latency s { s with agent := { s.agent with now := s.agent.now + d } }
  | send (s : World) (hphase : s.agent.phase = .waiting s.agent.now)
    : Step latency s { s with agent := { s.agent with phase := .renewing s.agent.now } }
  -- the server works on the request at some moment between the two ends of it
  | answer (s : World) (attemptedAt processedAt draw : ℚ) (reply : Reply)
      (hphase : s.agent.phase = .renewing attemptedAt)
      (hprocessed : attemptedAt ≤ processedAt ∧ processedAt ≤ s.agent.now)
      (hdraw : 0 ≤ draw ∧ draw ≤ 1)
    : Step latency s
        { agent := s.agent.answered attemptedAt reply draw
          expiry := expiryAfter s.expiry processedAt reply }
  | finish (s : World) : Step latency s { s with agent := { s.agent with phase := .stopped } }

def Reaches (latency : ℚ) : World → World → Prop :=
  Relation.ReflTransGen (Step latency)

structure Handover (latency : ℚ) where
  previousReadAt : ℚ
  previousAnsweredAt : ℚ
  draw : ℚ
  acquiredAt : ℚ
  readAt : ℚ
  seenAt : ℚ
  startedAt : ℚ
  hprevious : previousReadAt ≤ previousAnsweredAt ∧ previousAnsweredAt ≤ previousReadAt + latency
  hdraw : 0 ≤ draw ∧ draw ≤ 1
  hacquired : previousReadAt < acquiredAt ∧ acquiredAt ≤ readAt
  hread : previousAnsweredAt + jitteredIntervalSeconds pollIntervalSeconds draw ≤ readAt
  hseen : readAt ≤ seenAt
    ∧ seenAt ≤ previousAnsweredAt + jitteredIntervalSeconds pollIntervalSeconds draw + latency
  hstarted : seenAt ≤ startedAt ∧ startedAt ≤ seenAt + latency

def runJob {latency : ℚ} (handover : Handover latency) : World where
  agent :=
    { now := handover.startedAt
      lastConfirmedAt := handover.startedAt
      attempt := 0
      cancelRequested := false
      phase := .waiting (handover.startedAt + renewalIntervalSeconds) }
  expiry := handover.acquiredAt + leaseDurationSeconds

variable {latency : ℚ}

theorem leaseDurationSeconds_eq : leaseDurationSeconds = 30 := by
  norm_num [leaseDurationSeconds, defaultLeaseDuration, seconds]

theorem renewalIntervalSeconds_eq : renewalIntervalSeconds = 10 := by
  norm_num [renewalIntervalSeconds, leaseDurationSeconds_eq]

theorem leaseAgeMarginSeconds_eq : leaseAgeMarginSeconds = 5 := rfl

theorem leaseTrustWindowSeconds_eq : leaseTrustWindowSeconds = 25 := by
  norm_num [leaseTrustWindowSeconds, leaseDurationSeconds_eq, leaseAgeMarginSeconds_eq]

theorem Handover.latency_nonneg (handover : Handover latency) : 0 ≤ latency := by
  have := handover.hprevious
  linarith

theorem Handover.acquiredAt_le (handover : Handover latency)
    : handover.acquiredAt ≤ handover.startedAt := by
  have := handover.hacquired
  have := handover.hseen
  have := handover.hstarted
  linarith

structure Covered (latency : ℚ) (s : World) : Prop where
  expiry : s.agent.lastConfirmedAt + leaseTrustWindowSeconds + latency ≤ s.expiry
  waiting : ∀ due, s.agent.phase = .waiting due →
    s.agent.now ≤ due ∧ due ≤ s.agent.lastConfirmedAt + leaseTrustWindowSeconds
  renewing : ∀ attemptedAt, s.agent.phase = .renewing attemptedAt →
    s.agent.now ≤ attemptedAt + latency
      ∧ attemptedAt ≤ s.agent.lastConfirmedAt + leaseTrustWindowSeconds

theorem Covered.now_le {s : World} (h : Covered latency s) (hlatency : 0 ≤ latency) (htrusting : s.Trusting)
    : s.agent.now ≤ s.expiry := by
  have := h.expiry
  cases hphase : s.agent.phase with
  | waiting due =>
    have := h.waiting due hphase
    linarith
  | renewing attemptedAt =>
    have := h.renewing attemptedAt hphase
    linarith
  | lost => exact absurd hphase htrusting.left
  | stopped => exact absurd hphase htrusting.right

theorem covered_runJob (handover : Handover latency)
    (h : handover.startedAt + latency ≤ handover.acquiredAt + leaseAgeMarginSeconds)
    : Covered latency (runJob handover) := by
  rw [leaseAgeMarginSeconds_eq] at h
  refine ⟨?_, ?_, ?_⟩
  . simp only [runJob, leaseTrustWindowSeconds_eq, leaseDurationSeconds_eq]
    linarith
  . rintro due ⟨⟩
    simp only [runJob, leaseTrustWindowSeconds_eq, renewalIntervalSeconds_eq]
    constructor <;> linarith
  . intro attemptedAt hphase
    contradiction

theorem Covered.idle {s : World} {agent : Renewals} (h : Covered latency s)
    (hconfirmed : agent.lastConfirmedAt = s.agent.lastConfirmedAt)
    (hphase : agent.phase = .lost ∨ agent.phase = .stopped)
    : Covered latency { s with agent } := by
  refine ⟨?_, ?_, ?_⟩
  . simpa [hconfirmed] using h.expiry
  . intro due hwaiting
    simp only at hwaiting
    simp [hwaiting] at hphase
  . intro attemptedAt hrenewing
    simp only at hrenewing
    simp [hrenewing] at hphase

theorem backoffDelaySeconds_nonneg (attempt : Nat) (retryAfter : Option ℚ) {draw : ℚ}
    (hdraw : 0 ≤ draw) : 0 ≤ backoffDelaySeconds attempt retryAfter draw := by
  unfold backoffDelaySeconds
  refine le_max_of_le_left (mul_nonneg ?_ hdraw)
  simp only [backoffCapSeconds, backoffBaseSeconds, one_mul, le_inf_iff]
  constructor <;> positivity

theorem Covered.answer {s : World} {attemptedAt processedAt draw : ℚ} {reply : Reply}
    (h : Covered latency s) (hlatency : latency ≤ leaseAgeMarginSeconds)
    (hphase : s.agent.phase = .renewing attemptedAt) (hprocessed : attemptedAt ≤ processedAt)
    (hdraw : 0 ≤ draw)
    : Covered latency
        { agent := s.agent.answered attemptedAt reply draw
          expiry := expiryAfter s.expiry processedAt reply } := by
  have ⟨hnow, _⟩ := h.renewing attemptedAt hphase
  simp only [Renewals.answered, expiryAfter]
  match renewLease reply with
  | .error exc =>
    simp only
    split
    . exact h.idle rfl (.inl rfl)
    . next hretry =>
      simp only [Bool.or_eq_true, Bool.not_eq_eq_eq_not, Bool.not_true, decide_eq_true_eq, not_or,
        not_le] at hretry
      refine ⟨h.expiry, ?_, nofun⟩
      rintro due ⟨⟩
      have hdelay := backoffDelaySeconds_nonneg s.agent.attempt (retryAfterSeconds exc) hdraw
      have hwait := le_min hdelay (sub_nonneg_of_le hretry.right.le)
      constructor
      . exact le_add_of_nonneg_right hwait
      . rw [← le_sub_iff_add_le']
        exact min_le_right _ _
  | .ok (false, jobStatus) => exact h.idle rfl (.inl rfl)
  | .ok (true, jobStatus) =>
    rw [leaseAgeMarginSeconds_eq] at hlatency
    refine ⟨?_, ?_, nofun⟩
    . simp only [Bool.not_true, Bool.false_eq_true, if_false, leaseTrustWindowSeconds_eq,
        leaseDurationSeconds_eq]
      linarith
    . rintro due ⟨⟩
      simp only [Bool.not_true, Bool.false_eq_true, if_false, leaseTrustWindowSeconds_eq,
        renewalIntervalSeconds_eq]
      constructor <;> linarith

theorem Covered.step {s s' : World} (h : Covered latency s)
    (hlatency : latency ≤ leaseAgeMarginSeconds) (hnonneg : 0 ≤ latency) (hstep : Step latency s s')
    : Covered latency s' := by
  cases hstep with
  | elapse d hd hallows =>
    refine ⟨h.expiry, ?_, ?_⟩
    . intro due hphase
      simp only at hphase
      rw [hphase] at hallows
      exact ⟨hallows, (h.waiting due hphase).right⟩
    . intro attemptedAt hphase
      simp only at hphase
      rw [hphase] at hallows
      exact ⟨hallows, (h.renewing attemptedAt hphase).right⟩
  | send hphase =>
    refine ⟨h.expiry, nofun, ?_⟩
    rintro attemptedAt ⟨⟩
    exact ⟨le_add_of_nonneg_right hnonneg, (h.waiting _ hphase).right⟩
  | answer attemptedAt processedAt draw reply hphase hprocessed hdraw =>
    exact h.answer hlatency hphase hprocessed.left hdraw.left
  | finish => exact h.idle rfl (.inr rfl)

theorem Reaches.attempt {s : World} {due : ℚ} (hphase : s.agent.phase = .waiting due)
    (hdue : s.agent.now ≤ due)
    : Reaches latency s { s with agent := { s.agent with now := due, phase := .renewing due } } := by
  have hnow : s.agent.now + (due - s.agent.now) = due := add_sub_cancel _ _
  have hallows : s.agent.phase.Allows latency (s.agent.now + (due - s.agent.now)) := by
    rw [hphase, hnow]
    exact le_refl due
  have helapse := Step.elapse s (due - s.agent.now) (sub_nonneg_of_le hdue) hallows
  rw [hnow] at helapse
  exact .tail (.single helapse) (.send _ hphase)

def retrying (handover : Handover latency) : World where
  agent :=
    { now := handover.startedAt + renewalIntervalSeconds
      lastConfirmedAt := handover.startedAt
      attempt := 1
      cancelRequested := false
      phase := .waiting (handover.startedAt + leaseTrustWindowSeconds) }
  expiry := handover.acquiredAt + leaseDurationSeconds

theorem reaches_retrying (handover : Handover latency)
    : Reaches latency (runJob handover) (retrying handover) := by
  have hfirst : Reaches latency (runJob handover) _ :=
    .attempt rfl (by simp [runJob, renewalIntervalSeconds_eq])
  refine hfirst.tail ?_
  have hagent : Renewals.answered
      { (runJob handover).agent with
        now := handover.startedAt + renewalIntervalSeconds
        phase := .renewing (handover.startedAt + renewalIntervalSeconds) }
      (handover.startedAt + renewalIntervalSeconds) (.response 503 (some 30) none) 0
      = (retrying handover).agent := by
    simp only [runJob, retrying, Renewals.answered, renewLease, isTransient, retryAfterSeconds,
      backoffDelaySeconds, leaseTrustWindowSeconds_eq, renewalIntervalSeconds_eq]
    norm_num
    ring
  have hworld : retrying handover = ⟨_, expiryAfter (runJob handover).expiry
      (handover.startedAt + renewalIntervalSeconds) (.response 503 (some 30) none)⟩ :=
    congrArg (World.mk · _) hagent.symm
  rw [hworld]
  exact .answer _ _ _ 0 _ rfl ⟨le_refl _, le_refl _⟩ ⟨le_refl _, zero_le_one⟩

theorem reaches_worst (handover : Handover latency)
    : ∃ s, Reaches latency (runJob handover) s
        ∧ s.Trusting
        ∧ s.agent.now = handover.startedAt + leaseTrustWindowSeconds + latency
        ∧ s.expiry = handover.acquiredAt + leaseDurationSeconds := by
  have hlast : Reaches latency (retrying handover) _ := .attempt rfl (by
    simp only [retrying, leaseTrustWindowSeconds_eq, renewalIntervalSeconds_eq]
    linarith)
  refine ⟨_, ((reaches_retrying handover).trans hlast).tail (.elapse _ latency ?_ ?_), ?_, rfl, rfl⟩
  . exact handover.latency_nonneg
  . exact le_refl _
  . exact ⟨nofun, nofun⟩

theorem trust_ends_before_expiry_iff (handover : Handover latency)
    : (∀ s, Reaches latency (runJob handover) s → s.Trusting → s.agent.now ≤ s.expiry)
        ↔
      handover.startedAt - handover.acquiredAt + latency ≤ leaseAgeMarginSeconds := by
  constructor
  . intro hsafe
    have ⟨s, hreaches, htrusting, hnow, hexpiry⟩ := reaches_worst handover
    have := hsafe s hreaches htrusting
    rw [hnow, hexpiry, leaseTrustWindowSeconds] at this
    linarith
  . intro hmargin s hreaches
    have hnonneg := handover.latency_nonneg
    have hlatency : latency ≤ leaseAgeMarginSeconds := by
      have := handover.acquiredAt_le
      linarith
    have hcovered : Covered latency s := by
      induction hreaches with
      | refl => exact covered_runJob handover (by linarith)
      | tail _ hstep ih => exact ih.step hlatency hnonneg hstep
    exact hcovered.now_le hnonneg

def promptHandover : Handover 1 where
  previousReadAt := 0
  previousAnsweredAt := 0
  draw := 1
  acquiredAt := 3
  readAt := 6
  seenAt := 6
  startedAt := 6
  hprevious := by norm_num
  hdraw := by norm_num
  hacquired := by norm_num
  hread := by norm_num [jitteredIntervalSeconds, pollIntervalSeconds, intervalJitterFraction]
  hseen := by norm_num [jitteredIntervalSeconds, pollIntervalSeconds, intervalJitterFraction]
  hstarted := by norm_num

theorem promptHandover_within_lease
    : ∀ s, Reaches 1 (runJob promptHandover) s → s.Trusting → s.agent.now ≤ s.expiry := by
  apply (trust_ends_before_expiry_iff promptHandover).mpr
  norm_num [promptHandover, leaseAgeMarginSeconds, pollIntervalSeconds]

def lateHandover : Handover 10 where
  previousReadAt := 0
  previousAnsweredAt := 0
  draw := 1
  acquiredAt := 1 / 2
  readAt := 6
  seenAt := 6
  startedAt := 6
  hprevious := by norm_num
  hdraw := by norm_num
  hacquired := by norm_num
  hread := by norm_num [jitteredIntervalSeconds, pollIntervalSeconds, intervalJitterFraction]
  hseen := by norm_num [jitteredIntervalSeconds, pollIntervalSeconds, intervalJitterFraction]
  hstarted := by norm_num

theorem lateHandover_outlives_lease
    : ∃ s, Reaches 10 (runJob lateHandover) s ∧ s.Trusting ∧ s.expiry < s.agent.now := by
  have ⟨s, hreaches, htrusting, hnow, hexpiry⟩ := reaches_worst lateHandover
  refine ⟨s, hreaches, htrusting, ?_⟩
  rw [hnow, hexpiry, leaseTrustWindowSeconds_eq, leaseDurationSeconds_eq]
  norm_num [lateHandover]

end Agent

end AetherGrid
