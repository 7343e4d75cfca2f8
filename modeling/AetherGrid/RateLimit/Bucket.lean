import Mathlib

/-!
This module contains token buckets over an ordered field.
-/

namespace AetherGrid

structure TokenBucket (K : Type) where
  tokens : K
  refilledAt : K
  deriving DecidableEq, Repr

namespace TokenBucket

variable {K : Type} [Field K] [LinearOrder K]

section

variable (capacity rate : K)

def full (now : K) : TokenBucket K :=
  ⟨capacity, now⟩

def refill (now : K) (bucket : TokenBucket K) : TokenBucket K :=
  ⟨min capacity (bucket.tokens + (now - bucket.refilledAt) * rate), now⟩

def Accepts (now : K) (bucket : TokenBucket K) : Prop :=
  1 ≤ (bucket.refill capacity rate now).tokens

instance (now : K) (bucket : TokenBucket K) : Decidable (bucket.Accepts capacity rate now) :=
  inferInstanceAs (Decidable (1 ≤ (bucket.refill capacity rate now).tokens))

def take (now : K) (bucket : TokenBucket K) : TokenBucket K :=
  let refilled := bucket.refill capacity rate now
  if bucket.Accepts capacity rate now then
    { refilled with tokens := refilled.tokens - 1 }
  else
    refilled

def accepted (bucket : TokenBucket K) (readings : List K) : List K :=
  match readings with
  | [] => []
  | now :: readings =>
    if bucket.Accepts capacity rate now then
      now :: (bucket.take capacity rate now).accepted readings
    else
      (bucket.take capacity rate now).accepted readings

def credit (bucket : TokenBucket K) : K :=
  bucket.tokens - bucket.refilledAt * rate

end

variable {capacity rate now : K} {bucket : TokenBucket K}

theorem take_of_accepts (h : bucket.Accepts capacity rate now)
    : bucket.take capacity rate now
        =
      { bucket.refill capacity rate now with
        tokens := (bucket.refill capacity rate now).tokens - 1 } :=
  if_pos h

theorem take_of_not_accepts (h : ¬ bucket.Accepts capacity rate now)
    : bucket.take capacity rate now = bucket.refill capacity rate now :=
  if_neg h

theorem le_capacity_of_accepts (h : bucket.Accepts capacity rate now) : 1 ≤ capacity :=
  h.trans (min_le_left _ _)

theorem accepts_iff (hcapacity : 1 ≤ capacity)
    : bucket.Accepts capacity rate now ↔ 1 ≤ bucket.credit rate + now * rate := by
  have : bucket.tokens + (now - bucket.refilledAt) * rate = bucket.credit rate + now * rate := by
    simp only [credit]
    ring
  simp only [Accepts, refill, le_min_iff, hcapacity, true_and, this]

theorem take_credit_of_not_accepts (hcapacity : 1 ≤ capacity)
    (h : ¬ bucket.Accepts capacity rate now)
    : (bucket.take capacity rate now).credit rate = bucket.credit rate := by
  have hlt : (bucket.refill capacity rate now).tokens < 1 := not_le.mp h
  simp only [refill, min_lt_iff] at hlt
  have hshort := hlt.resolve_left (not_lt.mpr hcapacity)
  rw [take_of_not_accepts h]
  simp only [credit, refill, min_eq_right (hshort.le.trans hcapacity)]
  ring

variable [IsStrictOrderedRing K]

theorem take_tokens_le (capacity rate now : K) (bucket : TokenBucket K)
    : (bucket.take capacity rate now).tokens ≤ capacity := by
  have hrefill : (bucket.refill capacity rate now).tokens ≤ capacity := min_le_left _ _
  by_cases h : bucket.Accepts capacity rate now
  . rw [take_of_accepts h]
    exact (sub_le_self _ zero_le_one).trans hrefill
  . rw [take_of_not_accepts h]
    exact hrefill

theorem refill_credit_le (capacity rate now : K) (bucket : TokenBucket K)
    : (bucket.refill capacity rate now).credit rate ≤ bucket.credit rate := by
  have := min_le_right capacity (bucket.tokens + (now - bucket.refilledAt) * rate)
  simp only [credit, refill]
  linarith

theorem take_credit_of_accepts (h : bucket.Accepts capacity rate now)
    : (bucket.take capacity rate now).credit rate + 1 ≤ bucket.credit rate := by
  have := refill_credit_le capacity rate now bucket
  rw [take_of_accepts h]
  simp only [credit] at this ⊢
  linarith

theorem take_credit_le (capacity rate now : K) (bucket : TokenBucket K)
    : (bucket.take capacity rate now).credit rate ≤ bucket.credit rate := by
  by_cases h : bucket.Accepts capacity rate now
  . have := take_credit_of_accepts h
    linarith
  . rw [take_of_not_accepts h]
    exact refill_credit_le capacity rate now bucket

theorem take_credit_le_capacity (h : bucket.Accepts capacity rate now)
    : (bucket.take capacity rate now).credit rate + 1 ≤ capacity - now * rate := by
  have hrefill : (bucket.refill capacity rate now).tokens ≤ capacity := min_le_left _ _
  rw [take_of_accepts h]
  simp only [credit]
  simp only [refill] at hrefill ⊢
  linarith

section

variable {s t : K} {readings : List K}

theorem countP_accepted_le_credit (hrate : 0 ≤ rate)
    (h : 0 < (bucket.accepted capacity rate readings).countP (fun now => s ≤ now ∧ now ≤ t))
    : ((bucket.accepted capacity rate readings).countP (fun now => s ≤ now ∧ now ≤ t) : K)
        ≤ bucket.credit rate + t * rate := by
  induction readings generalizing bucket with
  | nil => simp [accepted] at h
  | cons now readings ih =>
    by_cases haccepts : bucket.Accepts capacity rate now
    . simp only [accepted, if_pos haccepts] at h ⊢
      have htake := take_credit_of_accepts haccepts
      by_cases hwindow : s ≤ now ∧ now ≤ t
      . rw [List.countP_cons_of_pos (by simpa using hwindow), Nat.cast_succ]
        rcases Nat.eq_zero_or_pos (((bucket.take capacity rate now).accepted capacity rate
          readings).countP (fun now => s ≤ now ∧ now ≤ t)) with hnone | hsome
        . have hfirst := (accepts_iff (le_capacity_of_accepts haccepts)).mp haccepts
          have hlast : now * rate ≤ t * rate := mul_le_mul_of_nonneg_right hwindow.right hrate
          rw [hnone]
          simp only [Nat.cast_zero, zero_add]
          linarith
        . have := ih hsome
          linarith
      . rw [List.countP_cons_of_neg (by simpa using hwindow)] at h ⊢
        have := ih h
        linarith
    . simp only [accepted, if_neg haccepts] at h ⊢
      exact (ih h).trans (add_le_add_left (take_credit_le capacity rate now bucket) _)

theorem countP_accepted_le (hcapacity : 0 ≤ capacity) (hrate : 0 ≤ rate) (hwindow : s ≤ t)
    : ((bucket.accepted capacity rate readings).countP (fun now => s ≤ now ∧ now ≤ t) : K)
        ≤ capacity + rate * (t - s) := by
  have hflow : 0 ≤ rate * (t - s) := mul_nonneg hrate (sub_nonneg_of_le hwindow)
  induction readings generalizing bucket with
  | nil =>
    simp only [accepted, List.countP_nil, Nat.cast_zero]
    linarith
  | cons now readings ih =>
    by_cases haccepts : bucket.Accepts capacity rate now
    . simp only [accepted, if_pos haccepts]
      by_cases hinside : s ≤ now ∧ now ≤ t
      . rw [List.countP_cons_of_pos (by simpa using hinside), Nat.cast_succ]
        rcases Nat.eq_zero_or_pos (((bucket.take capacity rate now).accepted capacity rate
          readings).countP (fun now => s ≤ now ∧ now ≤ t)) with hnone | hsome
        . have := le_capacity_of_accepts haccepts
          rw [hnone]
          simp only [Nat.cast_zero, zero_add]
          linarith
        -- the first of them has left at most a full bucket less its own token
        . have hrest := countP_accepted_le_credit hrate hsome
          have hfirst := take_credit_le_capacity haccepts
          have := mul_le_mul_of_nonneg_right hinside.left hrate
          linarith
      . rw [List.countP_cons_of_neg (by simpa using hinside)]
        exact ih
    . simp only [accepted, if_neg haccepts]
      exact ih

end

end TokenBucket

end AetherGrid
