import Mathlib

/-!
This module contains the rounding of a rational to a double.
-/

namespace Double

def roundHalfEven (q : ℚ) : Int :=
  let n := ⌊q⌋
  if q - n < 1 / 2 then
    n
  else if 1 / 2 < q - n then
    n + 1
  else
    n + n % 2

def ulp (q : ℚ) : ℚ :=
  2 ^ (Int.log 2 |q| - 52)

def round (q : ℚ) : ℚ :=
  roundHalfEven (q / ulp q) * ulp q

theorem roundHalfEven_eq {q : ℚ} {n : Int} (h : |q - n| < 1 / 2) : roundHalfEven q = n := by
  rw [abs_lt] at h
  unfold roundHalfEven
  dsimp only
  rcases le_or_gt (n : ℚ) q with hle | hgt
  . have hfloor : ⌊q⌋ = n := by
      rw [Int.floor_eq_iff]
      exact ⟨hle, by linarith⟩
    rw [hfloor, if_pos (by linarith)]
  . have hfloor : ⌊q⌋ = n - 1 := by
      rw [Int.floor_eq_iff]
      push_cast
      exact ⟨by linarith, by linarith⟩
    rw [hfloor]
    push_cast
    rw [if_neg (by linarith), if_pos (by linarith)]
    omega

theorem abs_sub_roundHalfEven_le (q : ℚ) : |q - roundHalfEven q| ≤ 1 / 2 := by
  have hle := Int.floor_le q
  have hlt := Int.lt_floor_add_one q
  unfold roundHalfEven
  dsimp only
  split
  . next hhalf =>
    rw [abs_le]
    constructor <;> linarith
  . split
    . push_cast
      rw [abs_le]
      constructor <;> linarith
    . -- a tie, for which both neighbours are as near
      have htie : q - ⌊q⌋ = 1 / 2 := by linarith
      rcases Int.emod_two_eq_zero_or_one ⌊q⌋ with heven | hodd
      . rw [heven, add_zero, htie, abs_of_pos (by norm_num)]
      . rw [hodd]
        push_cast
        rw [abs_le]
        constructor <;> linarith

theorem ulp_pos (q : ℚ) : 0 < ulp q :=
  zpow_pos (by norm_num) _

theorem abs_sub_round_le (q : ℚ) : |q - round q| ≤ ulp q / 2 := by
  have hpos := ulp_pos q
  have hscaled : q - round q = (q / ulp q - roundHalfEven (q / ulp q)) * ulp q := by
    unfold round
    rw [sub_mul, div_mul_cancel₀ _ hpos.ne']
  rw [hscaled, abs_mul, abs_of_pos hpos]
  calc |q / ulp q - roundHalfEven (q / ulp q)| * ulp q
    _ ≤ 1 / 2 * ulp q := mul_le_mul_of_nonneg_right (abs_sub_roundHalfEven_le _) hpos.le
    _ = ulp q / 2 := by ring

theorem ulp_le {q : ℚ} {k : Nat} (h : |q| < 2 ^ (k + 1)) : ulp q ≤ 2 ^ k / 2 ^ 52 := by
  have hlog : Int.log 2 |q| < k + 1 := by
    rcases (abs_nonneg q).eq_or_lt with hzero | hpos
    . rw [← hzero, Int.log_zero_right]
      omega
    . rw [← Int.lt_zpow_iff_log_lt (by norm_num) hpos]
      exact_mod_cast h
  calc ulp q
    _ ≤ 2 ^ ((k : Int) - (52 : Nat)) := zpow_le_zpow_right₀ (by norm_num) (by omega)
    _ = 2 ^ k / 2 ^ 52 := by rw [zpow_sub₀ (by norm_num), zpow_natCast, zpow_natCast]

theorem roundHalfEven_intCast (n : Int) : roundHalfEven n = n :=
  roundHalfEven_eq (by simp)

theorem roundHalfEven_mono {p q : ℚ} (h : p ≤ q) : roundHalfEven p ≤ roundHalfEven q := by
  have hp := abs_le.mp (abs_sub_roundHalfEven_le p)
  have hq := abs_le.mp (abs_sub_roundHalfEven_le q)
  by_contra hlt
  have hlt : (roundHalfEven q : ℚ) + 1 ≤ roundHalfEven p := by
    exact_mod_cast not_le.mp hlt
  -- the results are the wrong way round only if both numbers are the tie between them
  have heq : p = q := by linarith
  rw [heq] at hlt
  linarith

section positive

variable {p q : ℚ}

theorem mul_ulp_eq (h : 0 < q) : ((2 ^ 52 : Int) : ℚ) * ulp q = 2 ^ Int.log 2 q := by
  unfold ulp
  rw [abs_of_pos h, zpow_sub₀ (by norm_num)]
  push_cast
  exact mul_div_cancel₀ _ (by norm_num)

theorem zpow_le_round (h : 0 < q) : 2 ^ Int.log 2 q ≤ round q := by
  have hle : ((2 ^ 52 : Int) : ℚ) ≤ q / ulp q := by
    rw [le_div_iff₀ (ulp_pos q), mul_ulp_eq h]
    exact Int.zpow_log_le_self (by norm_num) h
  have hround := roundHalfEven_mono hle
  rw [roundHalfEven_intCast] at hround
  rw [← mul_ulp_eq h]
  exact mul_le_mul_of_nonneg_right (by exact_mod_cast hround) (ulp_pos q).le

theorem round_le_zpow (h : 0 < q) : round q ≤ 2 ^ (Int.log 2 q + 1) := by
  have hpow : ((2 ^ 53 : Int) : ℚ) * ulp q = 2 ^ (Int.log 2 q + 1) := by
    rw [zpow_add_one₀ (by norm_num), ← mul_ulp_eq h]
    push_cast
    ring
  have hle : q / ulp q ≤ ((2 ^ 53 : Int) : ℚ) := by
    rw [div_le_iff₀ (ulp_pos q), hpow]
    exact (Int.lt_zpow_succ_log_self (by norm_num) q).le
  have hround := roundHalfEven_mono hle
  rw [roundHalfEven_intCast] at hround
  rw [← hpow]
  exact mul_le_mul_of_nonneg_right (by exact_mod_cast hround) (ulp_pos q).le

theorem round_le_round (hp : 0 < p) (h : p ≤ q) : round p ≤ round q := by
  have hq : 0 < q := hp.trans_le h
  rcases (Int.log_mono_right (b := 2) hp h).eq_or_lt with hlog | hlog
  . have hulp : ulp p = ulp q := by
      unfold ulp
      rw [abs_of_pos hp, abs_of_pos hq, hlog]
    unfold round
    rw [hulp]
    have hround := roundHalfEven_mono (div_le_div_of_nonneg_right h (ulp_pos q).le)
    exact mul_le_mul_of_nonneg_right (by exact_mod_cast hround) (ulp_pos q).le
  . calc round p
      _ ≤ 2 ^ (Int.log 2 p + 1) := round_le_zpow hp
      _ ≤ 2 ^ Int.log 2 q := zpow_le_zpow_right₀ (by norm_num) hlog
      _ ≤ round q := zpow_le_round hq

end positive

theorem round_nonpos {q : ℚ} (h : q ≤ 0) : round q ≤ 0 := by
  have hround := roundHalfEven_mono (div_nonpos_of_nonpos_of_nonneg h (ulp_pos q).le)
  rw [show roundHalfEven 0 = 0 from roundHalfEven_intCast 0] at hround
  exact mul_nonpos_of_nonpos_of_nonneg (by exact_mod_cast hround) (ulp_pos q).le

theorem round_two_pow (k : Nat) : round (2 ^ k) = 2 ^ k := by
  have hlog : Int.log 2 ((2 : ℚ) ^ k) = k := by
    have := Int.log_zpow (R := ℚ) (b := 2) (by norm_num) k
    exact_mod_cast this
  have hscaled := mul_ulp_eq (q := 2 ^ k) (by positivity)
  rw [hlog, zpow_natCast] at hscaled
  have hdiv : (2 : ℚ) ^ k / ulp (2 ^ k) = ((2 ^ 52 : Int) : ℚ) := by
    rw [div_eq_iff (ulp_pos _).ne', hscaled]
  unfold round
  rw [hdiv, roundHalfEven_intCast, hscaled]

end Double
