import AetherGrid.Civil.Double

/-!
This module contains the two functions of the `timedelta` class that go through a number of seconds, and the
proof that they lose nothing below 2^33 seconds.
-/

namespace Timedelta

def totalSeconds (microseconds : Int) : ℚ :=
  Double.round (microseconds / 1000000)

def ofSeconds (seconds : ℚ) : Except String Int :=
  let whole := if 0 ≤ seconds then ⌊seconds⌋ else ⌈seconds⌉
  let rest := Double.round ((seconds - whole) * 1000000)
  let microseconds := whole * 1000000 + Double.roundHalfEven rest
  let days := microseconds / 86400000000
  if |days| ≤ 999999999 then
    .ok microseconds
  else
    .error ("days=" ++ toString days ++ "; must have magnitude <= 999999999")

theorem abs_sub_whole_lt (seconds : ℚ)
    : |seconds - ((if 0 ≤ seconds then ⌊seconds⌋ else ⌈seconds⌉ : Int) : ℚ)| < 1 := by
  split
  . rw [Int.self_sub_floor, abs_of_nonneg (Int.fract_nonneg _)]
    exact Int.fract_lt_one _
  . have hle := Int.le_ceil seconds
    have hlt := Int.ceil_lt_add_one seconds
    rw [abs_lt]
    constructor <;> linarith

theorem ofSeconds_totalSeconds {t : Int} (h : |t| < 2 ^ 33 * 1000000)
    : ofSeconds (totalSeconds t) = .ok t := by
  have hq : |(t : ℚ) / 1000000| < 2 ^ (32 + 1) := by
    rw [abs_div, abs_of_pos (show (0 : ℚ) < 1000000 by norm_num), div_lt_iff₀ (by norm_num)]
    exact_mod_cast h
  have hseconds : |(t : ℚ) / 1000000 - totalSeconds t| ≤ 2 ^ 32 / 2 ^ 52 / 2 :=
    (Double.abs_sub_round_le _).trans (by linarith [Double.ulp_le hq])
  unfold ofSeconds
  dsimp only
  generalize totalSeconds t = seconds at hseconds ⊢
  have hwhole := abs_sub_whole_lt seconds
  generalize (if 0 ≤ seconds then ⌊seconds⌋ else ⌈seconds⌉) = whole at hwhole ⊢
  have hscaled : |(seconds - whole) * 1000000| < 2 ^ (19 + 1) := by
    rw [abs_mul, abs_of_pos (show (0 : ℚ) < 1000000 by norm_num)]
    norm_num
    linarith
  have hrest : |(seconds - whole) * 1000000 - Double.round ((seconds - whole) * 1000000)|
      ≤ 2 ^ 19 / 2 ^ 52 / 2 :=
    (Double.abs_sub_round_le _).trans (by linarith [Double.ulp_le hscaled])
  generalize Double.round ((seconds - whole) * 1000000) = rest at hrest ⊢
  -- the two errors together stay below one half
  have hround : Double.roundHalfEven rest = t - whole * 1000000 := by
    apply Double.roundHalfEven_eq
    push_cast
    norm_num at hseconds hrest
    rw [abs_le] at hseconds hrest
    rw [abs_lt]
    constructor <;> linarith
  rw [hround, add_sub_cancel, if_pos]
  rw [abs_lt] at h
  rw [abs_le]
  omega

example : ofSeconds (totalSeconds (2 ^ 33 * 1000000 + 1)) = .ok (2 ^ 33 * 1000000 + 2) := by
  decide +kernel

end Timedelta
