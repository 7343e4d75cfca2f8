import Mathlib

/-!
This module contains the datetimes of the Gregorian calendar in UTC, as the `datetime` class has them, their
texts in the format of `isoformat()`, and the proof that the texts are ordered as the instants are.
-/

namespace Civil

-- the decimal digits of `n`, with zeros in front up to the given width
def padded (width n : Nat) : List Char :=
  (Nat.toDigits 10 n).leftpad width '0'

section padded

variable {width n m : Nat}

theorem length_padded (hwidth : 0 < width) (h : n < 10 ^ width) : (padded width n).length = width := by
  have hlength := (Nat.length_toDigits_le_iff (b := 10) (by decide) hwidth).mpr h
  simp [padded, List.leftpad]
  omega

theorem padded_one (h : n < 10) : padded 1 n = [n.digitChar] := by
  simp [padded, List.leftpad, Nat.toDigits_of_lt_base h]

theorem padded_succ (hwidth : 0 < width) (n : Nat)
    : padded (width + 1) n = padded width (n / 10) ++ [(n % 10).digitChar] := by
  unfold padded List.leftpad
  by_cases hn : n < 10
  . have hdiv : n / 10 = 0 := by omega
    have hmod : n % 10 = n := by omega
    rw [hdiv, hmod, Nat.toDigits_of_lt_base hn, Nat.toDigits_zero]
    obtain ⟨k, rfl⟩ : ∃ k, width = k + 1 := ⟨width - 1, by omega⟩
    simp [List.replicate_succ']
  . rw [Nat.toDigits_of_base_le (by decide) (by omega)]
    have hlength : (Nat.toDigits 10 (n / 10) ++ [(n % 10).digitChar]).length
        = (Nat.toDigits 10 (n / 10)).length + 1 := by simp
    rw [hlength, Nat.add_sub_add_right, List.append_assoc]

theorem digitChar_lt (hn : n < m) (hm : m < 10) : n.digitChar < m.digitChar := by
  have hall : ∀ m : Fin 10, ∀ n : Fin 10, n < m → n.val.digitChar < m.val.digitChar := by decide
  exact hall ⟨m, hm⟩ ⟨n, by omega⟩ hn

end padded

section lexicographic

variable {α : Type} [LT α]

theorem append_lt_append {l l' : List α} (hlength : l.length = l'.length) (h : l < l') (r r' : List α)
    : l ++ r < l' ++ r' := by
  induction l generalizing l' with
  | nil =>
    have : l' = [] := by simpa using hlength.symm
    subst this
    exact absurd h (List.not_lt_nil [])
  | cons a l ih =>
    cases l' with
    | nil => simp at hlength
    | cons b l' =>
      rw [List.cons_lt_cons_iff] at h
      rw [List.cons_append, List.cons_append, List.cons_lt_cons_iff]
      rcases h with hab | ⟨hab, hrest⟩
      . exact .inl hab
      . exact .inr ⟨hab, ih (by simpa using hlength) hrest⟩

end lexicographic

theorem padded_lt {width n m : Nat} (hwidth : 0 < width) (hm : m < 10 ^ width) (h : n < m)
    : padded width n < padded width m := by
  induction width generalizing n m with
  | zero => contradiction
  | succ width ih =>
    cases width with
    | zero =>
      rw [padded_one (by omega), padded_one (by omega), List.cons_lt_cons_iff]
      exact .inl (digitChar_lt h (by omega))
    | succ width =>
      have hsucc := Nat.succ_pos width
      have hpow : 10 ^ (width + 1 + 1) = 10 ^ (width + 1) * 10 := Nat.pow_succ ..
      rw [padded_succ hsucc n, padded_succ hsucc m]
      by_cases hdiv : n / 10 < m / 10
      . apply append_lt_append
        . rw [length_padded hsucc (by omega), length_padded hsucc (by omega)]
        . exact ih hsucc (by omega) hdiv
      . have heq : n / 10 = m / 10 := by omega
        rw [heq]
        apply List.append_left_lt
        rw [List.cons_lt_cons_iff]
        exact .inl (digitChar_lt (by omega) (by omega))

theorem padded_append_lt_iff {width n m : Nat} (hwidth : 0 < width) (hn : n < 10 ^ width)
    (hm : m < 10 ^ width) (r r' : List Char)
    : padded width n ++ r < padded width m ++ r' ↔ n < m ∨ n = m ∧ r < r' := by
  have hlength : (padded width n).length = (padded width m).length := by
    rw [length_padded hwidth hn, length_padded hwidth hm]
  rcases Nat.lt_trichotomy n m with hlt | heq | hgt
  . have := append_lt_append hlength (padded_lt hwidth hm hlt) r r'
    simp [this, hlt]
  . subst heq
    simp only [lt_irrefl, true_and, false_or]
    constructor
    . intro h
      by_contra hnot
      rcases lt_or_eq_of_le (not_lt.mp hnot) with hlt | heq
      . exact lt_asymm h (List.append_left_lt hlt)
      . rw [heq] at h
        exact lt_irrefl _ h
    . exact List.append_left_lt
  . have := append_lt_append hlength.symm (padded_lt hwidth hn hgt) r' r
    have hnot := lt_asymm this
    simp only [hnot, false_iff]
    omega

def isLeap (year : Nat) : Bool :=
  year % 4 = 0 ∧ (year % 100 ≠ 0 ∨ year % 400 = 0)

def daysInMonth (leap : Bool) (month : Nat) : Nat :=
  match month with
  | 2 => if leap then 29 else 28
  | 4 | 6 | 9 | 11 => 30
  | _ => 31

def daysBeforeMonth (leap : Bool) (month : Nat) : Nat :=
  ((List.range' 1 (month - 1)).map (daysInMonth leap)).sum

def daysBeforeYear (year : Nat) : Nat :=
  (year - 1) * 365 + (year - 1) / 4 - (year - 1) / 100 + (year - 1) / 400

theorem daysBeforeYear_succ {year : Nat} (h : 1 ≤ year)
    : daysBeforeYear (year + 1) = daysBeforeYear year + 365 + (isLeap year).toNat := by
  obtain ⟨k, rfl⟩ : ∃ k, year = k + 1 := ⟨year - 1, by omega⟩
  have hcentury : k / 100 ≤ k := Nat.div_le_self ..
  unfold daysBeforeYear isLeap
  simp only [Nat.add_sub_cancel, Nat.succ_div, Nat.dvd_iff_mod_eq_zero]
  by_cases hleap : (k + 1) % 4 = 0 ∧ ((k + 1) % 100 ≠ 0 ∨ (k + 1) % 400 = 0)
  . rw [decide_eq_true hleap, Bool.toNat_true]
    split_ifs <;> omega
  . rw [decide_eq_false hleap, Bool.toNat_false]
    split_ifs <;> omega

theorem daysBeforeYear_mono : Monotone daysBeforeYear := by
  apply monotone_nat_of_le_succ
  intro year
  cases year with
  | zero => exact le_refl _
  | succ year =>
    rw [daysBeforeYear_succ (Nat.le_add_left 1 year)]
    omega

theorem daysBeforeMonth_succ (leap : Bool) {month : Nat} (h : 1 ≤ month)
    : daysBeforeMonth leap (month + 1) = daysBeforeMonth leap month + daysInMonth leap month := by
  obtain ⟨k, rfl⟩ : ∃ k, month = k + 1 := ⟨month - 1, by omega⟩
  unfold daysBeforeMonth
  rw [Nat.add_sub_cancel, Nat.add_sub_cancel, List.range'_1_concat, List.map_append, List.sum_append,
    Nat.add_comm 1 k]
  simp

theorem daysBeforeMonth_mono (leap : Bool) : Monotone (daysBeforeMonth leap) := by
  apply monotone_nat_of_le_succ
  intro month
  cases month with
  | zero => exact le_refl _
  | succ month =>
    rw [daysBeforeMonth_succ leap (Nat.le_add_left 1 month)]
    omega

theorem daysBeforeMonth_thirteen (leap : Bool) : daysBeforeMonth leap 13 = 365 + leap.toNat := by
  cases leap <;> rfl

theorem daysBeforeMonth_lt (leap : Bool) {month month' day : Nat} (hmonth : 1 ≤ month)
    (h : month < month') (hday : day ≤ daysInMonth leap month)
    : daysBeforeMonth leap month + day ≤ daysBeforeMonth leap month' := by
  have hsucc := daysBeforeMonth_succ leap hmonth
  have hmono := daysBeforeMonth_mono leap (Nat.succ_le_of_lt h)
  rw [Nat.succ_eq_add_one] at hmono
  omega

theorem daysBeforeMonth_le (leap : Bool) {month day : Nat} (hmonth : 1 ≤ month) (hmonth' : month ≤ 12)
    (hday : day ≤ daysInMonth leap month)
    : daysBeforeMonth leap month + day ≤ 365 + leap.toNat := by
  rw [← daysBeforeMonth_thirteen]
  exact daysBeforeMonth_lt leap hmonth (Nat.lt_succ_of_le hmonth') hday

end Civil

open Civil

structure Datetime where
  year : Nat
  month : Nat
  day : Nat
  hour : Nat
  minute : Nat
  second : Nat
  microsecond : Nat
  hyear : 1 ≤ year ∧ year ≤ 9999
  hmonth : 1 ≤ month ∧ month ≤ 12
  hday : 1 ≤ day ∧ day ≤ daysInMonth (isLeap year) month
  hhour : hour < 24
  hminute : minute < 60
  hsecond : second < 60
  hmicrosecond : microsecond < 1000000
  deriving DecidableEq

namespace Datetime

def toOrdinal (d : Datetime) : Nat :=
  daysBeforeYear d.year + daysBeforeMonth (isLeap d.year) d.month + d.day

def secondOfDay (d : Datetime) : Nat :=
  (d.hour * 60 + d.minute) * 60 + d.second

def timestamp (d : Datetime) : Int :=
  ((d.toOrdinal * 86400 + d.secondOfDay) * 1000000 + d.microsecond : Nat) - 719163 * 86400 * 1000000

variable {d d' : Datetime}

theorem secondOfDay_lt (d : Datetime) : d.secondOfDay < 86400 := by
  have := d.hhour
  have := d.hminute
  have := d.hsecond
  unfold secondOfDay
  omega

theorem toOrdinal_lt_of_year (h : d.year < d'.year) : d.toOrdinal < d'.toOrdinal := by
  have hdays := daysBeforeMonth_le (isLeap d.year) d.hmonth.left d.hmonth.right d.hday.right
  have hsucc := daysBeforeYear_succ d.hyear.left
  have hmono := daysBeforeYear_mono h
  have hday := d'.hday.left
  unfold toOrdinal
  rw [Nat.succ_eq_add_one] at hmono
  omega

theorem toOrdinal_lt_of_month (hyear : d.year = d'.year) (h : d.month < d'.month)
    : d.toOrdinal < d'.toOrdinal := by
  have hdays := daysBeforeMonth_lt (isLeap d.year) d.hmonth.left h d.hday.right
  have hday := d'.hday.left
  unfold toOrdinal
  rw [← hyear]
  omega

theorem toOrdinal_lt_iff
    : d.toOrdinal < d'.toOrdinal
        ↔
      d.year < d'.year
        ∨ d.year = d'.year ∧ (d.month < d'.month ∨ d.month = d'.month ∧ d.day < d'.day) := by
  rcases Nat.lt_trichotomy d.year d'.year with hyear | hyear | hyear
  . simp [hyear, toOrdinal_lt_of_year hyear]
  . rcases Nat.lt_trichotomy d.month d'.month with hmonth | hmonth | hmonth
    . simp [hyear, hmonth, toOrdinal_lt_of_month hyear hmonth]
    . have hsame : d.toOrdinal < d'.toOrdinal ↔ d.day < d'.day := by
        unfold toOrdinal
        rw [hyear, hmonth]
        omega
      simp [hyear, hmonth, hsame]
    . have := toOrdinal_lt_of_month hyear.symm hmonth
      constructor <;> omega
  . have := toOrdinal_lt_of_year hyear
    constructor <;> omega

theorem toOrdinal_eq_iff
    : d.toOrdinal = d'.toOrdinal ↔ d.year = d'.year ∧ d.month = d'.month ∧ d.day = d'.day := by
  have hlt := @toOrdinal_lt_iff d d'
  have hgt := @toOrdinal_lt_iff d' d
  omega

theorem timestamp_lt_iff
    : d.timestamp < d'.timestamp
        ↔
      d.year < d'.year ∨ d.year = d'.year ∧ (d.month < d'.month ∨ d.month = d'.month ∧
        (d.day < d'.day ∨ d.day = d'.day ∧ (d.hour < d'.hour ∨ d.hour = d'.hour ∧
          (d.minute < d'.minute ∨ d.minute = d'.minute ∧ (d.second < d'.second ∨ d.second = d'.second ∧
            d.microsecond < d'.microsecond))))) := by
  have hlt := @toOrdinal_lt_iff d d'
  have heq := @toOrdinal_eq_iff d d'
  have hfields : d.timestamp < d'.timestamp
      ↔ d.toOrdinal < d'.toOrdinal ∨ d.toOrdinal = d'.toOrdinal ∧ (d.secondOfDay < d'.secondOfDay
        ∨ d.secondOfDay = d'.secondOfDay ∧ d.microsecond < d'.microsecond) := by
    have := d.secondOfDay_lt
    have := d'.secondOfDay_lt
    have := d.hmicrosecond
    have := d'.hmicrosecond
    unfold timestamp
    omega
  have hsecond : d.secondOfDay < d'.secondOfDay
      ↔ d.hour < d'.hour ∨ d.hour = d'.hour ∧ (d.minute < d'.minute ∨ d.minute = d'.minute
        ∧ d.second < d'.second) := by
    have := d.hminute
    have := d'.hminute
    have := d.hsecond
    have := d'.hsecond
    unfold secondOfDay
    omega
  have hsecondEq : d.secondOfDay = d'.secondOfDay
      ↔ d.hour = d'.hour ∧ d.minute = d'.minute ∧ d.second = d'.second := by
    have := d.hminute
    have := d'.hminute
    have := d.hsecond
    have := d'.hsecond
    unfold secondOfDay
    omega
  rw [hfields, hlt, heq, hsecond, hsecondEq]
  simp only [and_or_left, or_assoc, and_assoc]

def fraction (microsecond : Nat) : List Char :=
  if microsecond = 0 then [] else '.' :: padded 6 microsecond

def offset : List Char :=
  ['+', '0', '0', ':', '0', '0']

def isoformat (d : Datetime) : String :=
  String.ofList <|
    padded 4 d.year ++ '-' :: (padded 2 d.month ++ '-' :: (padded 2 d.day ++ 'T' ::
      (padded 2 d.hour ++ ':' :: (padded 2 d.minute ++ ':' :: (padded 2 d.second ++
        (fraction d.microsecond ++ offset))))))

theorem fraction_lt_iff {n m : Nat} (hn : n < 1000000) (hm : m < 1000000)
    : fraction n ++ offset < fraction m ++ offset ↔ n < m := by
  have hplus : ('+' : Char) < '.' := by decide
  unfold fraction
  split
  . next hzero =>
    split
    . next hzero' => simp [hzero, hzero']
    . next hpos =>
      have hlt : 0 < m := by omega
      simp [offset, List.cons_lt_cons_iff, hplus, hzero, hlt]
  . next hpos =>
    split
    . next hzero =>
      have hnot : ¬('.' : Char) < '+' := by decide
      simp [offset, List.cons_lt_cons_iff, hnot, hzero]
    . next hpos' =>
      simp only [List.cons_append, List.cons_lt_cons_self]
      rw [padded_append_lt_iff (by decide) hn hm]
      simp

theorem day_le (d : Datetime) : d.day ≤ 31 := by
  have hdays : ∀ leap month, daysInMonth leap month ≤ 31 := by
    intro leap month
    unfold daysInMonth
    split
    . split <;> decide
    all_goals decide
  exact d.hday.right.trans (hdays ..)

theorem isoformat_lt_iff : d.isoformat < d'.isoformat ↔ d.timestamp < d'.timestamp := by
  have hyear := d.hyear
  have hyear' := d'.hyear
  have hmonth := d.hmonth
  have hmonth' := d'.hmonth
  have hday := d.day_le
  have hday' := d'.day_le
  have hhour := d.hhour
  have hhour' := d'.hhour
  have hminute := d.hminute
  have hminute' := d'.hminute
  have hsecond := d.hsecond
  have hsecond' := d'.hsecond
  rw [String.lt_iff, timestamp_lt_iff]
  unfold isoformat
  rw [String.toList_ofList, String.toList_ofList,
    padded_append_lt_iff (by decide) (by omega) (by omega), List.cons_lt_cons_self,
    padded_append_lt_iff (by decide) (by omega) (by omega), List.cons_lt_cons_self,
    padded_append_lt_iff (by decide) (by omega) (by omega), List.cons_lt_cons_self,
    padded_append_lt_iff (by decide) (by omega) (by omega), List.cons_lt_cons_self,
    padded_append_lt_iff (by decide) (by omega) (by omega), List.cons_lt_cons_self,
    padded_append_lt_iff (by decide) (by omega) (by omega),
    fraction_lt_iff d.hmicrosecond d'.hmicrosecond]

def new (year month day hour minute second microsecond : Nat) : Option Datetime :=
  if h : ((1 ≤ year ∧ year ≤ 9999) ∧ (1 ≤ month ∧ month ≤ 12)
      ∧ (1 ≤ day ∧ day ≤ daysInMonth (isLeap year) month))
      ∧ hour < 24 ∧ minute < 60 ∧ second < 60 ∧ microsecond < 1000000 then
    some
      { year, month, day, hour, minute, second, microsecond
        hyear := h.left.left
        hmonth := h.left.right.left
        hday := h.left.right.right
        hhour := h.right.left
        hminute := h.right.right.left
        hsecond := h.right.right.right.left
        hmicrosecond := h.right.right.right.right }
  else
    none

theorem new_fields (d : Datetime)
    : new d.year d.month d.day d.hour d.minute d.second d.microsecond = some d := by
  unfold new
  rw [dif_pos ⟨⟨d.hyear, d.hmonth, d.hday⟩, d.hhour, d.hminute, d.hsecond, d.hmicrosecond⟩]

section parse

def field (width : Nat) (text : List Char) : Option (Nat × List Char) :=
  let digits := text.take width
  if digits.length = width ∧ digits.all Char.isDigit then
    some (Nat.ofDigitChars 10 digits 0, text.drop width)
  else
    none

def expect (c : Char) (text : List Char) : Option (List Char) :=
  match text with
  | [] => none
  | c' :: rest => if c' = c then some rest else none

def fractionOf (text : List Char) : Option (Nat × List Char) :=
  match text with
  | '.' :: rest => field 6 rest
  | _ => some (0, text)

def fromisoformat (text : String) : Option Datetime := do
  let (year, rest) ← field 4 text.toList
  let rest ← expect '-' rest
  let (month, rest) ← field 2 rest
  let rest ← expect '-' rest
  let (day, rest) ← field 2 rest
  let rest ← expect 'T' rest
  let (hour, rest) ← field 2 rest
  let rest ← expect ':' rest
  let (minute, rest) ← field 2 rest
  let rest ← expect ':' rest
  let (second, rest) ← field 2 rest
  let (microsecond, rest) ← fractionOf rest
  if rest = offset then
    new year month day hour minute second microsecond
  else
    none

theorem field_padded {width n : Nat} (hwidth : 0 < width) (h : n < 10 ^ width) (rest : List Char)
    : field width (padded width n ++ rest) = some (n, rest) := by
  have hlength := length_padded hwidth h
  have hdigits : ∀ c ∈ padded width n, c.isDigit = true := by
    intro c hc
    unfold padded List.leftpad at hc
    rw [List.mem_append, List.mem_replicate] at hc
    rcases hc with ⟨_, rfl⟩ | hc
    . rfl
    . exact Nat.isDigit_of_mem_toDigits (by decide) (by decide) hc
  have hvalue : Nat.ofDigitChars 10 (padded width n) 0 = n := by
    unfold padded List.leftpad
    rw [Nat.ofDigitChars_append, Nat.ofDigitChars_replicate_zero, Nat.mul_zero,
      Nat.ofDigitChars_ten_toDigits]
  unfold field
  rw [List.take_left' hlength, List.drop_left' hlength]
  dsimp only
  rw [if_pos ⟨hlength, List.all_eq_true.mpr hdigits⟩, hvalue]

@[simp]
theorem expect_cons (c : Char) (rest : List Char) : expect c (c :: rest) = some rest := by
  simp [expect]

theorem fractionOf_fraction {n : Nat} (h : n < 1000000)
    : fractionOf (fraction n ++ offset) = some (n, offset) := by
  unfold fraction
  split
  . next hzero =>
    rw [hzero]
    rfl
  . exact field_padded (by decide) h offset

theorem fromisoformat_isoformat (d : Datetime) : fromisoformat d.isoformat = some d := by
  have hyear := d.hyear
  have hmonth := d.hmonth
  have hday := d.day_le
  have hhour := d.hhour
  have hminute := d.hminute
  have hsecond := d.hsecond
  unfold fromisoformat isoformat
  -- the steps that give a field and those that give only the rest
  rw [Option.bind_eq_bind, Option.bind_eq_bind]
  rw [String.toList_ofList, field_padded (by decide) (by omega), Option.bind_some]
  dsimp only
  rw [expect_cons, Option.bind_some, field_padded (by decide) (by omega), Option.bind_some]
  dsimp only
  rw [expect_cons, Option.bind_some, field_padded (by decide) (by omega), Option.bind_some]
  dsimp only
  rw [expect_cons, Option.bind_some, field_padded (by decide) (by omega), Option.bind_some]
  dsimp only
  rw [expect_cons, Option.bind_some, field_padded (by decide) (by omega), Option.bind_some]
  dsimp only
  rw [expect_cons, Option.bind_some, field_padded (by decide) (by omega), Option.bind_some]
  dsimp only
  rw [fractionOf_fraction d.hmicrosecond, Option.bind_some]
  dsimp only
  rw [if_pos rfl, new_fields]

end parse

section ofTimestamp

def yearOfDay (n : Nat) : Nat × Nat :=
  let century := min (n % 146097 / 36524) 3
  let rest := n % 146097 - 36524 * century
  let year := min (rest % 1461 / 365) 3
  (400 * (n / 146097) + 100 * century + 4 * (rest / 1461) + year + 1, rest % 1461 - 365 * year)

def monthOfDay (leap : Bool) (fuel month n : Nat) : Nat × Nat :=
  match fuel with
  | 0 => (month, n + 1)
  | fuel + 1 =>
    if n < daysInMonth leap month then
      (month, n + 1)
    else
      monthOfDay leap fuel (month + 1) (n - daysInMonth leap month)

theorem yearOfDay_spec (n : Nat)
    : 1 ≤ (yearOfDay n).1
        ∧ daysBeforeYear (yearOfDay n).1 + (yearOfDay n).2 = n
        ∧ (yearOfDay n).2 < 365 + (isLeap (yearOfDay n).1).toNat := by
  unfold yearOfDay
  dsimp only
  generalize hcycle : n / 146097 = a
  generalize hcentury : min (n % 146097 / 36524) 3 = b
  generalize hrest : n % 146097 - 36524 * b = rest
  generalize hquad : rest / 1461 = c
  generalize hyear : min (rest % 1461 / 365) 3 = e
  have hb : b ≤ 3 := by omega
  have hc : c ≤ 24 := by omega
  have he : e ≤ 3 := by omega
  have hday : n = 146097 * a + 36524 * b + 1461 * c + rest % 1461 := by omega
  have hdays : rest % 1461 - 365 * e ≤ 365 := by omega
  have hlast : rest % 1461 - 365 * e = 365 → e = 3 ∧ (c ≠ 24 ∨ b = 3) := by omega
  have hleap : isLeap (400 * a + 100 * b + 4 * c + e + 1) = decide (e = 3 ∧ (c ≠ 24 ∨ b = 3)) := by
    unfold isLeap
    rw [decide_eq_decide]
    omega
  have hbefore : daysBeforeYear (400 * a + 100 * b + 4 * c + e + 1)
      = 146097 * a + 36524 * b + 1461 * c + 365 * e := by
    unfold daysBeforeYear
    have h4 : (400 * a + 100 * b + 4 * c + e + 1 - 1) / 4 = 100 * a + 25 * b + c := by omega
    have h100 : (400 * a + 100 * b + 4 * c + e + 1 - 1) / 100 = 4 * a + b := by omega
    have h400 : (400 * a + 100 * b + 4 * c + e + 1 - 1) / 400 = a := by omega
    rw [h4, h100, h400]
    omega
  refine ⟨by omega, by omega, ?_⟩
  rw [hleap]
  by_cases hlong : e = 3 ∧ (c ≠ 24 ∨ b = 3)
  . rw [decide_eq_true hlong, Bool.toNat_true]
    omega
  . rw [decide_eq_false hlong, Bool.toNat_false]
    have : rest % 1461 - 365 * e ≠ 365 := fun h => hlong (hlast h)
    omega

theorem monthOfDay_spec_of_fuel (leap : Bool) {fuel month n : Nat} (hmonth : 1 ≤ month)
    (hfuel : month + fuel = 12) (h : daysBeforeMonth leap month + n < 365 + leap.toNat)
    : (1 ≤ (monthOfDay leap fuel month n).1 ∧ (monthOfDay leap fuel month n).1 ≤ 12)
        ∧ (1 ≤ (monthOfDay leap fuel month n).2
          ∧ (monthOfDay leap fuel month n).2 ≤ daysInMonth leap (monthOfDay leap fuel month n).1)
        ∧ daysBeforeMonth leap (monthOfDay leap fuel month n).1 + (monthOfDay leap fuel month n).2
          = daysBeforeMonth leap month + n + 1 := by
  have hsucc := daysBeforeMonth_succ leap hmonth
  induction fuel generalizing month n with
  | zero =>
    obtain rfl : month = 12 := hfuel
    rw [daysBeforeMonth_thirteen] at hsucc
    unfold monthOfDay
    dsimp only
    omega
  | succ fuel ih =>
    unfold monthOfDay
    split
    . dsimp only
      omega
    . have hsum : daysBeforeMonth leap (month + 1) + (n - daysInMonth leap month)
          = daysBeforeMonth leap month + n := by omega
      rw [← hsum]
      apply ih
      . omega
      . omega
      . omega
      . exact daysBeforeMonth_succ leap (Nat.le_add_left 1 month)

theorem monthOfDay_spec (leap : Bool) {n : Nat} (h : n < 365 + leap.toNat)
    : (1 ≤ (monthOfDay leap 11 1 n).1 ∧ (monthOfDay leap 11 1 n).1 ≤ 12)
        ∧ (1 ≤ (monthOfDay leap 11 1 n).2
          ∧ (monthOfDay leap 11 1 n).2 ≤ daysInMonth leap (monthOfDay leap 11 1 n).1)
        ∧ daysBeforeMonth leap (monthOfDay leap 11 1 n).1 + (monthOfDay leap 11 1 n).2 = n + 1 := by
  have hzero : daysBeforeMonth leap 1 = 0 := rfl
  have := @monthOfDay_spec_of_fuel leap 11 1 n (Nat.le_refl 1) rfl (by omega)
  rw [hzero, Nat.zero_add] at this
  exact this

def ofTimestamp (t : Int) : Option Datetime :=
  let passed := t + 719162 * 86400 * 1000000
  if passed < 0 then
    none
  else
    let second := passed.toNat / 1000000
    let (year, n) := yearOfDay (second / 86400)
    let (month, day) := monthOfDay (isLeap year) 11 1 n
    new year month day (second % 86400 / 3600) (second % 3600 / 60) (second % 60) (passed.toNat % 1000000)

theorem new_eq_some {year month day hour minute second microsecond : Nat}
    (h : new year month day hour minute second microsecond = some d)
    : d.year = year ∧ d.month = month ∧ d.day = day ∧ d.hour = hour ∧ d.minute = minute
        ∧ d.second = second ∧ d.microsecond = microsecond := by
  unfold new at h
  split at h
  . injection h with h
    subst h
    exact ⟨rfl, rfl, rfl, rfl, rfl, rfl, rfl⟩
  . contradiction

theorem timestamp_of_ofTimestamp {t : Int} (h : ofTimestamp t = some d) : d.timestamp = t := by
  unfold ofTimestamp at h
  dsimp only at h
  split at h
  . contradiction
  . next hpassed =>
    obtain ⟨hyear, hmonth, hday, hhour, hminute, hsecond, hmicrosecond⟩ := new_eq_some h
    generalize hn : (t + 719162 * 86400 * 1000000).toNat = passed at *
    obtain ⟨_, hdays, hlt⟩ := yearOfDay_spec (passed / 1000000 / 86400)
    obtain ⟨_, _, hsum⟩ := monthOfDay_spec _ hlt
    have hordinal : d.toOrdinal = passed / 1000000 / 86400 + 1 := by
      unfold toOrdinal
      rw [hyear, hmonth, hday]
      omega
    have hclock : d.secondOfDay = passed / 1000000 % 86400 := by
      unfold secondOfDay
      rw [hhour, hminute, hsecond]
      omega
    unfold timestamp
    rw [hordinal, hclock, hmicrosecond]
    omega

end ofTimestamp

end Datetime
