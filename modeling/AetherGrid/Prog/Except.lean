import Mathlib

/-!
This module contains what is known of the parts when a computation in `Except` returns or raises.
-/

namespace Except

variable {ε α β : Type}

theorem exists_of_bind_eq_ok {x : Except ε α} {f : α → Except ε β} {b : β} (h : (x >>= f) = .ok b)
    : ∃ a, x = .ok a ∧ f a = .ok b := by
  cases x with
  | error e => contradiction
  | ok a => exact ⟨a, rfl, h⟩

variable {f : α → Except ε β} {l : List α}

theorem exists_of_mapM_eq_error {e : ε} (h : l.mapM f = .error e) : ∃ a, f a = .error e := by
  induction l with
  | nil => contradiction
  | cons a l ih =>
    rw [List.mapM_cons] at h
    cases ha : f a with
    | error e' =>
      rw [ha] at h
      injection h with h
      subst h
      exact ⟨a, ha⟩
    | ok b =>
      rw [ha] at h
      cases hl : l.mapM f with
      | error e' =>
        rw [hl] at h
        injection h with h
        subst h
        exact ih hl
      | ok bs =>
        rw [hl] at h
        contradiction

theorem forall₂_of_mapM_eq_ok {bs : List β} (h : l.mapM f = .ok bs)
    : List.Forall₂ (fun a b => f a = .ok b) l bs := by
  induction l generalizing bs with
  | nil =>
    injection h with h
    subst h
    exact .nil
  | cons a l ih =>
    rw [List.mapM_cons] at h
    obtain ⟨b, hb, h⟩ := exists_of_bind_eq_ok h
    obtain ⟨bs', hbs, h⟩ := exists_of_bind_eq_ok h
    injection h with h
    subst h
    exact .cons hb (ih hbs)

end Except
