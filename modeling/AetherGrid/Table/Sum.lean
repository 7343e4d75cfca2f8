import AetherGrid.Table.Basic

/-!
This module contains sums over the rows of a table.
-/

namespace Table

variable {κ ρ M : Type} {key : ρ → κ} [DecidableEq κ] [AddCommMonoid M]

def weight (t : Table κ ρ key) (f : ρ → M) (k : κ) : M :=
  (t.get? k).elim 0 f

theorem weight_of_get? {t : Table κ ρ key} {f : ρ → M} {k : κ} {r : ρ} (h : t.get? k = some r)
    : t.weight f k = f r := by
  unfold weight
  rw [h]
  simp

theorem weight_of_none {t : Table κ ρ key} {f : ρ → M} {k : κ} (h : t.get? k = none)
    : t.weight f k = 0 := by
  unfold weight
  rw [h]
  simp

def keys (t : Table κ ρ key) : Finset κ :=
  (t.rows.map key).toFinset

theorem weight_of_not_mem_keys {t : Table κ ρ key} {f : ρ → M} {k : κ} (h : k ∉ t.keys)
    : t.weight f k = 0 := by
  apply weight_of_none
  rw [get?_eq_none_iff]
  intro r hr hkey
  apply h
  unfold keys
  rw [List.mem_toFinset, ← hkey]
  exact List.mem_map_of_mem hr

theorem sum_eq_sum_keys (t : Table κ ρ key) (f : ρ → M) : t.sum f = ∑ k ∈ t.keys, t.weight f k := by
  unfold keys sum
  rw [List.sum_toFinset _ t.hnodup]
  rw [List.map_map]
  congr 1
  apply List.map_congr_left
  intro r hr
  rw [Function.comp_apply, weight_of_get? (t.get?_key_of_mem hr)]

theorem sum_eq_sum_of_subset (t : Table κ ρ key) (f : ρ → M) {s : Finset κ} (hs : t.keys ⊆ s)
    : t.sum f = ∑ k ∈ s, t.weight f k := by
  rw [sum_eq_sum_keys]
  apply Finset.sum_subset hs
  intro k _ hk
  apply weight_of_not_mem_keys hk

theorem sum_add_weight {t t' : Table κ ρ key} {f f' : ρ → M} (k : κ)
    (h : ∀ k' ≠ k, t'.weight f' k' = t.weight f k')
    : t'.sum f' + t.weight f k = t.sum f + t'.weight f' k := by
  have hk : k ∈ insert k (t.keys ∪ t'.keys) := Finset.mem_insert_self _ _
  have hrest : ∑ i ∈ (insert k (t.keys ∪ t'.keys)).erase k, t'.weight f' i
      = ∑ i ∈ (insert k (t.keys ∪ t'.keys)).erase k, t.weight f i := by
    apply Finset.sum_congr rfl
    intro i hi
    apply h
    exact Finset.ne_of_mem_erase hi
  rw [t.sum_eq_sum_of_subset f (s := insert k (t.keys ∪ t'.keys)) (by grind)]
  rw [t'.sum_eq_sum_of_subset f' (s := insert k (t.keys ∪ t'.keys)) (by grind)]
  rw [← Finset.add_sum_erase _ _ hk, ← Finset.add_sum_erase _ _ hk, hrest]
  abel

theorem exists_sum_eq_add {t : Table κ ρ key} {k : κ} {r : ρ} (f : ρ → M) (h : t.get? k = some r)
    : ∃ rest, t.sum f = f r + rest := by
  have hk : k ∈ insert k t.keys := Finset.mem_insert_self _ _
  rw [t.sum_eq_sum_of_subset f (Finset.subset_insert k t.keys)]
  rw [← Finset.add_sum_erase _ _ hk, weight_of_get? h]
  exact ⟨_, rfl⟩

theorem sum_congr_weight {t t' : Table κ ρ key} {f f' : ρ → M}
    (h : ∀ k, t'.weight f' k = t.weight f k) : t'.sum f' = t.sum f := by
  rw [t.sum_eq_sum_of_subset f (s := t.keys ∪ t'.keys) (by grind)]
  rw [t'.sum_eq_sum_of_subset f' (s := t.keys ∪ t'.keys) (by grind)]
  apply Finset.sum_congr rfl
  intro k _
  apply h

theorem sum_eq_zero_of_weight {t : Table κ ρ key} {f : ρ → M} (h : ∀ k, t.weight f k = 0)
    : t.sum f = 0 := by
  rw [sum_eq_sum_keys]
  apply Finset.sum_eq_zero
  intro k _
  apply h

end Table
