import AetherGrid.Table.Basic

/-!
This module contains slices: the rows of a table, or the items of a list, that somebody may see.
-/

namespace Table

variable {κ ρ : Type} {key : ρ → κ} {p : ρ → Prop} {t t' t'' u u' : Table κ ρ key} {r : ρ}

theorem ext_rows (h : t.rows = t'.rows) : t = t' := by
  cases t
  cases t'
  cases h
  rfl

def AgreeOn (p : ρ → Prop) (t t' : Table κ ρ key) : Prop :=
  ∀ r, p r → (r ∈ t.rows ↔ r ∈ t'.rows)

namespace AgreeOn

theorem refl (p : ρ → Prop) (t : Table κ ρ key) : t.AgreeOn p t :=
  fun _ _ => Iff.rfl

theorem symm (h : t.AgreeOn p t') : t'.AgreeOn p t :=
  fun r hr => (h r hr).symm

theorem trans (h : t.AgreeOn p t') (h' : t'.AgreeOn p t'') : t.AgreeOn p t'' :=
  fun r hr => (h r hr).trans (h' r hr)

theorem of_filter [DecidablePred p] (h : t.rows.filter p = t'.rows.filter p) : t.AgreeOn p t' := by
  intro r hr
  have hmem : r ∈ t.rows.filter p ↔ r ∈ t'.rows.filter p := by rw [h]
  simpa [List.mem_filter, hr] using hmem

variable [DecidableEq κ]

theorem of_get? (h : ∀ k, t'.get? k = t.get? k) : t.AgreeOn p t' :=
  fun r _ => (mem_congr h r).symm

theorem of_puts (h : t.Puts r t') (hr : ¬p r) (hold : ∀ old, t.get? (key r) = some old → ¬p old)
    : t.AgreeOn p t' := by
  intro x hx
  rw [h.mem_iff]
  constructor
  . intro hmem
    refine .inr ⟨hmem, ?_⟩
    intro hkey
    have hget := t.get?_key_of_mem hmem
    rw [hkey] at hget
    exact hold x hget hx
  . rintro (rfl | ⟨hmem, _⟩)
    . exact absurd hx hr
    . exact hmem

theorem puts (h : t.AgreeOn p u) (ht : t.Puts r t') (hu : u.Puts r u') : t'.AgreeOn p u' := by
  intro x hx
  rw [ht.mem_iff, hu.mem_iff, h x hx]

end AgreeOn

theorem filter_upsertRows_of {f : ρ → Bool} [DecidableEq κ] {rows : List ρ} (hr : f r)
    (hold : ∀ x ∈ rows, key x = key r → f x)
    : (upsertRows key r rows).filter f = upsertRows key r (rows.filter f) := by
  induction rows with
  | nil => simp [upsertRows, hr]
  | cons x xs ih =>
    have hxs : ∀ y ∈ xs, key y = key r → f y := fun y hy => hold y (List.mem_cons_of_mem x hy)
    unfold upsertRows
    split
    . next heq =>
      have hx : f x := hold x List.mem_cons_self heq
      simp [hr, hx, heq]
    . next hne =>
      rw [List.filter_cons, List.filter_cons, ih hxs]
      cases hx : f x with
      | true => simp [hne]
      | false =>
        simp only [Bool.false_eq_true, if_false]
        cases hfilter : xs.filter f <;> rfl

theorem filter_upsertRows_of_not {f : ρ → Bool} [DecidableEq κ] {rows : List ρ} (hr : f r = false)
    (hold : ∀ x ∈ rows, key x = key r → f x = false)
    : (upsertRows key r rows).filter f = rows.filter f := by
  induction rows with
  | nil => simp [upsertRows, hr]
  | cons x xs ih =>
    have hxs : ∀ y ∈ xs, key y = key r → f y = false := fun y hy => hold y (List.mem_cons_of_mem x hy)
    unfold upsertRows
    split
    . next heq =>
      have hx : f x = false := hold x List.mem_cons_self heq
      simp [hr, hx]
    . rw [List.filter_cons, List.filter_cons, ih hxs]

theorem filter_comm (t : Table κ ρ key) (f g : ρ → Bool) : (t.filter g).filter f = (t.filter f).filter g := by
  apply ext_rows
  change (t.rows.filter g).filter f = (t.rows.filter f).filter g
  rw [List.filter_filter, List.filter_filter]
  congr
  funext x
  exact Bool.and_comm _ _

theorem filter_filter_of_imp {f g : ρ → Bool} (h : ∀ x ∈ t.rows, f x → g x)
    : (t.filter g).filter f = t.filter f := by
  rw [filter_comm]
  apply filter_eq_self
  intro x hx
  have ⟨hmem, hfx⟩ := List.mem_filter.mp hx
  exact h x hmem hfx

section modify

variable {f : ρ → Bool} {g : ρ → ρ} {hg hg' : ∀ r, key (g r) = key r}

theorem filter_modify (h : ∀ x, f (g x) = f x)
    : (t.modify g hg).filter f = (t.filter f).modify g hg' := by
  apply ext_rows
  change (t.rows.map g).filter f = (t.rows.filter f).map g
  have hcomp : f ∘ g = f := funext h
  rw [List.filter_map, hcomp]

theorem filter_modify_of_not (h : ∀ x, f (g x) = f x) (hid : ∀ x ∈ t.rows, f x → g x = x)
    : (t.modify g hg).filter f = t.filter f := by
  apply ext_rows
  change (t.rows.map g).filter f = t.rows.filter f
  have hcomp : f ∘ g = f := funext h
  rw [List.filter_map, hcomp]
  conv => rhs; rw [← List.map_id (t.rows.filter f)]
  apply List.map_congr_left
  intro x hx
  have ⟨hmem, hfx⟩ := List.mem_filter.mp hx
  exact hid x hmem hfx

end modify

section

variable [DecidableEq κ] {f : ρ → Bool}

theorem filter_upsert_of (hr : f r) (hold : ∀ old, t.get? (key r) = some old → f old)
    : (t.upsert r).filter f = (t.filter f).upsert r := by
  apply ext_rows
  apply filter_upsertRows_of hr
  intro x hx hkey
  apply hold
  rw [← hkey]
  exact t.get?_key_of_mem hx

theorem filter_upsert_of_not (hr : f r = false)
    (hold : ∀ old, t.get? (key r) = some old → f old = false)
    : (t.upsert r).filter f = t.filter f := by
  apply ext_rows
  apply filter_upsertRows_of_not hr
  intro x hx hkey
  apply hold
  rw [← hkey]
  exact t.get?_key_of_mem hx

end

end Table

namespace List

variable {α : Type} {r : α → α → Prop} [DecidableRel r]

theorem orderedInsert_eq_cons {a : α} {l : List α} (h : ∀ b ∈ l, r a b) : l.orderedInsert r a = a :: l := by
  cases l with
  | nil => rfl
  | cons b l => rw [orderedInsert_cons, if_pos (h b mem_cons_self)]

theorem filter_orderedInsert [IsTrans α r] (p : α → Bool) (a : α) {l : List α} (h : l.Pairwise r)
    : (l.orderedInsert r a).filter p = if p a then (l.filter p).orderedInsert r a else l.filter p := by
  induction l with
  | nil =>
    rw [orderedInsert_nil, filter_cons]
    rfl
  | cons b l ih =>
    rw [pairwise_cons] at h
    rw [orderedInsert_cons]
    split
    . next hab =>
      have hall : ∀ c ∈ (b :: l).filter p, r a c := by
        intro c hc
        rcases mem_cons.mp (mem_of_mem_filter hc) with rfl | hmem
        . exact hab
        . exact IsTrans.trans _ _ _ hab (h.left c hmem)
      rw [filter_cons, orderedInsert_eq_cons hall]
    . next hab =>
      rw [filter_cons, ih h.right, filter_cons]
      cases p a <;> cases p b <;> simp [hab]

theorem filter_insertionSort [IsTrans α r] [Std.Total r] (p : α → Bool) (l : List α)
    : (l.insertionSort r).filter p = (l.filter p).insertionSort r := by
  induction l with
  | nil => rfl
  | cons a l ih =>
    rw [insertionSort_cons, filter_orderedInsert p a (pairwise_insertionSort r l), filter_cons, ih]
    split <;> rfl

end List
