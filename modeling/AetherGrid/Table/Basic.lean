import Mathlib

/-!
This module contains tables with a primary key: a list of rows together with the fact that no two
rows share their key.
-/

structure Table (κ : Type) (ρ : Type) (key : ρ → κ) where
  rows : List ρ
  hnodup : (rows.map key).Nodup

namespace Table

variable {κ ρ : Type} {key : ρ → κ}

def empty : Table κ ρ key := ⟨[], by simp⟩

theorem eq_of_key_eq (t : Table κ ρ key) {x y : ρ} (hx : x ∈ t.rows) (hy : y ∈ t.rows)
    (h : key x = key y) : x = y :=
  List.inj_on_of_nodup_map t.hnodup hx hy h

def filter (t : Table κ ρ key) (p : ρ → Bool) : Table κ ρ key :=
  ⟨t.rows.filter p, t.hnodup.sublist (List.filter_sublist.map key)⟩

theorem filter_eq_self {t : Table κ ρ key} {p : ρ → Bool} (h : ∀ r ∈ t.rows, p r)
    : t.filter p = t := by
  have : t.rows.filter p = t.rows := List.filter_eq_self.mpr h
  cases t
  simp only [filter, this]

theorem filter_congr {t : Table κ ρ key} {p q : ρ → Bool} (h : ∀ r ∈ t.rows, p r = q r)
    : t.filter p = t.filter q := by
  have : t.rows.filter p = t.rows.filter q := List.filter_congr h
  simp only [filter, this]

def modify (t : Table κ ρ key) (f : ρ → ρ) (hf : ∀ r, key (f r) = key r) : Table κ ρ key :=
  ⟨t.rows.map f, by
    have : key ∘ f = key := funext hf
    rw [List.map_map, this]
    exact t.hnodup⟩

def sum {M : Type} [AddCommMonoid M] (t : Table κ ρ key) (f : ρ → M) : M :=
  (t.rows.map f).sum

theorem find?_eq_some_iff_of_unique {α : Type} {l : List α} {p : α → Bool} {x : α}
    (hunique : ∀ x ∈ l, ∀ y ∈ l, p x → p y → x = y) : l.find? p = some x ↔ x ∈ l ∧ p x := by
  constructor
  . intro h
    exact ⟨List.mem_of_find?_eq_some h, List.find?_some h⟩
  . intro ⟨hx, hpx⟩
    cases hfind : l.find? p with
    | none =>
      rw [List.find?_eq_none] at hfind
      exact absurd hpx (hfind x hx)
    | some y =>
      rw [hunique y (List.mem_of_find?_eq_some hfind) x hx (List.find?_some hfind) hpx]

theorem find?_eq_of_mem_iff {α : Type} {l l' : List α} {p : α → Bool} (hmem : ∀ x, x ∈ l ↔ x ∈ l')
    (hunique : ∀ x ∈ l', ∀ y ∈ l', p x → p y → x = y) : l.find? p = l'.find? p := by
  apply Option.ext
  intro x
  rw [find?_eq_some_iff_of_unique hunique, find?_eq_some_iff_of_unique, hmem]
  intro x hx y hy
  exact hunique x ((hmem x).mp hx) y ((hmem y).mp hy)

variable [DecidableEq κ]

def get? (t : Table κ ρ key) (k : κ) : Option ρ :=
  t.rows.find? (fun r => key r = k)

theorem get?_eq_some_iff (t : Table κ ρ key) (k : κ) (r : ρ)
    : t.get? k = some r ↔ r ∈ t.rows ∧ key r = k := by
  unfold get?
  constructor
  . intro h
    refine ⟨List.mem_of_find?_eq_some h, ?_⟩
    simpa using List.find?_some h
  . rintro ⟨hmem, rfl⟩
    cases hfind : t.rows.find? (fun r' => key r' = key r) with
    | none =>
      rw [List.find?_eq_none] at hfind
      have := hfind r hmem
      simp at this
    | some r' =>
      have hkey : key r' = key r := by simpa using List.find?_some hfind
      rw [t.eq_of_key_eq (List.mem_of_find?_eq_some hfind) hmem hkey]

theorem get?_eq_none_iff (t : Table κ ρ key) (k : κ)
    : t.get? k = none ↔ ∀ r ∈ t.rows, key r ≠ k := by
  simp [get?]

theorem get?_key_of_mem (t : Table κ ρ key) {r : ρ} (h : r ∈ t.rows)
    : t.get? (key r) = some r := by
  rw [get?_eq_some_iff]
  exact ⟨h, rfl⟩

theorem mem_of_get? {t : Table κ ρ key} {k : κ} {r : ρ} (h : t.get? k = some r) : r ∈ t.rows :=
  ((t.get?_eq_some_iff k r).mp h).left

theorem key_of_get? {t : Table κ ρ key} {k : κ} {r : ρ} (h : t.get? k = some r) : key r = k :=
  ((t.get?_eq_some_iff k r).mp h).right

theorem mem_congr {t t' : Table κ ρ key} (h : ∀ k, t.get? k = t'.get? k) (r : ρ)
    : r ∈ t.rows ↔ r ∈ t'.rows := by
  constructor
  . intro hr
    apply mem_of_get? (k := key r)
    rw [← h, t.get?_key_of_mem hr]
  . intro hr
    apply mem_of_get? (k := key r)
    rw [h, t'.get?_key_of_mem hr]

@[simp]
theorem get?_filter (t : Table κ ρ key) (p : ρ → Bool) (k : κ)
    : (t.filter p).get? k = (t.get? k).filter p := by
  apply Option.ext
  intro r
  simp only [get?_eq_some_iff, Option.filter_eq_some_iff, filter, List.mem_filter]
  tauto

@[simp]
theorem get?_modify (t : Table κ ρ key) (f : ρ → ρ) (hf : ∀ r, key (f r) = key r) (k : κ)
    : (t.modify f hf).get? k = (t.get? k).map f := by
  apply Option.ext
  intro r
  simp only [get?_eq_some_iff, Option.map_eq_some_iff, modify, List.mem_map]
  constructor
  . rintro ⟨⟨r', hmem, rfl⟩, hkey⟩
    exact ⟨r', ⟨hmem, by rw [← hkey, hf]⟩, rfl⟩
  . rintro ⟨r', ⟨hmem, rfl⟩, rfl⟩
    exact ⟨⟨r', hmem, rfl⟩, hf r'⟩

def upsertRows (key : ρ → κ) (r : ρ) : List ρ → List ρ
  | [] => [r]
  | x :: xs => if key x = key r then r :: xs else x :: upsertRows key r xs

theorem map_key_upsertRows (r : ρ) (rows : List ρ)
    : (upsertRows key r rows).map key
        =
      if key r ∈ rows.map key then rows.map key else rows.map key ++ [key r] := by
  induction rows with
  | nil => simp [upsertRows]
  | cons x xs ih =>
    unfold upsertRows
    split
    . next heq => simp [heq]
    . next hne =>
      have : key r ≠ key x := fun h => hne h.symm
      simp only [List.map_cons, ih, List.mem_cons, this, false_or]
      split <;> simp

def upsert (t : Table κ ρ key) (r : ρ) : Table κ ρ key :=
  ⟨upsertRows key r t.rows, by
    rw [map_key_upsertRows]
    split
    . exact t.hnodup
    . next hmem => exact List.Nodup.append t.hnodup (by simp) (by simpa using hmem)⟩

theorem upsertRows_upsertRows {r r' : ρ} (h : key r' = key r) (rows : List ρ)
    : upsertRows key r' (upsertRows key r rows) = upsertRows key r' rows := by
  induction rows with
  | nil => simp [upsertRows, h]
  | cons x xs ih =>
    by_cases hx : key x = key r
    . simp [upsertRows, hx, h]
    . simp [upsertRows, hx, h, ih]

theorem upsert_upsert (t : Table κ ρ key) {r r' : ρ} (h : key r' = key r)
    : (t.upsert r).upsert r' = t.upsert r' := by
  simp only [upsert, upsertRows_upsertRows h]

theorem upsertRows_comm {r r' : ρ} (h : key r ≠ key r') {rows : List ρ} (hmem : key r ∈ rows.map key)
    : upsertRows key r' (upsertRows key r rows) = upsertRows key r (upsertRows key r' rows) := by
  induction rows with
  | nil => contradiction
  | cons x xs ih =>
    by_cases hx : key x = key r
    . simp [upsertRows, hx, h]
    . have hxs : key r ∈ xs.map key := by simpa [Ne.symm hx] using hmem
      by_cases hx' : key x = key r'
      . simp [upsertRows, hx', h.symm]
      . simp [upsertRows, hx, hx', ih hxs]

theorem upsert_comm (t : Table κ ρ key) {r r' : ρ} (h : key r ≠ key r') (hmem : key r ∈ t.rows.map key)
    : (t.upsert r).upsert r' = (t.upsert r').upsert r := by
  simp only [upsert, upsertRows_comm h hmem]

theorem mem_upsertRows (r : ρ) (rows : List ρ) (hnodup : (rows.map key).Nodup) (x : ρ)
    : x ∈ upsertRows key r rows ↔ x = r ∨ (x ∈ rows ∧ key x ≠ key r) := by
  induction rows with
  | nil => simp [upsertRows]
  | cons y ys ih =>
    simp only [List.map_cons, List.nodup_cons] at hnodup
    unfold upsertRows
    split
    . next heq =>
      have hys : ∀ z ∈ ys, key z ≠ key r := by
        intro z hz hzr
        apply hnodup.left
        rw [heq, ← hzr]
        exact List.mem_map_of_mem hz
      simp only [List.mem_cons]
      constructor
      . rintro (rfl | hx)
        . simp
        . exact .inr ⟨.inr hx, hys x hx⟩
      . rintro (rfl | ⟨rfl | hx, hne⟩)
        . simp
        . contradiction
        . exact .inr hx
    . next hne =>
      simp only [List.mem_cons, ih hnodup.right]
      constructor
      . rintro (rfl | rfl | ⟨hx, hkey⟩)
        . exact .inr ⟨.inl rfl, hne⟩
        . exact .inl rfl
        . exact .inr ⟨.inr hx, hkey⟩
      . rintro (rfl | ⟨rfl | hx, hkey⟩)
        . exact .inr (.inl rfl)
        . exact .inl rfl
        . exact .inr (.inr ⟨hx, hkey⟩)

@[simp]
theorem mem_upsert (t : Table κ ρ key) (r x : ρ)
    : x ∈ (t.upsert r).rows ↔ x = r ∨ (x ∈ t.rows ∧ key x ≠ key r) :=
  mem_upsertRows r t.rows t.hnodup x

theorem get?_upsert (t : Table κ ρ key) (r : ρ) (k : κ)
    : (t.upsert r).get? k = if key r = k then some r else t.get? k := by
  apply Option.ext
  intro x
  rw [get?_eq_some_iff, mem_upsert]
  split
  . next heq =>
    subst heq
    simp only [Option.some.injEq]
    constructor
    . rintro ⟨rfl | ⟨_, hne⟩, hkey⟩
      . rfl
      . contradiction
    . rintro rfl
      simp
  . next hne =>
    rw [get?_eq_some_iff]
    constructor
    . rintro ⟨rfl | ⟨hmem, _⟩, hkey⟩
      . contradiction
      . exact ⟨hmem, hkey⟩
    . rintro ⟨hmem, rfl⟩
      exact ⟨.inr ⟨hmem, fun h => hne h.symm⟩, rfl⟩

@[simp]
theorem get?_upsert_self (t : Table κ ρ key) (r : ρ) : (t.upsert r).get? (key r) = some r := by
  simp [get?_upsert]

theorem get?_upsert_of_eq (t : Table κ ρ key) {r : ρ} {k : κ} (h : key r = k)
    : (t.upsert r).get? k = some r := by
  simp [get?_upsert, h]

theorem get?_upsert_of_ne (t : Table κ ρ key) {r : ρ} {k : κ} (h : key r ≠ k)
    : (t.upsert r).get? k = t.get? k := by
  simp [get?_upsert, h]

def Puts (t : Table κ ρ key) (r : ρ) (t' : Table κ ρ key) : Prop :=
  ∀ k, t'.get? k = if key r = k then some r else t.get? k

theorem puts_upsert (t : Table κ ρ key) (r : ρ) : t.Puts r (t.upsert r) := by
  intro k
  apply get?_upsert

theorem puts_of_get? {t : Table κ ρ key} {r : ρ} (h : t.get? (key r) = some r) : t.Puts r t := by
  intro k
  split
  . next heq => rw [← heq, h]
  . rfl

namespace Puts

variable {t t' t'' : Table κ ρ key} {r r' : ρ}

theorem upsert (h : t.Puts r t') (hkey : key r' = key r) : t.Puts r' (t'.upsert r') := by
  intro k
  rw [get?_upsert, h k, hkey]
  split <;> rfl

theorem get?_self (h : t.Puts r t') : t'.get? (key r) = some r := by
  rw [h, if_pos rfl]

theorem get?_of_eq (h : t.Puts r t') {k : κ} (hk : key r = k) : t'.get? k = some r := by
  rw [h, if_pos hk]

theorem get?_of_ne (h : t.Puts r t') {k : κ} (hk : key r ≠ k) : t'.get? k = t.get? k := by
  rw [h, if_neg hk]

theorem get?_eq (h : t.Puts r t') (hr : t.get? (key r) = some r) (k : κ) : t'.get? k = t.get? k := by
  rw [h k]
  split
  . next heq =>
    subst heq
    exact hr.symm
  . rfl

theorem mem_iff (h : t.Puts r t') (x : ρ)
    : x ∈ t'.rows ↔ x = r ∨ (x ∈ t.rows ∧ key x ≠ key r) := by
  rw [← mem_upsert]
  apply mem_congr
  intro k
  rw [h, get?_upsert]

theorem forall_mem (h : t.Puts r t') {p : ρ → Prop} (hr : p r)
    (hrows : ∀ x ∈ t.rows, key x ≠ key r → p x) : ∀ x ∈ t'.rows, p x := by
  intro x hx
  rw [h.mem_iff] at hx
  cases hx with
  | inl heq =>
    rw [heq]
    exact hr
  | inr hmem => exact hrows x hmem.left hmem.right

theorem forall_key (h : t.Puts r' t') (hr : t.get? (key r') = some r) {p : κ → Prop}
    (hrows : ∀ x ∈ t.rows, p (key x)) : ∀ x ∈ t'.rows, p (key x) := by
  refine h.forall_mem ?_ ?_
  . rw [← key_of_get? hr]
    exact hrows r (mem_of_get? hr)
  . intro x hx _
    exact hrows x hx

end Puts

def Mapped (t : Table κ ρ key) (ks : List κ) (f : ρ → ρ) (t' : Table κ ρ key) : Prop :=
  ∀ k, t'.get? k = (t.get? k).map (fun r => if k ∈ ks then r else f r)

theorem mapped_self {t : Table κ ρ key} {ks : List κ} {f : ρ → ρ}
    (h : ∀ r ∈ t.rows, key r ∈ ks ∨ f r = r) : t.Mapped ks f t := by
  intro k
  cases hr : t.get? k with
  | none => rfl
  | some r =>
    rw [Option.map_some]
    split
    . rfl
    . next hk =>
      cases h r (mem_of_get? hr) with
      | inl hks =>
        rw [key_of_get? hr] at hks
        contradiction
      | inr hf => rw [hf]

namespace Mapped

variable {t t' t'' : Table κ ρ key} {k : κ} {ks : List κ} {f : ρ → ρ} {r : ρ}

theorem get?_of_mem (h : t.Mapped ks f t') (hk : k ∈ ks) : t'.get? k = t.get? k := by
  rw [h k]
  simp [hk]

theorem get?_of_nil (h : t.Mapped [] f t') (k : κ) : t'.get? k = (t.get? k).map f := by
  rw [h k]
  simp

theorem tail (h : t.Mapped (k :: ks) f t') (hr : t.get? k = some r) (hk : k ∉ ks)
    (hputs : t'.Puts (f r) t'') (hkey : key (f r) = k) : t.Mapped ks f t'' := by
  intro j
  rw [hputs j, hkey]
  split
  . next heq =>
    subst heq
    rw [hr, Option.map_some, if_neg hk]
  . next hne =>
    rw [h j]
    simp only [List.mem_cons, Ne.symm hne, false_or]

end Mapped

end Table
