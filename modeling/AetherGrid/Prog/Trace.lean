import AetherGrid.Prog.Basic

/-!
This module contains the runs of a program together with the states they go through.
-/

namespace Prog

variable {S : Signature} {ε α σ η : Type}

def Traces (M : Machine S σ η) (H : η → Prop) (p : Prog S ε α) (s : σ) (r : Except ε α) (s' : σ)
    (l : List σ) : Prop :=
  match p with
  | .ret a => r = .ok a ∧ s' = s ∧ l = []
  | .raise e => r = .error e ∧ s' = s ∧ l = []
  | .call c k =>
    ∃ x, H x ∧ ∃ l', l = l' ++ [(M.exec c x s).2]
      ∧ Traces M H (k (M.exec c x s).1) (M.exec c x s).2 r s' l'

def trace (M : Machine S σ η) (x : η) (p : Prog S ε α) (s : σ) : List σ :=
  match p with
  | .ret _ | .raise _ => []
  | .call c k => trace M x (k (M.exec c x s).1) (M.exec c x s).2 ++ [(M.exec c x s).2]

def Stops (M : Machine S σ η) (H : η → Prop) (p : Prog S ε α) (s : σ) (c : S.Call) (s' : σ) : Prop :=
  match p with
  | .ret _ | .raise _ => False
  | .call c' k =>
    (c' = c ∧ s' = s) ∨ ∃ x, H x ∧ Stops M H (k (M.exec c' x s).1) (M.exec c' x s).2 c s'

def stopAfter (M : Machine S σ η) (x : η) (n : Nat) (p : Prog S ε α) (s : σ)
    : Option (S.Call × σ) :=
  match p with
  | .ret _ | .raise _ => none
  | .call c k =>
    match n with
    | 0 => some (c, s)
    | n + 1 => stopAfter M x n (k (M.exec c x s).1) (M.exec c x s).2

variable {M : Machine S σ η} {H : η → Prop} {G : σ → S.Call → Prop}

theorem stops_of_stopAfter {x : η} (hx : H x) {n : Nat} {p : Prog S ε α} {s s' : σ} {c : S.Call}
    (h : stopAfter M x n p s = some (c, s')) : Stops M H p s c s' := by
  induction n generalizing p s with
  | zero =>
    cases p with
    | ret _ | raise _ => contradiction
    | call c' k =>
      injection h with h
      injection h with hc hs
      exact .inl ⟨hc, hs.symm⟩
  | succ n ih =>
    cases p with
    | ret _ | raise _ => contradiction
    | call c' k => exact .inr ⟨x, hx, ih h⟩

theorem exists_stops_of_stopAfter {x : η} (hx : H x) (n : Nat) (p : Prog S ε α) (s : σ)
    (P : S.Call → σ → Prop) [∀ c s, Decidable (P c s)]
    (h : (stopAfter M x n p s).any (fun stop => P stop.1 stop.2))
    : ∃ c s', Stops M H p s c s' ∧ P c s' := by
  cases hstop : stopAfter M x n p s with
  | none =>
    rw [hstop] at h
    contradiction
  | some stop =>
    rw [hstop] at h
    exact ⟨stop.1, stop.2, stops_of_stopAfter hx hstop, of_decide_eq_true h⟩

def Breaks (M : Machine S σ η) (H : η → Prop) (p : Prog S ε α) (s s' : σ) : Prop :=
  ∃ c s1, Stops M H p s c s1 ∧ (s' = s1 ∨ ∃ x, H x ∧ s' = (M.exec c x s1).2)

theorem Stops.invariant {I : σ → Prop} (hstep : ∀ s c x, I s → G s c → H x → I (M.exec c x s).2)
    {p : Prog S ε α} {Q : Except ε α → σ → Prop} {s s' : σ} {c : S.Call} (hstops : Stops M H p s c s')
    (hwp : wp M H G p Q s) (h : I s) : I s' ∧ G s' c := by
  induction p generalizing s with
  | ret _ | raise _ => exact hstops.elim
  | call c' k ih =>
    rcases hstops with ⟨rfl, rfl⟩ | ⟨x, hx, hstops⟩
    . exact ⟨h, hwp.left⟩
    . exact ih _ hstops (hwp.right x hx) (hstep s c' x h hwp.left hx)

theorem Breaks.invariant {I : σ → Prop} (hstep : ∀ s c x, I s → G s c → H x → I (M.exec c x s).2)
    {p : Prog S ε α} {Q : Except ε α → σ → Prop} {s s' : σ} (hbreaks : Breaks M H p s s')
    (hwp : wp M H G p Q s) (h : I s) : I s' := by
  have ⟨c, s1, hstops, hs'⟩ := hbreaks
  have ⟨hs1, hguard⟩ := hstops.invariant hstep hwp h
  rcases hs' with rfl | ⟨x, hx, rfl⟩
  . exact hs1
  . exact hstep s1 c x hs1 hguard hx

theorem Breaks.of_makes {P : S.Call → Prop} {I : σ → Prop}
    (hkeep : ∀ s c x, I s → P c → H x → I (M.exec c x s).2) {p : Prog S ε α} {s s' : σ}
    (hbreaks : Breaks M H p s s') (hp : Makes P p) (h : I s) : I s' := by
  have hwp : wp M H (fun _ => P) p (fun _ _ => True) s :=
    wp_of_makes (fun _ => True) (fun _ _ _ hc => hc) (fun _ _ _ _ _ _ => trivial) hp
      (fun _ _ _ => trivial) trivial
  exact hbreaks.invariant hkeep hwp h

theorem Traces.runs {p : Prog S ε α} {s s' : σ} {r : Except ε α} {l : List σ}
    (h : Traces M H p s r s' l) : Runs M H p s r s' := by
  induction p generalizing s l with
  | ret a => exact ⟨h.left, h.right.left⟩
  | raise e => exact ⟨h.left, h.right.left⟩
  | call c k ih =>
    have ⟨x, hx, l', _, htraces⟩ := h
    exact ⟨x, hx, ih _ htraces⟩

theorem traces_eval {x : η} (hx : H x) (p : Prog S ε α) (s : σ)
    : Traces M H p s (eval M x p s).1 (eval M x p s).2 (trace M x p s) := by
  induction p generalizing s with
  | ret a => exact ⟨rfl, rfl, rfl⟩
  | raise e => exact ⟨rfl, rfl, rfl⟩
  | call c k ih => exact ⟨x, hx, _, rfl, ih _ _⟩

theorem Traces.invariant {I : σ → List σ → Prop}
    (hstep : ∀ s l c x, I s l → G s c → H x → I (M.exec c x s).2 ((M.exec c x s).2 :: l))
    {p : Prog S ε α} {Q : Except ε α → σ → Prop} {s s' : σ} {r : Except ε α} {l : List σ}
    (htraces : Traces M H p s r s' l) (hwp : wp M H G p Q s) {past : List σ} (h : I s past)
    : I s' (l ++ past) := by
  induction p generalizing s l past with
  | ret a =>
    obtain ⟨_, rfl, rfl⟩ := htraces
    exact h
  | raise e =>
    obtain ⟨_, rfl, rfl⟩ := htraces
    exact h
  | call c k ih =>
    obtain ⟨x, hx, l', rfl, htraces⟩ := htraces
    have := ih _ htraces (hwp.right x hx) (hstep s past c x h hwp.left hx)
    rw [List.append_assoc, List.singleton_append]
    exact this

end Prog
