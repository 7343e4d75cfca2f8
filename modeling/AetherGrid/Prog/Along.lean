import AetherGrid.Prog.Basic

/-!
This module contains the run of a program along a given sequence of choices of the environment, and the
rules for comparing such runs.
-/

namespace Prog

variable {S : Signature} {ε α σ τ η : Type}

def evalAlong (M : Machine S σ η) (reads : S.Call → Bool) (clock : Nat → η) (p : Prog S ε α) (s : σ)
    : Except ε α × σ :=
  match p with
  | .ret a => (.ok a, s)
  | .raise e => (.error e, s)
  | .call c k =>
    let clock' := if reads c then fun n => clock (n + 1) else clock
    evalAlong M reads clock' (k (M.exec c (clock 0) s).1) (M.exec c (clock 0) s).2

variable {M : Machine S σ η} {N : Machine S τ η} {H : η → Prop} {G : σ → S.Call → Prop}
  {reads : S.Call → Bool} {clock : Nat → η}

theorem forall_later (hclock : ∀ n, H (clock n)) (b : Bool)
    : ∀ n, H ((if b then fun n => clock (n + 1) else clock) n) := by
  intro n
  cases b with
  | true => exact hclock (n + 1)
  | false => exact hclock n

theorem evalAlong_of_wp {p : Prog S ε α} {Q : Except ε α → σ → Prop} {s : σ} (hclock : ∀ n, H (clock n))
    (hwp : wp M H G p Q s)
    : Q (evalAlong M reads clock p s).1 (evalAlong M reads clock p s).2 := by
  induction p generalizing s clock with
  | ret a => exact hwp
  | raise e => exact hwp
  | call c k ih => exact ih _ (forall_later hclock _) (hwp.right _ (hclock 0))

theorem evalAlong_project (π : σ → τ) (I : σ → Prop)
    (hkeep : ∀ s c x, I s → G s c → H x → I (M.exec c x s).2)
    (hexec : ∀ s c x, I s → G s c → H x → N.exec c x (π s) = ((M.exec c x s).1, π (M.exec c x s).2))
    {p : Prog S ε α} {Q : Except ε α → σ → Prop} {s : σ} (hclock : ∀ n, H (clock n))
    (hwp : wp M H G p Q s) (hs : I s)
    : evalAlong N reads clock p (π s)
        =
      ((evalAlong M reads clock p s).1, π (evalAlong M reads clock p s).2) := by
  induction p generalizing s clock with
  | ret a => rfl
  | raise e => rfl
  | call c k ih =>
    have hcall := hexec s c (clock 0) hs hwp.left (hclock 0)
    unfold evalAlong
    dsimp only
    rw [hcall]
    exact ih _ (forall_later hclock _) (hwp.right _ (hclock 0)) (hkeep s c _ hs hwp.left (hclock 0))

end Prog
