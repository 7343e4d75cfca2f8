import AetherGrid.Prog.Basic

/-!
This module contains the rules for programs that stay within a guard.
-/

namespace Prog

variable {S : Signature} {ε α β σ η : Type}

structure Keeps (M : Machine S σ η) (H : η → Prop) (G : σ → S.Call → Prop) (p : Prog S ε α) (s : σ)
    (Q : α → σ → Prop) : Prop where
  wp : wp M H G p (fun r s' => ∀ a, r = .ok a → Q a s') s

namespace Keeps

variable {M : Machine S σ η} {H : η → Prop} {G : σ → S.Call → Prop} {p : Prog S ε α}
  {f : α → Prog S ε β} {s : σ} {Q : α → σ → Prop} {R : β → σ → Prop}

theorem pure {a : α} (h : Q a s) : Keeps M H G (Pure.pure a : Prog S ε α) s Q := by
  constructor
  intro b hb
  injection hb with hb
  rw [← hb]
  exact h

theorem raise {e : ε} : Keeps M H G (.raise e) s Q :=
  ⟨nofun⟩

theorem bind (hp : Keeps M H G p s Q) (hf : ∀ a s', Q a s' → Keeps M H G (f a) s' R)
    : Keeps M H G (p >>= f) s R := by
  constructor
  apply wp_seq
  . intro e s'
    exact nofun
  . apply wp_mono hp.wp
    intro r s' hr a ha
    exact (hf a s' (hr a ha)).wp

theorem mono {Q' : α → σ → Prop} (hp : Keeps M H G p s Q) (h : ∀ a s', Q a s' → Q' a s')
    : Keeps M H G p s Q' := by
  constructor
  apply wp_mono hp.wp
  intro r s' hr a ha
  exact h a s' (hr a ha)

theorem map {g : α → β} (hp : Keeps M H G p s Q) (h : ∀ a s', Q a s' → R (g a) s')
    : Keeps M H G (g <$> p) s R := by
  constructor
  rw [wp_map]
  apply wp_mono hp.wp
  intro r s' hr b hb
  cases r with
  | ok a =>
    injection hb with hb
    rw [← hb]
    exact h a s' (hr a rfl)
  | error e => contradiction

theorem catching {handler : ε → Prog S ε α} (hp : Keeps M H G p s Q)
    (hhandler : ∀ e s', Keeps M H G (handler e) s' Q) : Keeps M H G (p.catching handler) s Q := by
  constructor
  rw [wp_catching]
  apply wp_mono hp.wp
  intro r s' hr
  cases r with
  | ok a => exact hr
  | error e => exact (hhandler e s').wp

theorem ofExcept {r : Except ε α} (h : ∀ a, r = .ok a → Q a s)
    : Keeps M H G (Prog.ofExcept r) s Q := by
  constructor
  rw [wp_ofExcept]
  exact h

theorem perform {c : S.Call} {Q : S.Res c → σ → Prop} (hc : G s c)
    (h : ∀ x, H x → Q (M.exec c x s).1 (M.exec c x s).2)
    : Keeps M H G (Prog.perform c : Prog S ε (S.Res c)) s Q := by
  refine ⟨hc, ?_⟩
  intro x hx a ha
  injection ha with ha
  rw [← ha]
  exact h x hx

theorem call {c : S.Call} {r : S.Res c → Except ε α} (hc : G s c)
    (h : ∀ x, H x → ∀ a, Q a (M.exec c x s).2)
    : Keeps M H G (.call c fun result => Prog.ofExcept (r result)) s Q :=
  ⟨hc, fun x hx => (ofExcept fun a _ => h x hx a).wp⟩

end Keeps

end Prog
