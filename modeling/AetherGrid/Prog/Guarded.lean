import Mathlib.Data.List.Basic

/-!
This module contains runs of a machine whose events are subject to a condition on the state they meet.
-/

namespace AetherGrid

variable {σ ε : Type}

def Guarded (step : σ → ε → σ) (allowed : σ → ε → Prop) (s : σ) (events : List ε) : Prop :=
  match events with
  | [] => True
  | event :: events => allowed s event ∧ Guarded step allowed (step s event) events

theorem Guarded.invariant {step : σ → ε → σ} {allowed : σ → ε → Prop} {P : σ → Prop}
    (hstep : ∀ s event, P s → allowed s event → P (step s event)) {s : σ} {events : List ε}
    (hguarded : Guarded step allowed s events) (hs : P s) : P (events.foldl step s) := by
  induction events generalizing s with
  | nil => exact hs
  | cons event events ih => exact ih hguarded.right (hstep s event hs hguarded.left)

end AetherGrid
