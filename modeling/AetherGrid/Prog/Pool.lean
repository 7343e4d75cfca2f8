import AetherGrid.Prog.Basic

/-!
This module contains pools of programs that run at the same time on one state.
-/

structure Watched (S : Signature) (σ η ν : Type) extends Machine S σ η where
  note : (c : S.Call) → η → σ → ν → ν

def Watched.view {S : Signature} {σ η ν : Type} (W : Watched S σ η ν) : Machine S ν (σ × η) where
  exec c x n := ((W.exec c x.2 x.1).1, W.note c x.2 x.1 n)

structure Pool (S : Signature) (ε α σ ν ι : Type) where
  state : σ
  threads : ι → Prog S ε α
  notes : ι → ν

namespace Prog

variable {S : Signature} {ε α : Type}

def isDone (p : Prog S ε α) : Bool :=
  match p with
  | .ret _ | .raise _ => true
  | .call _ _ => false

end Prog

namespace Watched

open Prog

variable {S : Signature} {ε α β σ η ν : Type} {W : Watched S σ η ν} {H : σ × η → Prop}
variable {G : ν → S.Call → Prop} {n : ν}

variable {c : S.Call} {f : S.Res c → Prog S ε α} {Q : Except ε α → ν → Prop}

theorem wp_view_perform_bind (hguard : G n c)
    (h : ∀ s x, H (s, x) → ∀ r n', (W.exec c x s).1 = r → W.note c x s n = n' →
      wp W.view H G (f r) Q n')
    : wp W.view H G (perform c >>= f) Q n :=
  ⟨hguard, fun x hx => h x.1 x.2 hx _ _ rfl rfl⟩

theorem wp_view_read (hguard : G n c) (hnote : ∀ s x, W.note c x s n = n)
    (h : ∀ s x, H (s, x) → ∀ r, (W.exec c x s).1 = r → wp W.view H G (f r) Q n)
    : wp W.view H G (perform c >>= f) Q n := by
  apply wp_view_perform_bind hguard
  intro s x hx r n' hr hn'
  rw [← hn', hnote]
  exact h s x hx r hr

end Watched

namespace Pool

open Prog

variable {S : Signature} {ε α σ η ν ι : Type} [DecidableEq ι] {W : Watched S σ η ν}
variable {C : σ → (ι → ν) → ι → S.Call → Prop}

def advance (W : Watched S σ η ν) (pool : Pool S ε α σ ν ι) (i : ι) (c : S.Call)
    (k : S.Res c → Prog S ε α) (x : η) : Pool S ε α σ ν ι where
  state := (W.exec c x pool.state).2
  threads := Function.update pool.threads i (k (W.exec c x pool.state).1)
  notes := Function.update pool.notes i (W.note c x pool.state (pool.notes i))

/--
Thread `i` makes its next call.
-/
inductive Step (W : Watched S σ η ν) (C : σ → (ι → ν) → ι → S.Call → Prop) (i : ι)
    (pool : Pool S ε α σ ν ι) : Pool S ε α σ ν ι → Prop where
  | call {c : S.Call} {k : S.Res c → Prog S ε α} (x : η) (hthread : pool.threads i = .call c k)
    (hcall : C pool.state pool.notes i c)
    : Step W C i pool (pool.advance W i c k x)

def Reaches (W : Watched S σ η ν) (C : σ → (ι → ν) → ι → S.Call → Prop)
    : Pool S ε α σ ν ι → Pool S ε α σ ν ι → Prop :=
  Relation.ReflTransGen (fun pool pool' => ∃ i, Step W C i pool pool')

/--
What the threads of a pool owe each other.
-/
structure Protocol (W : Watched S σ η ν) (C : σ → (ι → ν) → ι → S.Call → Prop) where
  inv : σ → (ι → ν) → Prop
  met : σ × η → Prop
  guard : ι → ν → S.Call → Prop
  hmet : ∀ s notes x, inv s notes → met (s, x)
  hstep : ∀ s notes i c x, inv s notes → guard i (notes i) c → C s notes i c →
    inv (W.exec c x s).2 (Function.update notes i (W.note c x s (notes i)))

namespace Protocol

structure Holds (P : Protocol W C) (Q : ι → Except ε α → ν → Prop) (pool : Pool S ε α σ ν ι) : Prop
    where
  inv : P.inv pool.state pool.notes
  follows : ∀ i, wp W.view P.met (P.guard i) (pool.threads i) (Q i) (pool.notes i)

variable {P : Protocol W C} {Q : ι → Except ε α → ν → Prop} {pool pool' : Pool S ε α σ ν ι} {i : ι}

theorem Holds.guard (h : P.Holds Q pool) {c : S.Call} {k : S.Res c → Prog S ε α}
    (hthread : pool.threads i = .call c k) : P.guard i (pool.notes i) c := by
  have := h.follows i
  rw [hthread] at this
  exact this.left

theorem Holds.result (h : P.Holds Q pool) {a : α} (hthread : pool.threads i = .ret a)
    : Q i (.ok a) (pool.notes i) := by
  have := h.follows i
  rw [hthread] at this
  exact this

theorem Holds.error (h : P.Holds Q pool) {e : ε} (hthread : pool.threads i = .raise e)
    : Q i (.error e) (pool.notes i) := by
  have := h.follows i
  rw [hthread] at this
  exact this

theorem Holds.step (h : P.Holds Q pool) (hstep : Step W C i pool pool') : P.Holds Q pool' := by
  cases hstep with
  | @call c k x hthread hcall =>
    refine ⟨P.hstep _ _ i c x h.inv (h.guard hthread) hcall, ?_⟩
    intro j
    unfold advance
    dsimp only
    by_cases hj : j = i
    . subst hj
      rw [Function.update_self, Function.update_self]
      have := h.follows j
      rw [hthread] at this
      exact this.right (pool.state, x) (P.hmet _ _ x h.inv)
    . rw [Function.update_of_ne hj, Function.update_of_ne hj]
      exact h.follows j

theorem Holds.reaches (h : P.Holds Q pool) (hreaches : Reaches W C pool pool') : P.Holds Q pool' := by
  induction hreaches with
  | refl => exact h
  | tail _ hstep ih =>
    have ⟨i, hstep⟩ := hstep
    exact ih.step hstep

end Protocol

section play

variable [∀ s notes i c, Decidable (C s notes i c)]

def next (W : Watched S σ η ν) (C : σ → (ι → ν) → ι → S.Call → Prop)
    [∀ s notes i c, Decidable (C s notes i c)] (pool : Pool S ε α σ ν ι) (i : ι) (x : η)
    : Option (Pool S ε α σ ν ι) :=
  match pool.threads i with
  | .ret _ | .raise _ => none
  | .call c k =>
    if C pool.state pool.notes i c then
      some (pool.advance W i c k x)
    else
      none

def play (W : Watched S σ η ν) (C : σ → (ι → ν) → ι → S.Call → Prop)
    [∀ s notes i c, Decidable (C s notes i c)] (schedule : List (ι × η)) (pool : Pool S ε α σ ν ι)
    : Option (Pool S ε α σ ν ι) :=
  match schedule with
  | [] => some pool
  | (i, x) :: schedule => (next W C pool i x).bind (play W C schedule)

theorem step_of_next {pool pool' : Pool S ε α σ ν ι} {i : ι} {x : η}
    (h : next W C pool i x = some pool') : Step W C i pool pool' := by
  unfold next at h
  split at h
  . contradiction
  . contradiction
  . next c k hthread =>
    split at h
    . next hcall =>
      injection h with h
      rw [← h]
      exact .call x hthread hcall
    . contradiction

theorem reaches_of_play (schedule : List (ι × η)) {pool pool' : Pool S ε α σ ν ι}
    (h : play W C schedule pool = some pool') : Reaches W C pool pool' := by
  induction schedule generalizing pool with
  | nil =>
    injection h with h
    rw [h]
    exact .refl
  | cons entry schedule ih =>
    have ⟨i, x⟩ := entry
    unfold play at h
    rw [Option.bind_eq_some_iff] at h
    have ⟨pool1, hnext, hplay⟩ := h
    exact .head ⟨i, step_of_next hnext⟩ (ih hplay)

theorem exists_reaches_of_play (pool : Pool S ε α σ ν ι) (schedule : List (ι × η))
    (p : Pool S ε α σ ν ι → Prop) [DecidablePred p]
    (h : (play W C schedule pool).any (fun pool' => p pool'))
    : ∃ pool', Reaches W C pool pool' ∧ p pool' := by
  rw [Option.any_eq_true] at h
  have ⟨pool', hplay, hp⟩ := h
  exact ⟨pool', reaches_of_play schedule hplay, of_decide_eq_true hp⟩

end play

end Pool
