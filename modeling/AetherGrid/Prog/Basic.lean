import Mathlib

/-!
This module contains programs that talk to shared state only through calls.
-/

structure Signature where
  Call : Type
  Res : Call → Type

inductive Prog (S : Signature) (ε : Type) (α : Type) where
  | ret (a : α)
  | raise (e : ε)
  | call (c : S.Call) (k : S.Res c → Prog S ε α)

/--
How calls act on a state `σ`.
-/
structure Machine (S : Signature) (σ : Type) (η : Type) where
  exec : (c : S.Call) → η → σ → S.Res c × σ

namespace Prog

variable {S : Signature} {ε α β σ η : Type}

def bind (p : Prog S ε α) (f : α → Prog S ε β) : Prog S ε β :=
  match p with
  | .ret a => f a
  | .raise e => .raise e
  | .call c k => .call c (fun r => (k r).bind f)

instance : Monad (Prog S ε) where
  pure := .ret
  bind := bind

def perform (c : S.Call) : Prog S ε (S.Res c) :=
  .call c .ret

def ofExcept (r : Except ε α) : Prog S ε α :=
  match r with
  | .ok a => .ret a
  | .error e => .raise e

def catching (p : Prog S ε α) (handler : ε → Prog S ε α) : Prog S ε α :=
  match p with
  | .ret a => .ret a
  | .raise e => handler e
  | .call c k => .call c (fun r => (k r).catching handler)

-- a call whose answer may be an error
def request (c : S.Call) (outcome : S.Res c → Except ε α) : Prog S ε α :=
  .call c (fun r => ofExcept (outcome r))

-- `finally`, for every error but those that `skips` names
def ensuring (skips : ε → Bool) (p : Prog S ε α) (cleanup : Option ε → Prog S ε Unit) : Prog S ε α := do
  let a ← p.catching (fun e =>
    if skips e then
      .raise e
    else do
      cleanup (some e)
      .raise e)
  cleanup none
  return a

def returned (p : Prog S ε α) : Option α :=
  match p with
  | .ret a => some a
  | .raise _ | .call _ _ => none

theorem eq_ret_of_returned {p : Prog S ε α} {a : α} (h : p.returned = some a) : p = .ret a := by
  cases p with
  | ret b => rw [Option.some.inj h]
  | raise _ => contradiction
  | call _ _ => contradiction

def wp (M : Machine S σ η) (H : η → Prop) (G : σ → S.Call → Prop) (p : Prog S ε α)
    (Q : Except ε α → σ → Prop) (s : σ) : Prop :=
  match p with
  | .ret a => Q (.ok a) s
  | .raise e => Q (.error e) s
  | .call c k => G s c ∧ ∀ x, H x → wp M H G (k (M.exec c x s).1) Q (M.exec c x s).2

def Runs (M : Machine S σ η) (H : η → Prop) (p : Prog S ε α) (s : σ) (r : Except ε α) (s' : σ) :
    Prop :=
  match p with
  | .ret a => r = .ok a ∧ s' = s
  | .raise e => r = .error e ∧ s' = s
  | .call c k => ∃ x, H x ∧ Runs M H (k (M.exec c x s).1) (M.exec c x s).2 r s'

def eval (M : Machine S σ η) (x : η) (p : Prog S ε α) (s : σ) : Except ε α × σ :=
  match p with
  | .ret a => (.ok a, s)
  | .raise e => (.error e, s)
  | .call c k => eval M x (k (M.exec c x s).1) (M.exec c x s).2

variable {M : Machine S σ η} {H : η → Prop} {G : σ → S.Call → Prop}

@[simp]
theorem wp_pure (a : α) (Q : Except ε α → σ → Prop) (s : σ)
    : wp M H G (pure a) Q s ↔ Q (.ok a) s := by
  rfl

@[simp]
theorem wp_ret (a : α) (Q : Except ε α → σ → Prop) (s : σ)
    : wp M H G (.ret a) Q s ↔ Q (.ok a) s := by
  rfl

@[simp]
theorem wp_raise (e : ε) (Q : Except ε α → σ → Prop) (s : σ)
    : wp M H G (.raise e) Q s ↔ Q (.error e) s := by
  rfl

theorem wp_call (c : S.Call) (k : S.Res c → Prog S ε α) (Q : Except ε α → σ → Prop) (s : σ)
    : wp M H G (.call c k) Q s
        ↔
      G s c ∧ ∀ x, H x → wp M H G (k (M.exec c x s).1) Q (M.exec c x s).2 := by
  rfl

@[simp]
theorem wp_ofExcept (r : Except ε α) (Q : Except ε α → σ → Prop) (s : σ)
    : wp M H G (ofExcept r) Q s ↔ Q r s := by
  cases r <;> rfl

theorem wp_mono {p : Prog S ε α} {Q Q' : Except ε α → σ → Prop} {s : σ}
    (h : wp M H G p Q s) (hQ : ∀ r s', Q r s' → Q' r s') : wp M H G p Q' s := by
  induction p generalizing s with
  | ret a => exact hQ _ _ h
  | raise e => exact hQ _ _ h
  | call c k ih =>
    refine ⟨h.left, ?_⟩
    intro x hx
    exact ih _ (h.right x hx)

theorem wp_of_forall (hG : ∀ s c, G s c) {Q : Except ε α → σ → Prop} (hQ : ∀ r s, Q r s)
    (p : Prog S ε α) (s : σ) : wp M H G p Q s := by
  induction p generalizing s with
  | ret a => exact hQ _ _
  | raise e => exact hQ _ _
  | call c k ih => exact ⟨hG s c, fun x _ => ih _ _⟩

@[simp]
theorem wp_bind (p : Prog S ε α) (f : α → Prog S ε β) (Q : Except ε β → σ → Prop) (s : σ)
    : wp M H G (p >>= f) Q s
        ↔
      wp M H G p
        (fun r s' =>
          match r with
          | .ok a => wp M H G (f a) Q s'
          | .error e => Q (.error e) s') s := by
  induction p generalizing s with
  | ret a => rfl
  | raise e => rfl
  | call c k ih =>
    simp only [wp_call]
    constructor
    . rintro ⟨hguard, h⟩
      exact ⟨hguard, fun x hx => (ih _ _).mp (h x hx)⟩
    . rintro ⟨hguard, h⟩
      exact ⟨hguard, fun x hx => (ih _ _).mpr (h x hx)⟩

theorem wp_seq {p : Prog S ε α} {f : α → Prog S ε β} {Q : Except ε β → σ → Prop} {s : σ}
    (herror : ∀ e s', Q (.error e) s')
    (h : wp M H G p (fun r s' => ∀ a, r = .ok a → wp M H G (f a) Q s') s)
    : wp M H G (p >>= f) Q s := by
  rw [wp_bind]
  apply wp_mono h
  intro r s' hr
  cases r with
  | ok a => exact hr a rfl
  | error e => exact herror e s'

@[simp]
theorem wp_catching (p : Prog S ε α) (handler : ε → Prog S ε α) (Q : Except ε α → σ → Prop) (s : σ)
    : wp M H G (p.catching handler) Q s
        ↔
      wp M H G p
        (fun r s' =>
          match r with
          | .ok a => Q (.ok a) s'
          | .error e => wp M H G (handler e) Q s') s := by
  induction p generalizing s with
  | ret a => rfl
  | raise e => rfl
  | call c k ih =>
    simp only [catching, wp_call, ih]

theorem wp_request {c : S.Call} {outcome : S.Res c → Except ε α} {Q : Except ε α → σ → Prop} {s : σ}
    (hguard : G s c) (h : ∀ x, H x → Q (outcome (M.exec c x s).1) (M.exec c x s).2)
    : wp M H G (request c outcome) Q s := by
  refine ⟨hguard, fun x hx => ?_⟩
  rw [wp_ofExcept]
  exact h x hx

theorem wp_ensuring {skips : ε → Bool} {p : Prog S ε α} {cleanup : Option ε → Prog S ε Unit}
    {P Q : Except ε α → σ → Prop} {s : σ} (hp : wp M H G p P s)
    (hskips : ∀ e s', skips e = true → P (.error e) s' → Q (.error e) s')
    (hcleanup : ∀ r e s', P r s' → (∀ e, r = .error e → skips e = false) →
      wp M H G (cleanup e)
        (fun r' s'' =>
          match r' with
          | .ok _ => Q r s''
          | .error e => Q (.error e) s'') s')
    : wp M H G (ensuring skips p cleanup) Q s := by
  unfold ensuring
  rw [wp_bind, wp_catching]
  apply wp_mono hp
  intro r s' hr
  cases r with
  | ok a =>
    dsimp only
    rw [wp_bind]
    apply wp_mono (hcleanup (.ok a) none s' hr nofun)
    intro r' s'' hr'
    cases r' <;> exact hr'
  | error e =>
    dsimp only
    split
    . next hskip => exact hskips e s' hskip hr
    . next hskip =>
      rw [wp_bind]
      have hpassed : ∀ e', Except.error (α := α) e = .error e' → skips e' = false := by
        rintro _ ⟨⟩
        exact Bool.eq_false_iff.mpr hskip
      apply wp_mono (hcleanup (.error e) (some e) s' hr hpassed)
      intro r' s'' hr'
      cases r' <;> exact hr'

@[simp]
theorem wp_map (f : α → β) (p : Prog S ε α) (Q : Except ε β → σ → Prop) (s : σ)
    : wp M H G (f <$> p) Q s ↔ wp M H G p (fun r s' => Q (r.map f) s') s := by
  have : (f <$> p) = p >>= fun a => pure (f a) := rfl
  rw [this, wp_bind]
  constructor
  . intro h
    apply wp_mono h
    intro r s'
    cases r <;> exact id
  . intro h
    apply wp_mono h
    intro r s'
    cases r <;> exact id

theorem wp_forM {l : List β} {f : β → Prog S ε PUnit} {Q : Except ε PUnit → σ → Prop} {s : σ}
    (I : List β → σ → Prop) (hinit : I l s)
    (hstep : ∀ x xs s, I (x :: xs) s →
      wp M H G (f x)
        (fun r s' =>
          match r with
          | .ok _ => I xs s'
          | .error e => Q (.error e) s') s)
    (hdone : ∀ s, I [] s → Q (.ok ⟨⟩) s)
    : wp M H G (forM l f) Q s := by
  induction l generalizing s with
  | nil => exact hdone s hinit
  | cons x xs ih =>
    rw [List.forM_cons, wp_bind]
    apply wp_mono (hstep x xs s hinit)
    intro r s' h
    cases r with
    | ok a => exact ih h
    | error e => exact h

theorem wp_foldlM {l : List β} {f : α → β → Prog S ε α} {a : α} {Q : Except ε α → σ → Prop} {s : σ}
    (I : List β → α → σ → Prop) (hinit : I l a s)
    (hstep : ∀ x xs a s, I (x :: xs) a s →
      wp M H G (f a x)
        (fun r s' =>
          match r with
          | .ok a' => I xs a' s'
          | .error e => Q (.error e) s') s)
    (hdone : ∀ a s, I [] a s → Q (.ok a) s)
    : wp M H G (l.foldlM f a) Q s := by
  induction l generalizing a s with
  | nil => exact hdone a s hinit
  | cons x xs ih =>
    rw [List.foldlM_cons, wp_bind]
    apply wp_mono (hstep x xs a s hinit)
    intro r s' h
    cases r with
    | ok a' => exact ih h
    | error e => exact h

def Always (M : Machine S σ η) (H : η → Prop) (G : σ → S.Call → Prop) (p : Prog S ε α) : Prop :=
  ∀ s, wp M H G p (fun _ _ => True) s

namespace Always

theorem pure (a : α) : Always M H G (ε := ε) (Pure.pure a) :=
  fun _ => trivial

theorem raise (e : ε) : Always M H G (α := α) (.raise e) :=
  fun _ => trivial

theorem ofExcept (r : Except ε α) : Always M H G (Prog.ofExcept r) := by
  intro s
  rw [wp_ofExcept]
  trivial

theorem perform {c : S.Call} (h : ∀ s, G s c) : Always M H G (ε := ε) (Prog.perform c) :=
  fun s => ⟨h s, fun _ _ => trivial⟩

theorem bind {p : Prog S ε α} {f : α → Prog S ε β} (hp : Always M H G p)
    (hf : ∀ a, Always M H G (f a)) : Always M H G (p >>= f) := by
  intro s
  rw [wp_bind]
  apply wp_mono (hp s)
  intro r s' _
  cases r with
  | ok a => exact hf a s'
  | error e => trivial

theorem catching {p : Prog S ε α} {handler : ε → Prog S ε α} (hp : Always M H G p)
    (hhandler : ∀ e, Always M H G (handler e)) : Always M H G (p.catching handler) := by
  intro s
  rw [wp_catching]
  apply wp_mono (hp s)
  intro r s' _
  cases r with
  | ok a => trivial
  | error e => exact hhandler e s'

theorem map {p : Prog S ε α} (f : α → β) (hp : Always M H G p) : Always M H G (f <$> p) := by
  intro s
  rw [wp_map]
  exact hp s

theorem forM {f : β → Prog S ε PUnit} (h : ∀ x, Always M H G (f x)) (l : List β)
    : Always M H G (ForM.forM l f) := by
  induction l with
  | nil => exact .pure _
  | cons x xs ih =>
    rw [List.forM_cons]
    exact .bind (h x) (fun _ => ih)

theorem foldlM {f : α → β → Prog S ε α} (h : ∀ a x, Always M H G (f a x)) (l : List β) (a : α)
    : Always M H G (l.foldlM f a) := by
  induction l generalizing a with
  | nil => exact .pure _
  | cons x xs ih =>
    rw [List.foldlM_cons]
    exact .bind (h a x) ih

end Always

def Makes (P : S.Call → Prop) (p : Prog S ε α) : Prop :=
  match p with
  | .ret _ | .raise _ => True
  | .call c k => P c ∧ ∀ r, Makes P (k r)

namespace Makes

variable {P : S.Call → Prop}

theorem pure (a : α) : Makes P (Pure.pure a : Prog S ε α) :=
  trivial

theorem ofExcept (r : Except ε α) : Makes P (Prog.ofExcept (S := S) r) := by
  cases r <;> trivial

theorem perform {c : S.Call} (h : P c) : Makes P (Prog.perform c : Prog S ε (S.Res c)) :=
  ⟨h, fun _ => trivial⟩

theorem call {c : S.Call} {r : S.Res c → Except ε α} (h : P c)
    : Makes P (.call c (fun a => Prog.ofExcept (r a))) :=
  ⟨h, fun _ => .ofExcept _⟩

theorem bind {p : Prog S ε α} {f : α → Prog S ε β} (hp : Makes P p) (hf : ∀ a, Makes P (f a))
    : Makes P (p >>= f) := by
  induction p with
  | ret a => exact hf a
  | raise e => trivial
  | call c k ih => exact ⟨hp.left, fun r => ih r (hp.right r)⟩

theorem catching {p : Prog S ε α} {handler : ε → Prog S ε α} (hp : Makes P p)
    (hhandler : ∀ e, Makes P (handler e)) : Makes P (p.catching handler) := by
  induction p with
  | ret a => trivial
  | raise e => exact hhandler e
  | call c k ih => exact ⟨hp.left, fun r => ih r (hp.right r)⟩

theorem map {p : Prog S ε α} (f : α → β) (hp : Makes P p) : Makes P (f <$> p) :=
  hp.bind (fun a => .pure (f a))

theorem forM {f : β → Prog S ε PUnit} (h : ∀ x, Makes P (f x)) (l : List β)
    : Makes P (ForM.forM l f) := by
  induction l with
  | nil => exact .pure _
  | cons x xs ih =>
    rw [List.forM_cons]
    exact .bind (h x) (fun _ => ih)

end Makes

theorem wp_of_makes {P : S.Call → Prop} (I : σ → Prop) (hguard : ∀ s c, I s → P c → G s c)
    (hkeep : ∀ s c x, I s → P c → H x → I (M.exec c x s).2) {p : Prog S ε α} (hp : Makes P p)
    {Q : Except ε α → σ → Prop} (hQ : ∀ r s, I s → Q r s) {s : σ} (hs : I s) : wp M H G p Q s := by
  induction p generalizing s with
  | ret a => exact hQ _ _ hs
  | raise e => exact hQ _ _ hs
  | call c k ih =>
    refine ⟨hguard s c hs hp.left, ?_⟩
    intro x hx
    exact ih _ (hp.right _) (hkeep s c x hs hp.left hx)

theorem wp_guard_forall {ι : Type} [Nonempty ι] {Gs : ι → σ → S.Call → Prop}
    (hG : ∀ s c, (∀ i, Gs i s c) → G s c) {p : Prog S ε α} {Q : Except ε α → σ → Prop} {s : σ}
    (h : ∀ i, wp M H (Gs i) p Q s) : wp M H G p Q s := by
  have ⟨i⟩ := ‹Nonempty ι›
  induction p generalizing s with
  | ret a => exact h i
  | raise e => exact h i
  | call c k ih =>
    refine ⟨hG s c (fun i => (h i).left), ?_⟩
    intro x hx
    exact ih _ (fun i => (h i).right x hx)

theorem wp_keep {p : Prog S ε α} {Q : Except ε α → σ → Prop} {s : σ} (I : σ → Prop)
    (hkeep : ∀ s c x, I s → G s c → H x → I (M.exec c x s).2) (hwp : wp M H G p Q s) (hs : I s)
    : wp M H G p (fun r s' => Q r s' ∧ I s') s := by
  induction p generalizing s with
  | ret a => exact ⟨hwp, hs⟩
  | raise e => exact ⟨hwp, hs⟩
  | call c k ih =>
    refine ⟨hwp.left, ?_⟩
    intro x hx
    exact ih _ (hwp.right x hx) (hkeep s c x hs hwp.left hx)

theorem Runs.of_wp {p : Prog S ε α} {Q : Except ε α → σ → Prop} {s s' : σ} {r : Except ε α}
    (hruns : Runs M H p s r s') (hwp : wp M H G p Q s) : Q r s' := by
  induction p generalizing s with
  | ret a =>
    obtain ⟨rfl, rfl⟩ := hruns
    exact hwp
  | raise e =>
    obtain ⟨rfl, rfl⟩ := hruns
    exact hwp
  | call c k ih =>
    obtain ⟨x, hx, hruns⟩ := hruns
    exact ih _ hruns (hwp.right x hx)

theorem Runs.mono {H' : η → Prop} {p : Prog S ε α} {s s' : σ} {r : Except ε α} (h : Runs M H p s r s')
    (hH : ∀ x, H x → H' x) : Runs M H' p s r s' := by
  induction p generalizing s with
  | ret a | raise e => exact h
  | call c k ih =>
    have ⟨x, hx, hruns⟩ := h
    exact ⟨x, hH x hx, ih _ hruns⟩

theorem runs_map_iff (f : α → β) (p : Prog S ε α) (s s' : σ) (r : Except ε β)
    : Runs M H (f <$> p) s r s' ↔ ∃ r', Runs M H p s r' s' ∧ r = r'.map f := by
  induction p generalizing s with
  | ret a =>
    constructor
    . rintro ⟨hr, hs⟩
      exact ⟨.ok a, ⟨rfl, hs⟩, hr⟩
    . rintro ⟨r', ⟨rfl, hs⟩, hr⟩
      exact ⟨hr, hs⟩
  | raise e =>
    constructor
    . rintro ⟨hr, hs⟩
      exact ⟨.error e, ⟨rfl, hs⟩, hr⟩
    . rintro ⟨r', ⟨rfl, hs⟩, hr⟩
      exact ⟨hr, hs⟩
  | call c k ih =>
    constructor
    . rintro ⟨x, hx, hruns⟩
      have ⟨r', hruns', hr⟩ := (ih _ _).mp hruns
      exact ⟨r', ⟨x, hx, hruns'⟩, hr⟩
    . rintro ⟨r', ⟨x, hx, hruns'⟩, hr⟩
      exact ⟨x, hx, (ih _ _).mpr ⟨r', hruns', hr⟩⟩

theorem Runs.map_state {f : σ → σ} {I : σ → Prop}
    (hexec : ∀ s c x, I s → G s c → H x →
      M.exec c x (f s) = ((M.exec c x s).1, f (M.exec c x s).2) ∧ I (M.exec c x s).2)
    {p : Prog S ε α} {Q : Except ε α → σ → Prop} {s s' : σ} {r : Except ε α} (h : Runs M H p s r s')
    (hwp : wp M H G p Q s) (hs : I s) : Runs M H p (f s) r (f s') ∧ I s' := by
  induction p generalizing s with
  | ret a | raise e =>
    obtain ⟨hr, rfl⟩ := h
    exact ⟨⟨hr, rfl⟩, hs⟩
  | call c k ih =>
    have ⟨x, hx, hruns⟩ := h
    have ⟨heq, hs1⟩ := hexec s c x hs hwp.left hx
    have ⟨hmapped, hs'⟩ := ih _ hruns (hwp.right x hx) hs1
    refine ⟨⟨x, hx, ?_⟩, hs'⟩
    rw [heq]
    exact hmapped

theorem runs_bind_iff (p : Prog S ε α) (f : α → Prog S ε β) (s s' : σ) (r : Except ε β)
    : Runs M H (p >>= f) s r s'
        ↔
      (∃ a s1, Runs M H p s (.ok a) s1 ∧ Runs M H (f a) s1 r s')
        ∨ ∃ e, Runs M H p s (.error e) s' ∧ r = .error e := by
  induction p generalizing s with
  | ret a =>
    constructor
    . intro h
      exact .inl ⟨a, s, ⟨rfl, rfl⟩, h⟩
    . rintro (⟨a', s1, ⟨ha, rfl⟩, h⟩ | ⟨e, ⟨he, _⟩, _⟩)
      . injection ha with ha
        subst ha
        exact h
      . contradiction
  | raise e =>
    constructor
    . rintro ⟨rfl, rfl⟩
      exact .inr ⟨e, ⟨rfl, rfl⟩, rfl⟩
    . rintro (⟨a', s1, ⟨ha, _⟩, _⟩ | ⟨e', ⟨he, hs⟩, rfl⟩)
      . contradiction
      . injection he with he
        subst he
        exact ⟨rfl, hs⟩
  | call c k ih =>
    constructor
    . rintro ⟨x, hx, h⟩
      cases (ih _ _).mp h with
      | inl h =>
        have ⟨a, s1, hp, hf⟩ := h
        exact .inl ⟨a, s1, ⟨x, hx, hp⟩, hf⟩
      | inr h =>
        have ⟨e, hp, hr⟩ := h
        exact .inr ⟨e, ⟨x, hx, hp⟩, hr⟩
    . rintro (⟨a, s1, ⟨x, hx, hp⟩, hf⟩ | ⟨e, ⟨x, hx, hp⟩, hr⟩)
      . exact ⟨x, hx, (ih _ _).mpr (.inl ⟨a, s1, hp, hf⟩)⟩
      . exact ⟨x, hx, (ih _ _).mpr (.inr ⟨e, hp, hr⟩)⟩

theorem exists_of_runs_catching {p : Prog S ε α} {handler : ε → Prog S ε α} {s s' : σ} {r : Except ε α}
    (h : Runs M H (p.catching handler) s r s')
    : (∃ a, Runs M H p s (.ok a) s' ∧ r = .ok a)
        ∨ ∃ e s1, Runs M H p s (.error e) s1 ∧ Runs M H (handler e) s1 r s' := by
  induction p generalizing s with
  | ret a =>
    obtain ⟨rfl, rfl⟩ := h
    exact .inl ⟨a, ⟨rfl, rfl⟩, rfl⟩
  | raise e => exact .inr ⟨e, s, ⟨rfl, rfl⟩, h⟩
  | call c k ih =>
    obtain ⟨x, hx, h⟩ := h
    rcases ih _ h with ⟨a, hruns, hr⟩ | ⟨e, s1, hruns, hhandler⟩
    . exact .inl ⟨a, ⟨x, hx, hruns⟩, hr⟩
    . exact .inr ⟨e, s1, ⟨x, hx, hruns⟩, hhandler⟩

theorem runs_perform_bind_iff (c : S.Call) (f : S.Res c → Prog S ε α) (s s' : σ) (r : Except ε α)
    : Runs M H (perform c >>= f) s r s'
        ↔
      ∃ x, H x ∧ Runs M H (f (M.exec c x s).1) (M.exec c x s).2 r s' := by
  rfl

theorem eval_bind (M : Machine S σ η) (x : η) (p : Prog S ε α) (f : α → Prog S ε β) (s : σ)
    : eval M x (p >>= f) s
        =
      match eval M x p s with
      | (.ok a, s') => eval M x (f a) s'
      | (.error e, s') => (.error e, s') := by
  induction p generalizing s with
  | ret a => rfl
  | raise e => rfl
  | call c k ih => exact ih _ _

theorem runs_eval {x : η} (hx : H x) (p : Prog S ε α) (s : σ)
    : Runs M H p s (eval M x p s).1 (eval M x p s).2 := by
  induction p generalizing s with
  | ret a => exact ⟨rfl, rfl⟩
  | raise e => exact ⟨rfl, rfl⟩
  | call c k ih => exact ⟨x, hx, ih _ _⟩

end Prog
