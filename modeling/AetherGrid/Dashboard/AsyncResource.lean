import AetherGrid.Prog.Guarded
import Mathlib.Data.List.Pairwise
import Mathlib.Tactic.Common

/-!
This module contains the hook `useAsyncResource` of the dashboard.
-/

namespace AetherGrid

namespace Dashboard

structure UseAsyncResourceOptions where
  pollIntervalMs : Option Nat := none
  resetLoadingOnRefresh : Bool := true

structure EffectRun (δ : Type) where
  id : Nat
  deps : δ
  refreshToken : Nat
  options : UseAsyncResourceOptions

def EffectRun.polls {δ : Type} (run : EffectRun δ) : Bool :=
  run.options.pollIntervalMs.any (· ≠ 0)

structure Fetch where
  id : Nat
  run : Nat
  deriving DecidableEq

inductive Settlement (T : Type) where
  | fulfilled (result : T)
  -- without a message if what is thrown is not an `Error`
  | rejected (message : Option String)

structure Hook (T δ : Type) where
  data : Option T := none
  loading : Bool := true
  error : Option String := none
  refreshToken : Nat := 0
  -- the run whose cleanup is still to come
  effect : Option (EffectRun δ) := none
  runs : Nat := 0
  -- the runs whose signal says `ignore`
  ignored : List Nat := []
  started : Nat := 0
  inFlight : List Fetch := []
  -- the fetches whose response or error was applied, the last one first
  applied : List Nat := []

inductive Event (T δ : Type) where
  | refresh
  | render (deps : δ) (options : UseAsyncResourceOptions)
  | unmount
  | tick
  | settle (id : Nat) (settlement : Settlement T)

namespace Hook

variable {T δ : Type}

def load (run : EffectRun δ) (isRefresh : Bool) (hook : Hook T δ) : Hook T δ :=
  let hook :=
    if isRefresh && run.options.resetLoadingOnRefresh then
      { hook with loading := true, error := none }
    else
      hook
  { hook with started := hook.started + 1, inFlight := ⟨hook.started, run.id⟩ :: hook.inFlight }

def apply (settlement : Settlement T) (hook : Hook T δ) : Hook T δ :=
  match settlement with
  | .fulfilled result => { hook with data := some result, error := none, loading := false }
  | .rejected message => { hook with error := some (message.getD "Unknown error"), loading := false }

def cleanup (hook : Hook T δ) : Hook T δ :=
  match hook.effect with
  | none => hook
  | some run => { hook with effect := none, ignored := run.id :: hook.ignored }

def runEffect (deps : δ) (options : UseAsyncResourceOptions) (hook : Hook T δ) : Hook T δ :=
  let run : EffectRun δ := { id := hook.runs, deps, refreshToken := hook.refreshToken, options }
  let hook := { hook with effect := some run, runs := hook.runs + 1 }
  hook.load run (0 < hook.refreshToken)

def settle (id : Nat) (settlement : Settlement T) (hook : Hook T δ) : Hook T δ :=
  match hook.inFlight.find? (fun fetch => fetch.id = id) with
  | none => hook
  | some fetch =>
    let hook := { hook with inFlight := hook.inFlight.filter (fun fetch => fetch.id ≠ id) }
    if fetch.run ∈ hook.ignored then
      hook
    else
      { hook.apply settlement with applied := id :: hook.applied }

def step [DecidableEq δ] (hook : Hook T δ) (event : Event T δ) : Hook T δ :=
  match event with
  | .refresh => { hook with refreshToken := hook.refreshToken + 1 }
  | .render deps options =>
    if hook.effect.any (fun run => run.deps = deps ∧ run.refreshToken = hook.refreshToken) then
      hook
    else
      hook.cleanup.runEffect deps options
  | .unmount => hook.cleanup
  | .tick =>
    match hook.effect with
    | some run => if run.polls then hook.load run false else hook
    | none => hook
  | .settle id settlement => hook.settle id settlement

def NewestLast (hook : Hook T δ) : Prop :=
  hook.applied.Pairwise (fun later earlier => earlier < later)

instance (hook : Hook T δ) : Decidable hook.NewestLast :=
  inferInstanceAs (Decidable (hook.applied.Pairwise (fun later earlier => earlier < later)))

def Awaited (hook : Hook T δ) (fetch : Fetch) : Prop :=
  fetch ∈ hook.inFlight ∧ fetch.run ∉ hook.ignored

structure OneAwaited (hook : Hook T δ) : Prop where
  current : ∀ fetch, hook.Awaited fetch → ∃ run, hook.effect = some run ∧ run.id = fetch.run
  alone : ∀ fetch other, hook.Awaited fetch → hook.Awaited other → fetch = other
  awaited_lt_started : ∀ fetch, hook.Awaited fetch → fetch.id < hook.started
  applied_lt_awaited : ∀ fetch, hook.Awaited fetch → ∀ id ∈ hook.applied, id < fetch.id
  applied_lt_started : ∀ id ∈ hook.applied, id < hook.started
  newestLast : hook.NewestLast

section Apply

variable (settlement : Settlement T) (hook : Hook T δ)

@[simp]
theorem apply_inFlight : (hook.apply settlement).inFlight = hook.inFlight := by
  cases settlement <;> rfl

@[simp]
theorem apply_ignored : (hook.apply settlement).ignored = hook.ignored := by
  cases settlement <;> rfl

@[simp]
theorem apply_started : (hook.apply settlement).started = hook.started := by
  cases settlement <;> rfl

end Apply

namespace OneAwaited

variable {hook : Hook T δ} {run : EffectRun δ}

theorem of_not_awaited (hnone : ∀ fetch, ¬ hook.Awaited fetch)
    (happlied : ∀ id ∈ hook.applied, id < hook.started) (hnewest : hook.NewestLast)
    : hook.OneAwaited where
  current := fun fetch hfetch => absurd hfetch (hnone fetch)
  alone := fun fetch _ hfetch => absurd hfetch (hnone fetch)
  awaited_lt_started := fun fetch hfetch => absurd hfetch (hnone fetch)
  applied_lt_awaited := fun fetch hfetch => absurd hfetch (hnone fetch)
  applied_lt_started := happlied
  newestLast := hnewest

theorem mono {hook' : Hook T δ} (h : hook.OneAwaited)
    (hawaited : ∀ fetch, hook'.Awaited fetch → hook.Awaited fetch)
    (heffect : hook'.effect = hook.effect) (happlied : hook'.applied = hook.applied)
    (hstarted : hook'.started = hook.started)
    : hook'.OneAwaited := by
  constructor
  . intro fetch hfetch
    rw [heffect]
    exact h.current fetch (hawaited fetch hfetch)
  . intro fetch other hfetch hother
    exact h.alone fetch other (hawaited fetch hfetch) (hawaited other hother)
  . intro fetch hfetch
    rw [hstarted]
    exact h.awaited_lt_started fetch (hawaited fetch hfetch)
  . intro fetch hfetch
    rw [happlied]
    exact h.applied_lt_awaited fetch (hawaited fetch hfetch)
  . rw [happlied, hstarted]
    exact h.applied_lt_started
  . unfold NewestLast
    rw [happlied]
    exact h.newestLast

theorem not_awaited_cleanup (h : hook.OneAwaited) (fetch : Fetch) : ¬ hook.cleanup.Awaited fetch := by
  unfold cleanup
  cases heffect : hook.effect with
  | none =>
    intro hfetch
    have ⟨run, hrun, _⟩ := h.current fetch hfetch
    rw [heffect] at hrun
    contradiction
  | some run =>
    rintro ⟨hmem, hignored⟩
    simp only [List.mem_cons, not_or] at hignored
    have ⟨run', hrun', hid⟩ := h.current fetch ⟨hmem, hignored.right⟩
    rw [heffect] at hrun'
    injection hrun' with hrun'
    rw [hrun'] at hignored
    exact hignored.left hid.symm

theorem cleanup (h : hook.OneAwaited) : hook.cleanup.OneAwaited := by
  refine of_not_awaited h.not_awaited_cleanup ?_ ?_
  . unfold Hook.cleanup
    split <;> exact h.applied_lt_started
  . unfold Hook.cleanup
    split <;> exact h.newestLast

theorem load (h : hook.OneAwaited) (hnone : ∀ fetch, ¬ hook.Awaited fetch)
    (heffect : hook.effect = some run) (isRefresh : Bool) : (hook.load run isRefresh).OneAwaited := by
  have hfields : (hook.load run isRefresh).effect = hook.effect
      ∧ (hook.load run isRefresh).ignored = hook.ignored
      ∧ (hook.load run isRefresh).applied = hook.applied
      ∧ (hook.load run isRefresh).started = hook.started + 1
      ∧ (hook.load run isRefresh).inFlight = ⟨hook.started, run.id⟩ :: hook.inFlight := by
    unfold Hook.load
    split <;> simp
  have ⟨heffect', hignored, happlied, hstarted, hinFlight⟩ := hfields
  have honly : ∀ fetch, (hook.load run isRefresh).Awaited fetch → fetch = ⟨hook.started, run.id⟩ := by
    rintro fetch ⟨hmem, hnot⟩
    rw [hinFlight, List.mem_cons] at hmem
    rw [hignored] at hnot
    rcases hmem with heq | hmem
    . exact heq
    . exact absurd ⟨hmem, hnot⟩ (hnone fetch)
  constructor
  . intro fetch hfetch
    rw [honly fetch hfetch, heffect']
    exact ⟨run, heffect, rfl⟩
  . intro fetch other hfetch hother
    rw [honly fetch hfetch, honly other hother]
  . intro fetch hfetch
    rw [honly fetch hfetch, hstarted]
    exact Nat.lt_succ_self _
  . intro fetch hfetch
    rw [honly fetch hfetch, happlied]
    exact h.applied_lt_started
  . intro id hid
    rw [happlied] at hid
    have := h.applied_lt_started id hid
    omega
  . unfold NewestLast
    rw [happlied]
    exact h.newestLast

theorem runEffect (h : hook.OneAwaited) (hnone : ∀ fetch, ¬ hook.Awaited fetch) (deps : δ)
    (options : UseAsyncResourceOptions) : (hook.runEffect deps options).OneAwaited := by
  let run : EffectRun δ := { id := hook.runs, deps, refreshToken := hook.refreshToken, options }
  have hnext : ({ hook with effect := some run, runs := hook.runs + 1 } : Hook T δ).OneAwaited :=
    of_not_awaited hnone h.applied_lt_started h.newestLast
  exact hnext.load hnone rfl _

theorem settle (h : hook.OneAwaited) (id : Nat) (settlement : Settlement T)
    : (hook.settle id settlement).OneAwaited := by
  have hfewer : ∀ fetch, fetch ∈ hook.inFlight.filter (fun fetch => fetch.id ≠ id) →
      fetch ∈ hook.inFlight ∧ fetch.id ≠ id := by
    simp
  unfold Hook.settle
  split
  . exact h
  . next fetch hfind =>
    have hid : fetch.id = id := by simpa using List.find?_some hfind
    simp only
    split
    . exact h.mono (fun _ hother => ⟨(hfewer _ hother.left).left, hother.right⟩) rfl rfl rfl
    . next hignored =>
      have hfetch : hook.Awaited fetch := ⟨List.mem_of_find?_eq_some hfind, hignored⟩
      have hstarted := h.awaited_lt_started fetch hfetch
      have hlater := h.applied_lt_awaited fetch hfetch
      rw [hid] at hstarted hlater
      refine of_not_awaited ?_ ?_ ?_
      . -- the fetch was the only one that was awaited
        intro other hother
        simp only [Awaited, apply_inFlight, apply_ignored] at hother
        have ⟨hmem, hne⟩ := hfewer other hother.left
        rw [h.alone other fetch ⟨hmem, hother.right⟩ hfetch] at hne
        exact hne hid
      . simp only [apply_started, List.forall_mem_cons]
        exact ⟨hstarted, h.applied_lt_started⟩
      . exact List.pairwise_cons.mpr ⟨hlater, h.newestLast⟩

end OneAwaited

end Hook

def Event.Settled {T δ : Type} (hook : Hook T δ) (event : Event T δ) : Prop :=
  match event with
  | .tick => ∀ run, hook.effect = some run → run.polls → ∀ fetch ∈ hook.inFlight, fetch.run ≠ run.id
  | _ => True

namespace Hook

variable {T δ : Type} [DecidableEq δ]

theorem OneAwaited.step {hook : Hook T δ} {event : Event T δ} (h : hook.OneAwaited)
    (hsettled : event.Settled hook) : (hook.step event).OneAwaited := by
  cases event with
  | refresh => exact h.mono (fun _ hfetch => hfetch) rfl rfl rfl
  | render deps options =>
    simp only [Hook.step]
    split
    . exact h
    . exact h.cleanup.runEffect h.not_awaited_cleanup deps options
  | unmount => exact h.cleanup
  | tick =>
    simp only [Hook.step]
    split
    . next run heffect =>
      split
      . next hpolls =>
        refine h.load ?_ heffect false
        intro fetch hfetch
        have ⟨run', hrun', hid⟩ := h.current fetch hfetch
        rw [heffect] at hrun'
        injection hrun' with hrun'
        rw [← hrun'] at hid
        exact hsettled run heffect hpolls fetch hfetch.left hid.symm
      . exact h
    . exact h
  | settle id settlement => exact h.settle id settlement

theorem newest_last_of_settled {events : List (Event T δ)}
    (hsettled : Guarded (Hook.step (T := T) (δ := δ)) (fun hook event => event.Settled hook) {} events)
    : (events.foldl Hook.step ({} : Hook T δ)).NewestLast := by
  have hinit : ({} : Hook T δ).OneAwaited := by
    refine OneAwaited.of_not_awaited ?_ nofun .nil
    rintro fetch ⟨hmem, _⟩
    contradiction
  have hstep : ∀ (hook : Hook T δ) (event : Event T δ), hook.OneAwaited → event.Settled hook →
      (hook.step event).OneAwaited :=
    fun _ _ h hallowed => h.step hallowed
  exact (hsettled.invariant hstep hinit).newestLast

def pollEvery (ms : Nat) : UseAsyncResourceOptions where
  pollIntervalMs := some ms

theorem newest_last_of_settled_refresh
    : let events : List (Event String Unit) :=
        [.render () (pollEvery 3000), .settle 0 (.fulfilled "first"), .tick, .refresh,
          .render () (pollEvery 3000), .settle 2 (.fulfilled "third"), .settle 1 (.fulfilled "second")]
      (events.foldl Hook.step {}).applied = [2, 0] ∧ (events.foldl Hook.step {}).NewestLast := by
  intro events
  have hsettled : Guarded Hook.step (fun hook event => event.Settled hook) {} events := by
    refine ⟨trivial, trivial, ?_, trivial, trivial, trivial, trivial, trivial⟩
    intro run _ _ fetch hfetch
    exact absurd hfetch List.not_mem_nil
  exact ⟨rfl, newest_last_of_settled hsettled⟩

theorem poll_overtakes_mount
    : let events : List (Event String Unit) :=
        [.render () (pollEvery 3000), .tick, .settle 1 (.fulfilled "new"), .settle 0 (.fulfilled "old")]
      (events.foldl Hook.step {}).data = some "old" ∧ ¬ (events.foldl Hook.step {}).NewestLast := by
  decide

end Hook

end Dashboard

end AetherGrid
