import AetherGrid.Migration.Plan
import AetherGrid.Prog.Pool

/-!
This module contains the migration runner.
-/

namespace AetherGrid

namespace Migrations

open Prog

inductive RunError where
  | database (message : String)
  | migration (message : String)
  deriving DecidableEq

structure Work where
  ran : List Migration := []
  rows : List Row := []
  deriving DecidableEq

structure Server (σ κ : Type) where
  table : Option (List Row)
  schema : σ
  lock : Option κ
  work : κ → Option Work
  closed : κ → Bool

inductive Call (κ : Type) where
  | tryAdvisoryLock (conn : κ)
  | advisoryUnlock (conn : κ)
  | createTable (conn : κ)
  | selectRecorded (conn : κ)
  | beginTransaction (conn : κ)
  | execute (conn : κ) (migration : Migration)
  | insertRow (conn : κ) (row : Row)
  | commit (conn : κ)
  | rollback (conn : κ)
  | close (conn : κ)

namespace Call

variable {κ : Type}

abbrev Answer (c : Call κ) : Type :=
  match c with
  | .tryAdvisoryLock _ => Bool
  | .selectRecorded _ => List Row
  | _ => Unit

def conn (c : Call κ) : κ :=
  match c with
  | .tryAdvisoryLock conn | .advisoryUnlock conn | .createTable conn | .selectRecorded conn
  | .beginTransaction conn | .execute conn _ | .insertRow conn _ | .commit conn | .rollback conn
  | .close conn => conn

end Call

abbrev signature (κ : Type) : Signature where
  Call := Call κ
  Res c := Except RunError c.Answer

inductive Fate where
  | works
  | fails (message : String)
  | failsLate (message : String)

namespace Server

variable {σ κ : Type} [DecidableEq κ]

-- within a transaction a statement sees what the transaction has done
def insertRow (s : Server σ κ) (conn : κ) (row : Row) : Except RunError (Server σ κ) :=
  match s.table with
  | none => .error (.database "relation \"schema_migrations\" does not exist")
  | some rows =>
    let work := s.work conn
    if (rows ++ (work.map (·.rows)).getD []).any (·.version = row.version) then
      .error (.database "duplicate key value violates unique constraint \"schema_migrations_pkey\"")
    else
      match work with
      | none => .ok { s with table := some (rows ++ [row]) }
      | some work =>
        .ok { s with work := Function.update s.work conn (some { work with rows := work.rows ++ [row] }) }

def execute (effect : Migration → σ → σ) (s : Server σ κ) (conn : κ) (migration : Migration)
    : Server σ κ :=
  match s.work conn with
  | none => { s with schema := effect migration s.schema }
  | some work =>
    { s with work := Function.update s.work conn (some { work with ran := work.ran ++ [migration] }) }

def commit (effect : Migration → σ → σ) (s : Server σ κ) (conn : κ) : Server σ κ :=
  match s.work conn with
  | none => s
  | some work =>
    { s with
      table := s.table.map (· ++ work.rows)
      schema := work.ran.foldl (fun schema migration => effect migration schema) s.schema
      work := Function.update s.work conn none }

def close (s : Server σ κ) (conn : κ) : Server σ κ :=
  { s with
    lock := if s.lock = some conn then none else s.lock
    work := Function.update s.work conn none
    closed := Function.update s.closed conn true }

def mayLock (s : Server σ κ) (conn : κ) : Bool :=
  s.lock = none ∨ s.lock = some conn

def after (effect : Migration → σ → σ) (s : Server σ κ) (c : Call κ) : Server σ κ :=
  match c with
  | .tryAdvisoryLock conn => if s.mayLock conn then { s with lock := some conn } else s
  | .advisoryUnlock conn => { s with lock := if s.lock = some conn then none else s.lock }
  | .createTable _ => { s with table := some (s.table.getD []) }
  | .selectRecorded _ => s
  | .beginTransaction conn => { s with work := Function.update s.work conn (some {}) }
  | .execute conn migration => s.execute effect conn migration
  | .insertRow conn row =>
    match s.insertRow conn row with
    | .ok s' => s'
    | .error _ => s
  | .commit conn => s.commit effect conn
  | .rollback conn => { s with work := Function.update s.work conn none }
  | .close conn => s.close conn

def answer (s : Server σ κ) (c : Call κ) : Except RunError c.Answer :=
  match c with
  | .tryAdvisoryLock conn => .ok (s.mayLock conn)
  | .selectRecorded _ =>
    match s.table with
    | none => .error (.database "relation \"schema_migrations\" does not exist")
    | some rows => .ok (inVersionOrder rows)
  | .insertRow conn row =>
    match s.insertRow conn row with
    | .ok _ => .ok ()
    | .error e => .error e
  | .advisoryUnlock _ | .createTable _ | .beginTransaction _ | .execute _ _ | .commit _ | .rollback _
  | .close _ => .ok ()

def exec (effect : Migration → σ → σ) (c : Call κ) (fate : Fate) (s : Server σ κ)
    : Except RunError c.Answer × Server σ κ :=
  if s.closed c.conn then
    (.error (.database "the connection is closed"), s)
  else
    match fate with
    | .works => (s.answer c, s.after effect c)
    | .fails message => (.error (.database message), s)
    | .failsLate message => (.error (.database message), s.after effect c)

end Server

section runner

variable {κ : Type}

abbrev Runner (κ : Type) := Prog (signature κ) RunError

def ask (c : Call κ) : Runner κ c.Answer :=
  request (S := signature κ) c id

-- `try: p finally: cleanup`
def tryFinally {α : Type} (p : Runner κ α) (cleanup : Runner κ Unit) : Runner κ α :=
  ensuring (fun _ => false) p (fun _ => cleanup)

-- `attempts` is how often the loop comes round before the deadline
def takeLock (conn : κ) (timeoutSeconds : String) (attempts : Nat) : Runner κ Unit := do
  if ← ask (.tryAdvisoryLock conn) then
    return
  else
    match attempts with
    | 0 =>
      .raise <| .migration <|
        "could not take the migration lock within " ++ timeoutSeconds
          ++ " seconds; another runner holds it"
    | attempts + 1 => takeLock conn timeoutSeconds attempts

def releaseLock (conn : κ) : Runner κ Unit :=
  (ask (.advisoryUnlock conn)).catching (fun _ => return)

def closeConnection (conn : κ) : Runner κ Unit :=
  (ask (.close conn)).catching (fun _ => return)

def record (conn : κ) (migration : Migration) : Runner κ Unit :=
  ask (.insertRow conn migration.row)

def transaction (conn : κ) (body : Runner κ Unit) : Runner κ Unit := do
  ask (.beginTransaction conn)
  body.catching (fun e => do
    ask (.rollback conn)
    .raise e)
  ask (.commit conn)

def runOne (conn : κ) (migration : Migration) : Runner κ Unit :=
  let body : Runner κ Unit := do
    ask (.execute conn migration)
    record conn migration
  if migration.transactional then
    transaction conn body
  else
    body

def applyOne (conn : κ) (applied : List Nat) (migration : Migration) : Runner κ (List Nat) := do
  (runOne conn migration).catching (fun e =>
    match e with
    | .database message => .raise (.migration (migration.name ++ " failed: " ++ message))
    | e => .raise e)
  return applied ++ [migration.version]

def applyPending (conn : κ) (migrations : List Migration) : Runner κ (List Nat) := do
  ask (.createTable conn)
  let recorded ← ask (.selectRecorded conn)
  match planMigrations recorded migrations with
  | .error message => .raise (.migration message)
  | .ok plan => plan.pending.foldlM (applyOne conn) []

def applyLocked (conn : κ) (migrations : List Migration) (timeoutSeconds : String) (attempts : Nat)
    : Runner κ (List Nat) := do
  takeLock conn timeoutSeconds attempts
  tryFinally (applyPending conn migrations) (releaseLock conn)

def applyMigrations (conn : κ) (migrations : List Migration) (timeoutSeconds : String)
    (attempts : Nat) : Runner κ (List Nat) :=
  tryFinally (applyLocked conn migrations timeoutSeconds attempts) (closeConnection conn)

def killAll (conns : List κ) : Runner κ (List Nat) := do
  forM conns closeConnection
  return []

end runner

structure Note where
  holds : Bool := false
  seen : Bool := false
  current : Bool := false
  known : Nat := 0
  work : Option Work := none

def Fate.takesEffect (fate : Fate) : Bool :=
  match fate with
  | .works | .failsLate _ => true
  | .fails _ => false

section protocol

variable {σ κ ο : Type} [DecidableEq κ] [DecidableEq ο]

def Server.happens (s : Server σ κ) (c : Call κ) (fate : Fate) : Bool :=
  !s.closed c.conn && fate.takesEffect

def Note.after (n : Note) (s : Server σ κ) (c : Call κ) : Note :=
  match c with
  | .tryAdvisoryLock conn => { n with holds := n.holds || s.mayLock conn }
  | .advisoryUnlock _ => { n with holds := false, current := false }
  | .selectRecorded _ =>
    match s.table with
    | none => n
    | some rows => { n with seen := true, current := true, known := rows.length }
  | .beginTransaction _ => { n with work := some {} }
  | .execute _ migration =>
    { n with work := n.work.map (fun work => { work with ran := work.ran ++ [migration] }) }
  | .insertRow conn row =>
    match s.insertRow conn row with
    | .ok _ => { n with work := n.work.map (fun work => { work with rows := work.rows ++ [row] }) }
    | .error _ => n
  | .commit _ =>
    { n with known := n.known + ((n.work.map (·.rows)).getD []).length, work := none }
  | .rollback _ => { n with work := none }
  | .createTable _ | .close _ => n

def watched (effect : Migration → σ → σ) : Watched (signature κ) (Server σ κ) Fate Note where
  exec := Server.exec effect
  note c fate s n := if s.happens c fate then n.after s c else n

variable {effect : Migration → σ → σ}

theorem Server.exec_snd (c : Call κ) (fate : Fate) (s : Server σ κ)
    : (s.exec effect c fate).2 = if s.happens c fate then s.after effect c else s := by
  unfold Server.exec Server.happens
  cases s.closed c.conn with
  | true => rfl
  | false => cases fate <;> rfl

theorem Server.exec_eq_ok {c : Call κ} {fate : Fate} {s : Server σ κ} {a : c.Answer}
    (h : (s.exec effect c fate).1 = .ok a) : s.happens c fate = true ∧ s.answer c = .ok a := by
  unfold Server.exec at h
  unfold Server.happens
  cases hclosed : s.closed c.conn with
  | true =>
    rw [hclosed] at h
    contradiction
  | false =>
    rw [hclosed] at h
    cases fate with
    | works => exact ⟨rfl, h⟩
    | fails message => contradiction
    | failsLate message => contradiction

variable (effect) (seq : List Migration) (schema₀ : σ)

structure Prefix (k : Nat) (s : Server σ κ) : Prop where
  length : k ≤ seq.length
  recorded : s.table.getD [] = (seq.take k).map Migration.row
  schema : s.schema = (seq.take k).foldl (fun schema migration => effect migration schema) schema₀

structure Kept (k : Nat) (s : Server σ κ) (conn : κ) (n : Note) : Prop where
  known : n.known ≤ k
  work : s.closed conn = false → s.work conn = n.work
  holds : s.closed conn = false → n.holds = true → s.lock = some conn
  current : s.closed conn = false → n.current = true → n.holds = true ∧ n.known = k
  seen : n.current = true → n.seen = true
  table : n.seen = true → s.table.isSome = true

def runnerGuard (conn : κ) (n : Note) (c : Call κ) : Prop :=
  c.conn = conn
    ∧ match c with
      | .tryAdvisoryLock _ => n.holds = false
      | .selectRecorded _ => n.holds = true
      | .execute _ _ | .insertRow _ _ => n.work.isSome
      | .commit _ =>
        n.current = true
          ∧ ∃ migration, seq[n.known]? = some migration ∧ n.work = some ⟨[migration], [migration.row]⟩
      | _ => True

def guard (i : κ ⊕ ο) (n : Note) (c : Call κ) : Prop :=
  match i with
  | .inl conn => runnerGuard seq conn n c
  | .inr _ => ∃ conn, c = .close conn

def Inv (s : Server σ κ) (notes : κ ⊕ ο → Note) : Prop :=
  ∃ k, Prefix effect seq schema₀ k s ∧ ∀ conn, Kept k s conn (notes (.inl conn))

variable {effect seq schema₀}
variable {k k' : Nat} {s s' : Server σ κ} {conn : κ} {n : Note}

omit [DecidableEq κ] in
theorem Kept.others (h : Kept k s conn n) (hk : k ≤ k')
    (hclosed : s'.closed conn = false → s.closed conn = false)
    (hwork : s'.closed conn = false → s'.work conn = s.work conn)
    (hlock : s'.closed conn = false → s.lock = some conn → s'.lock = some conn)
    (hcurrent : s.closed conn = false → n.current = true → k' = k)
    (htable : s.table.isSome = true → s'.table.isSome = true) : Kept k' s' conn n where
  known := Nat.le_trans h.known hk
  work hopen := (hwork hopen).trans (h.work (hclosed hopen))
  holds hopen hholds := hlock hopen (h.holds (hclosed hopen) hholds)
  current hopen hcur := by
    have ⟨hholds, hknown⟩ := h.current (hclosed hopen) hcur
    exact ⟨hholds, hknown.trans (hcurrent (hclosed hopen) hcur).symm⟩
  seen := h.seen
  table hseen := htable (h.table hseen)

theorem forall_kept {notes : κ ⊕ ο → Note} (hself : Kept k s conn n)
    (hothers : ∀ other ≠ conn, Kept k s other (notes (.inl other)))
    : ∀ other, Kept k s other (Function.update notes (.inl conn) n (.inl other)) := by
  intro other
  by_cases heq : other = conn
  . subst heq
    rw [Function.update_self]
    exact hself
  . rw [Function.update_of_ne (fun h => heq (Sum.inl_injective h))]
    exact hothers other heq

theorem Kept.update_work (h : Kept k s conn n) {work : Option Work}
    : Kept k { s with work := Function.update s.work conn work } conn { n with work := work } where
  known := h.known
  work _ := Function.update_self ..
  holds := h.holds
  current := h.current
  seen := h.seen
  table := h.table

theorem Kept.update_others (h : Kept k s conn n) {other : κ} (hne : conn ≠ other) {work : Option Work}
    : Kept k { s with work := Function.update s.work other work } conn n :=
  h.others (Nat.le_refl _) id (fun _ => Function.update_of_ne hne ..) (fun _ => id) (fun _ _ => rfl) id

theorem Kept.close (h : Kept k s conn n) (other : κ) : Kept k (s.close other) conn n := by
  by_cases heq : conn = other
  . have hclosed : (s.close other).closed conn = true := by
      rw [heq]
      exact Function.update_self ..
    refine ⟨h.known, ?_, ?_, ?_, h.seen, h.table⟩
    all_goals
      intro hopen
      rw [hclosed] at hopen
      contradiction
  . refine h.others (Nat.le_refl _) ?_ ?_ ?_ (fun _ _ => rfl) id
    . unfold Server.close
      dsimp only
      rw [Function.update_of_ne heq]
      exact id
    . intro _
      exact Function.update_of_ne heq ..
    . intro _ hlock
      unfold Server.close
      dsimp only
      rw [hlock, if_neg]
      intro h
      injection h with h
      exact heq h

omit [DecidableEq κ] in
theorem Kept.lock (h : Kept k s conn n)
    : Kept k { s with lock := some conn } conn { n with holds := true } where
  known := h.known
  work := h.work
  holds _ _ := rfl
  current hopen hcurrent := ⟨rfl, (h.current hopen hcurrent).right⟩
  seen := h.seen
  table := h.table

theorem Kept.lock_others (h : Kept k s conn n) {other : κ} (hne : conn ≠ other)
    (hlock : s.mayLock other = true) : Kept k { s with lock := some other } conn n := by
  refine h.others (Nat.le_refl _) id (fun _ => rfl) ?_ (fun _ _ => rfl) id
  intro _ hheld
  have hfree := of_decide_eq_true hlock
  rw [hheld] at hfree
  cases hfree with
  | inl hnone => contradiction
  | inr hsome =>
    injection hsome with hsome
    contradiction

theorem Kept.unlock (h : Kept k s conn n)
    : Kept k { s with lock := if s.lock = some conn then none else s.lock } conn
        { n with holds := false, current := false } where
  known := h.known
  work := h.work
  holds _ hholds := absurd hholds Bool.false_ne_true
  current _ hcurrent := absurd hcurrent Bool.false_ne_true
  seen hcurrent := absurd hcurrent Bool.false_ne_true
  table := h.table

theorem Kept.unlock_others (h : Kept k s conn n) {other : κ} (hne : conn ≠ other)
    : Kept k { s with lock := if s.lock = some other then none else s.lock } conn n := by
  refine h.others (Nat.le_refl _) id (fun _ => rfl) ?_ (fun _ _ => rfl) id
  intro _ hheld
  dsimp only
  rw [if_neg]
  . exact hheld
  . rw [hheld, Option.some.injEq]
    exact hne

omit [DecidableEq κ] in
theorem Prefix.congr (h : Prefix effect seq schema₀ k s) (htable : s'.table.getD [] = s.table.getD [])
    (hschema : s'.schema = s.schema) : Prefix effect seq schema₀ k s' :=
  ⟨h.length, htable.trans h.recorded, hschema.trans h.schema⟩

theorem Prefix.commit (h : Prefix effect seq schema₀ k s) {migration : Migration}
    (hnext : seq[k]? = some migration) (hwork : s.work conn = some ⟨[migration], [migration.row]⟩)
    (htable : s.table.isSome = true) : Prefix effect seq schema₀ (k + 1) (s.commit effect conn) := by
  have ⟨rows, hrows⟩ := Option.isSome_iff_exists.mp htable
  have hrecorded := h.recorded
  have hlt : k < seq.length := (List.getElem?_eq_some_iff.mp hnext).choose
  rw [hrows, Option.getD_some] at hrecorded
  unfold Server.commit
  rw [hwork]
  dsimp only
  refine ⟨hlt, ?_, ?_⟩
  . rw [hrows, Option.map_some, Option.getD_some, hrecorded, List.take_add_one, hnext, List.map_append]
    rfl
  . rw [List.take_add_one, hnext, List.foldl_append, h.schema]
    rfl

omit [DecidableEq κ] in
theorem Prefix.length_rows (h : Prefix effect seq schema₀ k s) {rows : List Row}
    (hrows : s.table = some rows) : rows.length = k := by
  have hrecorded := h.recorded
  rw [hrows, Option.getD_some] at hrecorded
  rw [hrecorded, List.length_map, List.length_take, Nat.min_eq_left h.length]

theorem insertRow_of_work {work : Work} {row : Row} (hwork : s.work conn = some work)
    (h : s.insertRow conn row = .ok s')
    : s' = { s with
        work := Function.update s.work conn (some { work with rows := work.rows ++ [row] }) } := by
  unfold Server.insertRow at h
  rw [hwork] at h
  split at h
  . contradiction
  . dsimp only at h
    split at h
    . contradiction
    . injection h with h
      exact h.symm

omit [DecidableEq κ] in
theorem Kept.select (h : Kept k s conn n) (hpre : Prefix effect seq schema₀ k s)
    (hholds : n.holds = true) {rows : List Row} (hrows : s.table = some rows)
    : Kept k s conn { n with seen := true, current := true, known := rows.length } where
  known := Nat.le_of_eq (hpre.length_rows hrows)
  work := h.work
  holds := h.holds
  current _ _ := ⟨hholds, hpre.length_rows hrows⟩
  seen _ := rfl
  table _ := by
    rw [hrows]
    rfl

theorem Kept.commit (h : Kept k s conn n) (hopen : s.closed conn = false)
    (hcurrent : n.current = true) {migration : Migration}
    (hwork : n.work = some ⟨[migration], [migration.row]⟩)
    : Kept (k + 1) (s.commit effect conn) conn { n with known := n.known + 1, work := none } := by
  have ⟨hholds, hknown⟩ := h.current hopen hcurrent
  have hswork : s.work conn = some ⟨[migration], [migration.row]⟩ := (h.work hopen).trans hwork
  unfold Server.commit
  rw [hswork]
  dsimp only
  refine ⟨Nat.succ_le_succ h.known, ?_, h.holds, ?_, h.seen, ?_⟩
  . intro _
    exact Function.update_self ..
  . intro _ _
    exact ⟨hholds, congrArg (· + 1) hknown⟩
  . intro hseen
    rw [Option.isSome_map]
    exact h.table hseen

theorem Kept.commit_others (h : Kept k s conn n) {other : κ} (hne : conn ≠ other)
    (hlock : s.lock = some other) : Kept (k + 1) (s.commit effect other) conn n := by
  have hcurrent : s.closed conn = false → n.current = true → k + 1 = k := by
    intro hopen hcur
    have hheld := h.holds hopen (h.current hopen hcur).left
    rw [hlock, Option.some.injEq] at hheld
    exact absurd hheld.symm hne
  unfold Server.commit
  split
  . exact h.others (Nat.le_succ k) id (fun _ => rfl) (fun _ => id) hcurrent id
  . refine h.others (Nat.le_succ k) id ?_ (fun _ => id) hcurrent ?_
    . intro _
      exact Function.update_of_ne hne ..
    . intro htable
      dsimp only
      rw [Option.isSome_map]
      exact htable

theorem inv_after {i : κ ⊕ ο} {notes : κ ⊕ ο → Note} {c : Call κ}
    (h : Inv effect seq schema₀ s notes) (hguard : guard seq i (notes i) c)
    (hopen : s.closed c.conn = false)
    : Inv effect seq schema₀ (s.after effect c) (Function.update notes i ((notes i).after s c)) := by
  have ⟨k, hpre, hkept⟩ := h
  cases i with
  | inr o =>
    have ⟨conn, hc⟩ := hguard
    subst hc
    refine ⟨k, hpre.congr rfl rfl, ?_⟩
    intro other
    rw [Function.update_of_ne (by simp)]
    exact (hkept other).close conn
  | inl conn =>
    have ⟨hconn, hmay⟩ := hguard
    rw [hconn] at hopen
    have hself := hkept conn
    have hothers : ∀ other, other ≠ conn → Kept k s other (notes (.inl other)) :=
      fun other _ => hkept other
    generalize notes (.inl conn) = n at hmay hself ⊢
    have hworked : ∀ work, Inv effect seq schema₀
        { s with work := Function.update s.work conn work }
        (Function.update notes (.inl conn) { n with work := work }) := by
      intro work
      refine ⟨k, hpre.congr rfl rfl, forall_kept hself.update_work ?_⟩
      intro other hne
      exact (hothers other hne).update_others hne
    subst hconn
    cases c with
    | tryAdvisoryLock conn =>
      dsimp only [Server.after, Note.after, Call.conn] at *
      cases hlock : s.mayLock conn with
      | false =>
        rw [Bool.or_false]
        exact ⟨k, hpre, forall_kept hself hothers⟩
      | true =>
        rw [Bool.or_true, if_pos rfl]
        refine ⟨k, hpre.congr rfl rfl, forall_kept hself.lock ?_⟩
        intro other hne
        exact (hothers other hne).lock_others hne hlock
    | advisoryUnlock conn =>
      refine ⟨k, hpre.congr rfl rfl, forall_kept hself.unlock ?_⟩
      intro other hne
      exact (hothers other hne).unlock_others hne
    | createTable conn =>
      refine ⟨k, hpre.congr rfl rfl, forall_kept ?_ ?_⟩
      . exact hself.others (Nat.le_refl _) id (fun _ => rfl) (fun _ => id) (fun _ _ => rfl) (fun _ => rfl)
      . intro other hne
        exact (hothers other hne).others (Nat.le_refl _) id (fun _ => rfl) (fun _ => id) (fun _ _ => rfl)
          (fun _ => rfl)
    | selectRecorded conn =>
      refine ⟨k, hpre, forall_kept ?_ hothers⟩
      dsimp only [Server.after, Note.after]
      split
      . exact hself
      . next rows hrows => exact hself.select hpre hmay hrows
    | beginTransaction conn => exact hworked _
    | execute conn migration =>
      have ⟨work, hsome⟩ := Option.isSome_iff_exists.mp hmay
      have hwork : s.work conn = some work := (hself.work hopen).trans hsome
      dsimp only [Server.after, Note.after, Server.execute]
      rw [hwork, hsome]
      exact hworked _
    | insertRow conn row =>
      have ⟨work, hsome⟩ := Option.isSome_iff_exists.mp hmay
      have hwork : s.work conn = some work := (hself.work hopen).trans hsome
      dsimp only [Server.after, Note.after]
      cases hinsert : s.insertRow conn row with
      | error e => exact ⟨k, hpre, forall_kept hself hothers⟩
      | ok s' =>
        rw [insertRow_of_work hwork hinsert, hsome]
        exact hworked _
    | commit conn =>
      have ⟨hcurrent, migration, hnext, hwork⟩ := hmay
      have ⟨hholds, hknown⟩ := hself.current hopen hcurrent
      have hswork : s.work conn = some ⟨[migration], [migration.row]⟩ := (hself.work hopen).trans hwork
      have htable := hself.table (hself.seen hcurrent)
      rw [hknown] at hnext
      refine ⟨k + 1, hpre.commit hnext hswork htable, forall_kept ?_ ?_⟩
      . dsimp only [Note.after]
        rw [hwork]
        exact hself.commit hopen hcurrent hwork
      . intro other hne
        exact (hothers other hne).commit_others hne (hself.holds hopen hholds)
    | rollback conn => exact hworked _
    | close conn =>
      refine ⟨k, hpre.congr rfl rfl, forall_kept (hself.close conn) ?_⟩
      intro other hne
      exact (hothers other hne).close conn

variable (effect seq schema₀)

def Met (x : Server σ κ × Fate) : Prop :=
  ∃ k, Prefix effect seq schema₀ k x.1

variable (ο)

def anyTime : Server σ κ → (κ ⊕ ο → Note) → κ ⊕ ο → Call κ → Prop :=
  fun _ _ _ _ => True

instance (s : Server σ κ) (notes : κ ⊕ ο → Note) (i : κ ⊕ ο) (c : Call κ)
    : Decidable (anyTime ο s notes i c) :=
  inferInstanceAs (Decidable True)

def protocol : Pool.Protocol (watched effect) (anyTime (σ := σ) (κ := κ) ο) where
  inv := Inv effect seq schema₀
  met := Met effect seq schema₀
  guard := guard seq
  hmet s notes fate h := by
    have ⟨k, hpre, _⟩ := h
    exact ⟨k, hpre⟩
  hstep s notes i c fate h hguard _ := by
    dsimp only [watched]
    rw [Server.exec_snd]
    split
    . next hhappens =>
      apply inv_after h hguard
      unfold Server.happens at hhappens
      rw [Bool.and_eq_true, Bool.not_eq_true'] at hhappens
      exact hhappens.left
    . rw [Function.update_eq_self]
      exact h

variable {effect seq schema₀ ο}

section rules

variable {α : Type} {G : Note → Call κ → Prop}

theorem wp_ask {c : Call κ} {Q : Except RunError c.Answer → Note → Prop} (hguard : G n c)
    (herror : ∀ e, Q (.error e) n) (hlate : ∀ e (s : Server σ κ), Q (.error e) (n.after s c))
    (hok : ∀ (s : Server σ κ) a, (∃ k, Prefix effect seq schema₀ k s) → s.answer c = .ok a →
      Q (.ok a) (n.after s c))
    : wp (watched effect).view (Met effect seq schema₀) G (ask c) Q n := by
  apply wp_request hguard
  intro ⟨s, fate⟩ hmet
  dsimp only [Watched.view, watched, id]
  cases hr : (s.exec effect c fate).1 with
  | ok a =>
    have ⟨hhappens, hanswer⟩ := Server.exec_eq_ok hr
    rw [if_pos hhappens]
    exact hok s a hmet hanswer
  | error e =>
    split
    . exact hlate e s
    . exact herror e

theorem wp_ask_bind {c : Call κ} {f : c.Answer → Runner κ α} {Q : Except RunError α → Note → Prop}
    (hguard : G n c) (herror : ∀ e n', Q (.error e) n')
    (hok : ∀ (s : Server σ κ) a, (∃ k, Prefix effect seq schema₀ k s) → s.answer c = .ok a →
      wp (watched effect).view (Met effect seq schema₀) G (f a) Q (n.after s c))
    : wp (watched effect).view (Met effect seq schema₀) G (ask c >>= f) Q n := by
  rw [wp_bind]
  exact wp_ask hguard (fun e => herror e n) (fun e s => herror e _) hok

theorem wp_releaseLock {Q : Except RunError Unit → Note → Prop}
    (h : ∀ n', n'.known = n.known → n'.seen = n.seen → Q (.ok ()) n')
    : wp (watched effect).view (Met effect seq schema₀) (runnerGuard seq conn) (releaseLock conn) Q n := by
  unfold releaseLock
  rw [wp_catching]
  apply wp_ask ⟨rfl, trivial⟩
  . intro _
    exact h n rfl rfl
  . intro _ _
    exact h _ rfl rfl
  . intro _ _ _ _
    exact h _ rfl rfl

theorem wp_closeConnection {Q : Except RunError Unit → Note → Prop} (hguard : G n (.close conn))
    (h : Q (.ok ()) n)
    : wp (watched effect).view (Met effect seq schema₀) G (closeConnection conn) Q n := by
  unfold closeConnection
  rw [wp_catching]
  apply wp_ask hguard
  . intro _
    exact h
  . intro _ _
    exact h
  . intro _ _ _ _
    exact h

theorem wp_tryFinally {p : Runner κ α} {cleanup : Runner κ Unit} {P Q : α → Note → Prop}
    (hcleanup : ∀ n (R : Except RunError Unit → Note → Prop),
      (∀ n', n'.known = n.known → n'.seen = n.seen → R (.ok ()) n') →
      wp (watched effect).view (Met effect seq schema₀) G cleanup R n)
    (hQ : ∀ a n n', P a n → n'.known = n.known → n'.seen = n.seen → Q a n')
    (hp : wp (watched effect).view (Met effect seq schema₀) G p (fun r n' => ∀ a, r = .ok a → P a n') n)
    : wp (watched effect).view (Met effect seq schema₀) G (tryFinally p cleanup)
        (fun r n' => ∀ a, r = .ok a → Q a n') n := by
  apply wp_ensuring hp
  . intro _ _ hskips
    contradiction
  . intro r _ n' hr _
    apply hcleanup
    intro n'' hknown hseen a ha
    exact hQ a n' n'' (hr a ha) hknown hseen

theorem wp_takeLock (timeoutSeconds : String) (attempts : Nat) (hholds : n.holds = false)
    {Q : Except RunError Unit → Note → Prop} (herror : ∀ e n', Q (.error e) n')
    (h : ∀ n', n'.holds = true → n'.work = n.work → Q (.ok ()) n')
    : wp (watched effect).view (Met effect seq schema₀) (runnerGuard seq conn)
        (takeLock conn timeoutSeconds attempts) Q n := by
  have hrefused : ∀ (s : Server σ κ), s.mayLock conn = false →
      (n.after s (.tryAdvisoryLock conn)) = n := by
    intro s hlock
    dsimp only [Note.after]
    rw [hlock, Bool.or_false]
  induction attempts with
  | zero =>
    unfold takeLock
    apply wp_ask_bind ⟨rfl, hholds⟩ herror
    intro s a _ ha
    injection ha with ha
    subst ha
    split
    . next hlock =>
      apply h
      . dsimp only [Note.after]
        rw [hlock, Bool.or_true]
      . rfl
    . exact herror _ _
  | succ attempts ih =>
    unfold takeLock
    apply wp_ask_bind ⟨rfl, hholds⟩ herror
    intro s a _ ha
    injection ha with ha
    subst ha
    split
    . next hlock =>
      apply h
      . dsimp only [Note.after]
        rw [hlock, Bool.or_true]
      . rfl
    . next hlock =>
      rw [Bool.not_eq_true] at hlock
      rw [hrefused s hlock]
      exact ih

theorem Note.after_insertRow {row : Row} {work : Work}
    (h : s.answer (.insertRow conn row) = .ok ()) (hwork : n.work = some work)
    : n.after s (.insertRow conn row)
        = { n with work := some { work with rows := work.rows ++ [row] } } := by
  dsimp only [Server.answer] at h
  dsimp only [Note.after]
  cases hinsert : s.insertRow conn row with
  | error e =>
    rw [hinsert] at h
    contradiction
  | ok s' => rw [hwork, Option.map_some]

theorem wp_runOne {migration : Migration} (htransactional : migration.transactional = true)
    (hcurrent : n.current = true) (hnext : seq[n.known]? = some migration)
    {Q : Except RunError Unit → Note → Prop} (herror : ∀ e n', Q (.error e) n')
    (h : ∀ n', n'.current = true → n'.known = n.known + 1 → n'.seen = n.seen → Q (.ok ()) n')
    : wp (watched effect).view (Met effect seq schema₀) (runnerGuard seq conn) (runOne conn migration)
        Q n := by
  -- whatever the body raises, the transaction is rolled back and the run raises it again
  have hrollback : ∀ e (n' : Note) (R : Except RunError Unit → Note → Prop),
      (∀ e n', R (.error e) n') →
      wp (watched effect).view (Met effect seq schema₀) (runnerGuard seq conn)
        (ask (.rollback conn) >>= fun _ => .raise e) R n' := by
    intro e n' R hR
    apply wp_ask_bind ⟨rfl, trivial⟩ hR
    intro _ _ _ _
    exact hR e _
  unfold runOne
  rw [if_pos htransactional]
  unfold transaction
  apply wp_ask_bind ⟨rfl, trivial⟩ herror
  intro _ _ _ _
  rw [wp_bind, wp_catching]
  apply wp_ask_bind ⟨rfl, rfl⟩
  . intro e n'
    apply hrollback
    exact herror
  intro _ _ _ _
  unfold record
  apply wp_ask ⟨rfl, rfl⟩
  . intro e
    apply hrollback
    exact herror
  . intro e _
    apply hrollback
    exact herror
  . intro s a _ ha
    rw [Note.after_insertRow ha rfl]
    apply wp_ask ⟨rfl, hcurrent, migration, hnext, rfl⟩ (fun e => herror e _) (fun e s => herror e _)
    intro _ _ _ _
    exact h _ hcurrent rfl rfl

variable {migrations : List Migration}

theorem wp_applyOne {migration : Migration} (applied : List Nat)
    (htransactional : migration.transactional = true) (hcurrent : n.current = true)
    (hnext : seq[n.known]? = some migration)
    {Q : Except RunError (List Nat) → Note → Prop} (herror : ∀ e n', Q (.error e) n')
    (h : ∀ applied' n', n'.current = true → n'.known = n.known + 1 → n'.seen = n.seen →
      Q (.ok applied') n')
    : wp (watched effect).view (Met effect seq schema₀) (runnerGuard seq conn)
        (applyOne conn applied migration) Q n := by
  unfold applyOne
  rw [wp_bind, wp_catching]
  apply wp_runOne htransactional hcurrent hnext
  . intro e n'
    cases e with
    | database message => exact herror _ n'
    | migration message => exact herror _ n'
  . intro n' hcurrent' hknown hseen
    exact h _ n' hcurrent' hknown hseen

theorem selectRecorded_answer (hseq : NumberedFrom 1 seq) (hpre : Prefix effect seq schema₀ k s)
    {recorded : List Row} (h : s.answer (.selectRecorded conn) = .ok recorded)
    : recorded = (seq.take k).map Migration.row ∧ s.table = some ((seq.take k).map Migration.row) := by
  have hrecorded := hpre.recorded
  dsimp only [Server.answer] at h
  cases htable : s.table with
  | none =>
    rw [htable] at h
    contradiction
  | some rows =>
    rw [htable, Option.getD_some] at hrecorded
    rw [htable, hrecorded] at h
    injection h with h
    rw [inVersionOrder_take hseq] at h
    exact ⟨h.symm, congrArg some hrecorded⟩

theorem pending_eq_drop (hseq : NumberedFrom 1 seq) (hk : k ≤ seq.length) (hpre : migrations <+: seq)
    {plan : MigrationPlan}
    (h : planMigrations ((seq.take k).map Migration.row) migrations = .ok plan)
    : (migrations = [] → k = 0) ∧ plan.pending = migrations.drop k := by
  have hempty : migrations = [] → k = 0 := by
    intro hnil
    have hrecorded := (planMigrations_eq_ok h).right.left hnil
    rw [List.map_eq_nil_iff, List.take_eq_nil_iff] at hrecorded
    cases hrecorded with
    | inl hzero => exact hzero
    | inr hseqnil =>
      rw [hseqnil] at hk
      exact Nat.le_zero.mp hk
  refine ⟨hempty, ?_⟩
  rw [List.prefix_iff_eq_take.mp hpre] at h hempty ⊢
  have ⟨ahead, htake⟩ := planMigrations_take hseq hk hempty
  rw [htake] at h
  injection h with h
  rw [← h]

def Caught (migrations : List Migration) (n : Note) : Prop :=
  migrations.length ≤ n.known ∧ n.seen = true ∧ (migrations = [] → n.known = 0)

theorem wp_applyPending (hseq : NumberedFrom 1 seq) (htransactional : ∀ m ∈ seq, m.transactional = true)
    (hpre : migrations <+: seq) (hholds : n.holds = true)
    : wp (watched effect).view (Met effect seq schema₀) (runnerGuard seq conn)
        (applyPending conn migrations)
        (fun r n' => ∀ applied, r = .ok applied → Caught migrations n') n := by
  have herror : ∀ (e : RunError) (n' : Note), ∀ applied : List Nat,
      Except.error e = Except.ok applied → Caught migrations n' := by
    intro e n' applied h
    contradiction
  unfold applyPending
  apply wp_ask_bind ⟨rfl, trivial⟩ herror
  intro _ _ _ _
  apply wp_ask_bind ⟨rfl, hholds⟩ herror
  intro s recorded hmet hanswer
  have ⟨k, hk⟩ := hmet
  have ⟨hrecorded, htable⟩ := selectRecorded_answer hseq hk hanswer
  dsimp only [Note.after]
  rw [htable, hrecorded]
  dsimp only
  rw [List.length_map, List.length_take, Nat.min_eq_left hk.length]
  cases hplan : planMigrations ((seq.take k).map Migration.row) migrations with
  | error message => exact herror _ _
  | ok plan =>
    have ⟨hempty, hpending⟩ := pending_eq_drop hseq hk.length hpre hplan
    -- what is still to be run is what comes after the migrations the runner knows of
    apply wp_foldlM (fun rest _ n' => n'.current = true ∧ n'.seen = true
      ∧ rest = migrations.drop n'.known ∧ (migrations = [] → n'.known = 0))
    . exact ⟨rfl, rfl, hpending, hempty⟩
    . intro migration rest applied n' hn'
      have ⟨hcurrent, hseen, hrest, _⟩ := hn'
      have hnext : migrations[n'.known]? = some migration := by
        rw [← List.head?_drop, ← hrest]
        rfl
      have hrest' : rest = migrations.drop (n'.known + 1) := by
        rw [← List.tail_drop, ← hrest]
        rfl
      have hmem : migration ∈ migrations := List.mem_of_getElem? hnext
      have hseqnext : seq[n'.known]? = some migration := by
        have ⟨later, hlater⟩ := hpre
        have ⟨hlt, _⟩ := List.getElem?_eq_some_iff.mp hnext
        rw [← hlater, List.getElem?_append_left hlt]
        exact hnext
      apply wp_applyOne applied (htransactional migration (hpre.subset hmem)) hcurrent hseqnext
      . intro e n''
        exact herror e n''
      . intro applied' n'' hcurrent' hknown hseen'
        refine ⟨hcurrent', hseen'.trans hseen, ?_, ?_⟩
        . rw [hknown]
          exact hrest'
        . intro hnil
          rw [hnil] at hmem
          contradiction
    . intro applied n' hn' applied' _
      have ⟨_, hseen, hrest, hnil⟩ := hn'
      exact ⟨List.drop_eq_nil_iff.mp hrest.symm, hseen, hnil⟩

theorem wp_applyMigrations (hseq : NumberedFrom 1 seq)
    (htransactional : ∀ m ∈ seq, m.transactional = true) (hpre : migrations <+: seq)
    (timeoutSeconds : String) (attempts : Nat) (hholds : n.holds = false)
    : wp (watched effect).view (Met effect seq schema₀) (runnerGuard seq conn)
        (applyMigrations conn migrations timeoutSeconds attempts)
        (fun r n' => ∀ applied, r = .ok applied → Caught migrations n') n := by
  have hkeep : ∀ (_ : List Nat) (n n' : Note), Caught migrations n → n'.known = n.known →
      n'.seen = n.seen → Caught migrations n' := by
    intro _ n n' h hknown hseen
    unfold Caught
    rw [hknown, hseen]
    exact h
  unfold applyMigrations
  apply wp_tryFinally _ hkeep
  . unfold applyLocked
    rw [wp_bind]
    apply wp_takeLock timeoutSeconds attempts hholds
    . intro e n' applied h
      contradiction
    . intro n' hholds' _
      dsimp only
      apply wp_tryFinally _ hkeep
      . exact wp_applyPending hseq htransactional hpre hholds'
      . intro n R hR
        exact wp_releaseLock hR
  . intro n R hR
    exact wp_closeConnection ⟨rfl, trivial⟩ (hR n rfl rfl)

omit [DecidableEq ο] in
theorem wp_killAll (o : ο) (conns : List κ) {Q : Except RunError (List Nat) → Note → Prop}
    (h : ∀ r n', Q r n')
    : wp (watched effect).view (Met effect seq schema₀) (guard seq (.inr o)) (killAll conns) Q n := by
  unfold killAll
  rw [wp_bind]
  apply wp_forM (fun _ _ => True) trivial
  . intro conn conns n' _
    exact wp_closeConnection ⟨conn, rfl⟩ trivial
  . intro n' _
    exact h _ n'

end rules

def Accepts (s : Server σ κ) (migrations : List Migration) : Prop :=
  (∃ plan, planMigrations (inVersionOrder (s.table.getD [])) migrations = .ok plan ∧ plan.pending = [])
    ∧ ∃ ahead, checkSchema s.table migrations = .ok ahead

omit [DecidableEq κ] in
theorem Prefix.accepts (h : Prefix effect seq schema₀ k s) (hseq : NumberedFrom 1 seq)
    {migrations : List Migration} (hpre : migrations <+: seq) (htable : s.table.isSome = true)
    (hlength : migrations.length ≤ k) (hempty : migrations = [] → k = 0) : Accepts s migrations := by
  have ⟨rows, hrows⟩ := Option.isSome_iff_exists.mp htable
  have hrecorded := h.recorded
  have hpending : migrations.drop k = [] := List.drop_eq_nil_iff.mpr hlength
  rw [hrows, Option.getD_some] at hrecorded
  rw [List.prefix_iff_eq_take.mp hpre] at hempty hpending ⊢
  unfold Accepts
  rw [hrows, hrecorded]
  refine ⟨?_, checkSchema_take hseq h.length hempty hpending⟩
  have ⟨ahead, hplan⟩ := planMigrations_take hseq h.length hempty
  rw [Option.getD_some, inVersionOrder_take hseq]
  exact ⟨_, hplan, hpending⟩

omit [DecidableEq κ] in
theorem Prefix.length_recorded (h : Prefix effect seq schema₀ k s) : (s.table.getD []).length = k := by
  rw [h.recorded, List.length_map, List.length_take, Nat.min_eq_left h.length]

theorem length_recorded_after (c : Call κ)
    : (s.table.getD []).length ≤ ((s.after effect c).table.getD []).length := by
  have hmap : ∀ rows : List Row,
      (s.table.getD []).length ≤ ((s.table.map (· ++ rows)).getD []).length := by
    intro rows
    cases s.table with
    | none => exact Nat.le_refl _
    | some rows' =>
      rw [Option.map_some, Option.getD_some, Option.getD_some, List.length_append]
      exact Nat.le_add_right ..
  cases c with
  | tryAdvisoryLock conn =>
    dsimp only [Server.after]
    split <;> exact Nat.le_refl _
  | advisoryUnlock conn => exact Nat.le_refl _
  | createTable conn => exact Nat.le_refl _
  | selectRecorded conn => exact Nat.le_refl _
  | beginTransaction conn => exact Nat.le_refl _
  | execute conn migration =>
    dsimp only [Server.after, Server.execute]
    split <;> exact Nat.le_refl _
  | insertRow conn row =>
    dsimp only [Server.after]
    cases hinsert : s.insertRow conn row with
    | error e => exact Nat.le_refl _
    | ok s' =>
      unfold Server.insertRow at hinsert
      split at hinsert
      . contradiction
      . next rows htable =>
        dsimp only at hinsert
        split at hinsert
        . contradiction
        . split at hinsert
          . injection hinsert with hinsert
            rw [← hinsert, htable, Option.getD_some, Option.getD_some, List.length_append]
            exact Nat.le_add_right ..
          . injection hinsert with hinsert
            rw [← hinsert]
  | commit conn =>
    dsimp only [Server.after, Server.commit]
    split
    . exact Nat.le_refl _
    . exact hmap _
  | rollback conn => exact Nat.le_refl _
  | close conn => exact Nat.le_refl _

abbrev RunnerPool (σ κ ο : Type) := Pool (signature κ) RunError (List Nat) (Server σ κ) Note (κ ⊕ ο)

theorem length_recorded_reaches {pool pool' : RunnerPool σ κ ο}
    (h : Pool.Reaches (watched effect) (anyTime ο) pool pool')
    : (pool.state.table.getD []).length ≤ (pool'.state.table.getD []).length := by
  induction h with
  | refl => exact Nat.le_refl _
  | tail _ hstep ih =>
    have ⟨i, hstep⟩ := hstep
    cases hstep with
    | @call c k fate hthread hcall =>
      refine Nat.le_trans ih ?_
      dsimp only [Pool.advance, watched]
      rw [Server.exec_snd]
      split
      . exact length_recorded_after c
      . exact Nat.le_refl _

theorem Note.after_seen (effect : Migration → σ → σ) {c : Call κ} (hguard : runnerGuard seq conn n c)
    : ((n.after s c).known = n.known ∧ (n.after s c).seen = n.seen)
        ∨ ((n.after s c).current = true ∧ (s.after effect c).closed = s.closed) := by
  have ⟨hconn, hmay⟩ := hguard
  cases c with
  | selectRecorded conn =>
    dsimp only [Note.after]
    split
    . exact .inl ⟨rfl, rfl⟩
    . exact .inr ⟨rfl, rfl⟩
  | commit conn =>
    refine .inr ⟨hmay.left, ?_⟩
    dsimp only [Server.after, Server.commit]
    split <;> rfl
  | insertRow conn row =>
    dsimp only [Note.after]
    split <;> exact .inl ⟨rfl, rfl⟩
  | _ => exact .inl ⟨rfl, rfl⟩

def Moment (conn : κ) (known : Nat) (s : Server σ κ) : Prop :=
  s.lock = some conn ∧ s.table.isSome = true ∧ (s.table.getD []).length = known

theorem seen_step {Q : κ ⊕ ο → Except RunError (List Nat) → Note → Prop} {i : κ ⊕ ο}
    {pool pool' : RunnerPool σ κ ο} (hholds : (protocol ο effect seq schema₀).Holds Q pool)
    (hstep : Pool.Step (watched effect) (anyTime ο) i pool pool') (conn : κ)
    : ((pool'.notes (.inl conn)).known = (pool.notes (.inl conn)).known
          ∧ (pool'.notes (.inl conn)).seen = (pool.notes (.inl conn)).seen)
        ∨ ((pool'.notes (.inl conn)).current = true ∧ pool'.state.closed conn = false) := by
  cases hstep with
  | @call c k fate hthread hcall =>
    dsimp only [Pool.advance, watched]
    by_cases hi : .inl conn = i
    . subst hi
      rw [Function.update_self, Server.exec_snd]
      split
      . next hhappens =>
        have hguard : runnerGuard seq conn (pool.notes (.inl conn)) c := hholds.guard hthread
        unfold Server.happens at hhappens
        rw [Bool.and_eq_true, Bool.not_eq_true', hguard.left] at hhappens
        refine (Note.after_seen effect hguard).imp_right ?_
        intro ⟨hcurrent, hclosed⟩
        exact ⟨hcurrent, (congrFun hclosed conn).trans hhappens.left⟩
      . exact .inl ⟨rfl, rfl⟩
    . rw [Function.update_of_ne hi]
      exact .inl ⟨rfl, rfl⟩

theorem exists_moment {Q : κ ⊕ ο → Except RunError (List Nat) → Note → Prop} {start pool : RunnerPool σ κ ο}
    (hholds : (protocol ο effect seq schema₀).Holds Q start)
    (hstart : (start.notes (.inl conn)).seen = false)
    (h : Pool.Reaches (watched effect) (anyTime ο) start pool)
    (hseen : (pool.notes (.inl conn)).seen = true)
    : ∃ pool1, Pool.Reaches (watched effect) (anyTime ο) start pool1
        ∧ Pool.Reaches (watched effect) (anyTime ο) pool1 pool
        ∧ Moment conn (pool.notes (.inl conn)).known pool1.state := by
  induction h with
  | refl =>
    rw [hstart] at hseen
    contradiction
  | @tail pool pool' hreaches hstep ih =>
    have hreaches' := hreaches.tail hstep
    have ⟨i, hstep'⟩ := hstep
    have hpool := hholds.reaches hreaches
    have hpool' := hpool.step hstep'
    -- either the runner's picture of the table is the one it had, or this is the moment
    cases seen_step hpool hstep' conn with
    | inl hsame =>
      rw [hsame.right] at hseen
      have ⟨pool1, hto, hfrom, hmoment⟩ := ih hseen
      rw [hsame.left]
      exact ⟨pool1, hto, hfrom.tail hstep, hmoment⟩
    | inr hnow =>
      have ⟨hcurrent, hopen⟩ := hnow
      have ⟨k, hpre, hkept⟩ := hpool'.inv
      have ⟨hholding, hknown⟩ := (hkept conn).current hopen hcurrent
      refine ⟨pool', hreaches', .refl, (hkept conn).holds hopen hholding, (hkept conn).table hseen, ?_⟩
      rw [hpre.length_recorded, hknown]

section runs

variable {victims : ο → List κ} {sets : κ → List Migration} {timeoutSeconds : κ → String}
variable {attempts : κ → Nat}

def fresh (schema : σ) (sets : κ → List Migration) (timeoutSeconds : κ → String) (attempts : κ → Nat)
    (victims : ο → List κ) : RunnerPool σ κ ο where
  state := ⟨none, schema, none, fun _ => none, fun _ => false⟩
  threads i :=
    match i with
    | .inl conn => applyMigrations conn (sets conn) (timeoutSeconds conn) (attempts conn)
    | .inr o => killAll (victims o)
  notes _ := {}

def returns (sets : κ → List Migration) (i : κ ⊕ ο) (r : Except RunError (List Nat)) (n : Note) : Prop :=
  match i with
  | .inl conn => ∀ applied, r = .ok applied → Caught (sets conn) n
  | .inr _ => True

theorem holds_fresh (hseq : NumberedFrom 1 seq) (htransactional : ∀ m ∈ seq, m.transactional = true)
    (hsets : ∀ conn, sets conn <+: seq)
    : (protocol ο effect seq schema₀).Holds (returns sets)
        (fresh schema₀ sets timeoutSeconds attempts victims) := by
  refine ⟨⟨0, ⟨Nat.zero_le _, rfl, rfl⟩, ?_⟩, ?_⟩
  . intro conn
    refine ⟨Nat.zero_le _, fun _ => rfl, ?_, ?_, ?_, ?_⟩
    all_goals
      intros
      contradiction
  . intro i
    cases i with
    | inl conn => exact wp_applyMigrations hseq htransactional (hsets conn) _ _ rfl
    | inr o => exact wp_killAll o _ (fun _ _ => trivial)

theorem migrations_run_once (hseq : NumberedFrom 1 seq)
    (htransactional : ∀ m ∈ seq, m.transactional = true) (hsets : ∀ conn, sets conn <+: seq)
    {pool : RunnerPool σ κ ο}
    (hreaches : Pool.Reaches (watched effect) (anyTime ο)
      (fresh schema₀ sets timeoutSeconds attempts victims) pool)
    : (∃ k, Prefix effect seq schema₀ k pool.state)
        ∧ (∀ pool' k k', Pool.Reaches (watched effect) (anyTime ο) pool pool' →
          Prefix effect seq schema₀ k pool.state → Prefix effect seq schema₀ k' pool'.state → k ≤ k')
        ∧ (∀ conn applied, pool.threads (.inl conn) = .ret applied →
          (∃ pool1, Pool.Reaches (watched effect) (anyTime ο)
              (fresh schema₀ sets timeoutSeconds attempts victims) pool1
            ∧ Pool.Reaches (watched effect) (anyTime ο) pool1 pool
            ∧ pool1.state.lock = some conn ∧ Accepts pool1.state (sets conn))
          ∧ (sets conn ≠ [] → Accepts pool.state (sets conn)))
        ∧ ∀ recorded migrations plan, planMigrations recorded migrations = .ok plan →
          plan.ahead ≠ [] → plan.pending = [] := by
  have hstart : (protocol ο effect seq schema₀).Holds (returns sets)
      (fresh schema₀ sets timeoutSeconds attempts victims) :=
    holds_fresh hseq htransactional hsets
  have hpool := hstart.reaches hreaches
  have ⟨k, hpre, hkept⟩ := hpool.inv
  refine ⟨⟨k, hpre⟩, ?_, ?_, fun _ _ _ => pending_eq_nil_of_ahead⟩
  . intro pool' k k' hlater hk hk'
    rw [← hk.length_recorded, ← hk'.length_recorded]
    exact length_recorded_reaches hlater
  . intro conn applied hreturned
    have ⟨hlength, hseen, hempty⟩ := hpool.result hreturned applied rfl
    refine ⟨?_, ?_⟩
    . have ⟨pool1, hto, hfrom, hlock, htable, hknown⟩ := exists_moment hstart rfl hreaches hseen
      have ⟨k1, hpre1, _⟩ := (hstart.reaches hto).inv
      rw [hpre1.length_recorded] at hknown
      rw [← hknown] at hlength hempty
      exact ⟨pool1, hto, hfrom, hlock, hpre1.accepts hseq (hsets conn) htable hlength hempty⟩
    . intro hne
      exact hpre.accepts hseq (hsets conn) ((hkept conn).table hseen)
        (Nat.le_trans hlength (hkept conn).known) (fun hnil => absurd hnil hne)

end runs

end protocol

def twoMigrations : List Migration :=
  [⟨1, "0001_initial.sql", "CREATE TABLE jobs ()", "a", true⟩,
    ⟨2, "0002_nodes.sql", "CREATE TABLE nodes ()", "b", true⟩]

def appended (migration : Migration) (schema : List String) : List String :=
  schema ++ [migration.sql]

def oldAndNewBuild : RunnerPool (List String) (Fin 2) Unit :=
  fresh [] (fun conn => twoMigrations.take (conn.val + 1)) (fun _ => "60") (fun _ => 0) (fun _ => [0])

def killedThenApplied : List ((Fin 2 ⊕ Unit) × Fate) :=
  List.replicate 5 (.inl 0, .works) ++ [(.inr (), .works)] ++ List.replicate 13 (.inl 1, .works)

theorem migrations_run_once_oldAndNewBuild
    : ∃ pool, Pool.Reaches (watched appended) (anyTime Unit) oldAndNewBuild pool
        ∧ pool.threads (.inl 1) = .ret [1, 2]
        ∧ pool.state.schema = ["CREATE TABLE jobs ()", "CREATE TABLE nodes ()"]
        ∧ (∃ k, Prefix appended twoMigrations [] k pool.state)
        ∧ Accepts pool.state twoMigrations := by
  have ⟨pool, hreaches, hreturned, hschema⟩ := Pool.exists_reaches_of_play
    (W := watched appended) (C := anyTime Unit) oldAndNewBuild killedThenApplied
    (fun pool => returned (pool.threads (.inl 1)) = some [1, 2]
      ∧ pool.state.schema = ["CREATE TABLE jobs ()", "CREATE TABLE nodes ()"])
    (by decide +kernel)
  have hthread := eq_ret_of_returned hreturned
  have hseq : NumberedFrom 1 twoMigrations := rfl
  have ⟨hpre, _, hran, _⟩ := migrations_run_once hseq (by decide) (by decide) hreaches
  exact ⟨pool, hreaches, hthread, hschema, hpre, (hran 1 [1, 2] hthread).right (by decide)⟩

end Migrations

end AetherGrid
