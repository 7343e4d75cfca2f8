import AetherGrid.Table.Basic

/-!
This module contains versioned migrations: how a set of them is loaded, how it is compared with the
history a database has recorded, and the check the application makes when it starts.
-/

namespace AetherGrid

namespace Migrations

structure Migration where
  version : Nat
  name : String
  sql : String
  checksum : String
  transactional : Bool
  deriving DecidableEq

structure Row where
  version : Nat
  name : String
  checksum : String
  deriving DecidableEq

def Migration.row (migration : Migration) : Row :=
  ⟨migration.version, migration.name, migration.checksum⟩

def fourDigits (n : Nat) : String :=
  "".pushn '0' (4 - (toString n).length) ++ toString n

structure File where
  name : String
  version : Option Nat
  sql : Option String
  checksum : String

def noTransactionMarker : String :=
  "-- migration: no-transaction"

def isTransactional (sql : String) : Bool :=
  let firstLine := (sql.splitOn "\n").headD ""
  firstLine.toList.reverse.dropWhile (· = '\r') ≠ noTransactionMarker.toList.reverse

def addFile (found : List Migration) (file : File) : Except String (List Migration) :=
  match file.version with
  | none =>
    .error (file.name ++ " does not match NNNN_name.sql "
      ++ "(four digits, then lowercase letters, digits and underscores)")
  | some version =>
    match found.find? (·.version = version) with
    | some other =>
      .error ("version " ++ fourDigits version ++ " appears twice: " ++ other.name ++ " and "
        ++ file.name)
    | none =>
      match file.sql with
      | none => .error (file.name ++ " is not valid UTF-8")
      | some sql => .ok (found ++ [⟨version, file.name, sql, file.checksum, isTransactional sql⟩])

def checkGaps (expected : Nat) (migrations : List Migration) : Except String Unit :=
  match migrations with
  | [] => .ok ()
  | migration :: migrations =>
    if migration.version ≠ expected then
      .error ("missing migration " ++ fourDigits expected
        ++ ": versions must run from 0001 without a gap")
    else
      checkGaps (expected + 1) migrations

def loadMigrations (files : List File) : Except String (List Migration) := do
  let found ← files.foldlM addFile []
  let sorted := found.mergeSort (fun a b => a.version ≤ b.version)
  checkGaps 1 sorted
  return sorted

structure MigrationPlan where
  pending : List Migration
  ahead : List Nat
  deriving DecidableEq

def checkHistory (expected : Nat) (recorded : List Row) : Except String Unit :=
  match recorded with
  | [] => .ok ()
  | row :: recorded =>
    if row.version ≠ expected then
      .error ("the applied history has a hole: migration " ++ fourDigits expected
        ++ " is not recorded but " ++ fourDigits row.version ++ " is")
    else
      checkHistory (expected + 1) recorded

-- the dictionary keeps the last migration of a version
def byVersion (migrations : List Migration) (version : Nat) : Option Migration :=
  migrations.reverse.find? (·.version = version)

def highest (migrations : List Migration) : Nat :=
  (migrations.map (·.version)).foldl max 0

def compareRow (migrations : List Migration) (ahead : List Nat) (row : Row)
    : Except String (List Nat) :=
  match byVersion migrations row.version with
  | none =>
    if row.version > highest migrations then
      .ok (ahead ++ [row.version])
    else
      .error ("migration " ++ fourDigits row.version ++ " (" ++ row.name
        ++ ") is recorded as applied but has no file in the migration set")
  | some known =>
    if known.checksum ≠ row.checksum then
      .error ("checksum mismatch for " ++ known.name ++ ": the file changed after it was applied")
    else
      .ok ahead

def planMigrations (recorded : List Row) (migrations : List Migration)
    : Except String MigrationPlan := do
  checkHistory 1 recorded
  if !recorded.isEmpty && migrations.isEmpty then
    .error ("this build carries no migrations, but the database records "
      ++ toString recorded.length ++ " as applied")
  else
    let ahead ← recorded.foldlM (compareRow migrations) []
    return ⟨migrations.filter (recorded.length < ·.version), ahead⟩

def inVersionOrder (rows : List Row) : List Row :=
  rows.mergeSort (fun a b => a.version ≤ b.version)

def checkSchema (table : Option (List Row)) (migrations : List Migration) : Except String (List Nat) :=
  match table with
  | none =>
    .error "schema_migrations does not exist: run the migrations before starting the application"
  | some rows => do
    let plan ← planMigrations (inVersionOrder rows) migrations
    if plan.pending.isEmpty then
      return plan.ahead
    else
      .error ("the database is behind this build: not applied: "
        ++ ", ".intercalate (plan.pending.map (·.name))
        ++ ". Run the migrations before starting the application")

def NumberedFrom (n : Nat) (migrations : List Migration) : Prop :=
  migrations.map (·.version) = List.range' n migrations.length

theorem numberedFrom_cons_iff {n : Nat} {migration : Migration} {migrations : List Migration}
    : NumberedFrom n (migration :: migrations)
        ↔
      migration.version = n ∧ NumberedFrom (n + 1) migrations := by
  unfold NumberedFrom
  rw [List.map_cons, List.length_cons, List.range'_succ, List.cons.injEq]

theorem checkGaps_eq_ok_iff (n : Nat) (migrations : List Migration)
    : checkGaps n migrations = .ok () ↔ NumberedFrom n migrations := by
  induction migrations generalizing n with
  | nil => exact iff_of_true rfl rfl
  | cons migration migrations ih =>
    rw [numberedFrom_cons_iff]
    unfold checkGaps
    split
    . next hne =>
      apply iff_of_false
      . intro
        contradiction
      . intro h
        exact hne h.left
    . next heq =>
      rw [ne_eq, not_not] at heq
      rw [ih]
      exact ⟨fun h => ⟨heq, h⟩, fun h => h.right⟩

theorem loadMigrations_numbered {files : List File} {migrations : List Migration}
    (h : loadMigrations files = .ok migrations) : NumberedFrom 1 migrations := by
  unfold loadMigrations at h
  cases hfound : files.foldlM addFile [] with
  | error e =>
    rw [hfound] at h
    contradiction
  | ok found =>
    simp only [hfound, bind, Except.bind] at h
    cases hgaps : checkGaps 1 (found.mergeSort (fun a b => a.version ≤ b.version)) with
    | error e =>
      rw [hgaps] at h
      contradiction
    | ok u =>
      rw [hgaps] at h
      injection h with h
      rw [← h]
      exact (checkGaps_eq_ok_iff 1 _).mp hgaps

section plan

variable {recorded : List Row} {migrations : List Migration}

theorem checkHistory_eq_ok_iff (n : Nat) (recorded : List Row)
    : checkHistory n recorded = .ok ()
        ↔
      recorded.map (·.version) = List.range' n recorded.length := by
  induction recorded generalizing n with
  | nil => exact iff_of_true rfl rfl
  | cons row recorded ih =>
    rw [List.map_cons, List.length_cons, List.range'_succ, List.cons.injEq]
    unfold checkHistory
    split
    . next hne =>
      apply iff_of_false
      . intro
        contradiction
      . intro h
        exact hne h.left
    . next heq =>
      rw [ne_eq, not_not] at heq
      rw [ih]
      exact ⟨fun h => ⟨heq, h⟩, fun h => h.right⟩

theorem le_highest {migration : Migration} (h : migration ∈ migrations)
    : migration.version ≤ highest migrations := by
  have hfold : ∀ (l : List Nat) (a : Nat), a ≤ l.foldl max a ∧ ∀ x ∈ l, x ≤ l.foldl max a := by
    intro l
    induction l with
    | nil => simp
    | cons y l ih =>
      intro a
      have ⟨hmax, hall⟩ := ih (max a y)
      rw [List.foldl_cons]
      refine ⟨by omega, ?_⟩
      intro x hx
      cases List.mem_cons.mp hx with
      | inl heq => omega
      | inr hx => exact hall x hx
  exact (hfold _ 0).right _ (List.mem_map_of_mem h)

theorem planMigrations_eq_ok {plan : MigrationPlan} (h : planMigrations recorded migrations = .ok plan)
    : checkHistory 1 recorded = .ok ()
        ∧ (migrations = [] → recorded = [])
        ∧ recorded.foldlM (compareRow migrations) [] = .ok plan.ahead
        ∧ plan.pending = migrations.filter (recorded.length < ·.version) := by
  unfold planMigrations at h
  cases hhistory : checkHistory 1 recorded with
  | error e =>
    rw [hhistory] at h
    contradiction
  | ok u =>
    simp only [hhistory, bind, Except.bind] at h
    split at h
    . contradiction
    . next hempty =>
      simp only [Bool.and_eq_true, Bool.not_eq_eq_eq_not, Bool.not_true, List.isEmpty_iff,
        List.isEmpty_eq_false_iff, not_and_or, ne_eq, not_not] at hempty
      cases hahead : recorded.foldlM (compareRow migrations) [] with
      | error e =>
        rw [hahead] at h
        contradiction
      | ok ahead =>
        rw [hahead] at h
        injection h with h
        rw [← h]
        refine ⟨rfl, ?_, rfl, rfl⟩
        intro hnil
        exact hempty.resolve_right (fun hne => hne hnil)

theorem compareRows_ahead {ahead ahead' : List Nat}
    (h : recorded.foldlM (compareRow migrations) ahead = .ok ahead') {version : Nat}
    (hversion : version ∈ ahead')
    : version ∈ ahead ∨ (highest migrations < version ∧ version ∈ recorded.map (·.version)) := by
  induction recorded generalizing ahead with
  | nil =>
    injection h with h
    rw [h]
    exact .inl hversion
  | cons row recorded ih =>
    rw [List.foldlM_cons] at h
    cases hrow : compareRow migrations ahead row with
    | error e =>
      rw [hrow] at h
      contradiction
    | ok ahead1 =>
      rw [hrow] at h
      rw [List.map_cons, List.mem_cons]
      cases ih h with
      | inr hin => exact .inr ⟨hin.left, .inr hin.right⟩
      | inl hin =>
        unfold compareRow at hrow
        split at hrow
        . split at hrow
          . next habove =>
            injection hrow with hrow
            rw [← hrow, List.mem_append, List.mem_singleton] at hin
            cases hin with
            | inl hin => exact .inl hin
            | inr heq =>
              rw [heq]
              exact .inr ⟨habove, .inl rfl⟩
          . contradiction
        . split at hrow
          . contradiction
          . injection hrow with hrow
            rw [hrow]
            exact .inl hin

theorem pending_eq_nil_of_ahead {plan : MigrationPlan}
    (h : planMigrations recorded migrations = .ok plan) (hahead : plan.ahead ≠ []) : plan.pending = [] := by
  have ⟨hhistory, _, hcompare, hpending⟩ := planMigrations_eq_ok h
  have ⟨version, hversion⟩ := List.exists_mem_of_ne_nil _ hahead
  rw [checkHistory_eq_ok_iff] at hhistory
  cases compareRows_ahead hcompare hversion with
  | inl hnil => contradiction
  | inr hin =>
    have ⟨habove, hrecorded⟩ := hin
    rw [hhistory, List.mem_range'_1] at hrecorded
    rw [hpending, List.filter_eq_nil_iff]
    intro migration hmigration
    have := le_highest hmigration
    rw [decide_eq_true_eq]
    omega

end plan

section sequence

variable {seq : List Migration} {migration : Migration} {n k : Nat}

theorem NumberedFrom.take (h : NumberedFrom n seq) (k : Nat) : NumberedFrom n (seq.take k) := by
  induction seq generalizing n k with
  | nil =>
    rw [List.take_nil]
    exact h
  | cons migration seq ih =>
    cases k with
    | zero => rfl
    | succ k =>
      rw [numberedFrom_cons_iff] at h
      rw [List.take_succ_cons, numberedFrom_cons_iff]
      exact ⟨h.left, ih h.right k⟩

theorem NumberedFrom.version_bounds (h : NumberedFrom n seq) (hmem : migration ∈ seq)
    : n ≤ migration.version ∧ migration.version < n + seq.length := by
  have hversion := List.mem_map_of_mem (f := Migration.version) hmem
  have hrange : migration.version ∈ List.range' n seq.length := h ▸ hversion
  rw [List.mem_range'_1] at hrange
  exact hrange

theorem NumberedFrom.unique (h : NumberedFrom n seq) {a b : Migration} (ha : a ∈ seq) (hb : b ∈ seq)
    (heq : a.version = b.version) : a = b := by
  have hnodup : (seq.map Migration.version).Nodup := by
    have : seq.map Migration.version = List.range' n seq.length := h
    rw [this]
    exact List.nodup_range'
  exact List.inj_on_of_nodup_map hnodup ha hb heq

theorem NumberedFrom.filter_eq_drop (h : NumberedFrom (n + 1) seq) (k : Nat)
    : seq.filter (n + k < ·.version) = seq.drop k := by
  induction seq generalizing n k with
  | nil => simp
  | cons migration seq ih =>
    have ⟨hversion, hrest⟩ := numberedFrom_cons_iff.mp h
    cases k with
    | zero =>
      rw [List.drop_zero, List.filter_eq_self]
      intro other hother
      have := (h.version_bounds hother).left
      rw [decide_eq_true_eq]
      omega
    | succ k =>
      rw [List.drop_succ_cons, ← ih hrest k, List.filter_cons_of_neg]
      . apply List.filter_congr
        intro other _
        rw [decide_eq_decide]
        omega
      . rw [decide_eq_true_eq]
        omega

theorem NumberedFrom.pairwise (h : NumberedFrom n seq)
    : seq.Pairwise (fun a b => a.version < b.version) := by
  induction seq generalizing n with
  | nil => exact .nil
  | cons migration seq ih =>
    have ⟨hversion, hrest⟩ := numberedFrom_cons_iff.mp h
    refine .cons ?_ (ih hrest)
    intro other hother
    have := (hrest.version_bounds hother).left
    omega

theorem byVersion_of_mem (h : NumberedFrom n seq) (hmem : migration ∈ seq)
    : byVersion seq migration.version = some migration := by
  unfold byVersion
  rw [Table.find?_eq_some_iff_of_unique]
  . exact ⟨List.mem_reverse.mpr hmem, decide_eq_true rfl⟩
  . intro a ha b hb hpa hpb
    rw [List.mem_reverse] at ha hb
    rw [decide_eq_true_eq] at hpa hpb
    exact h.unique ha hb (hpa.trans hpb.symm)

theorem byVersion_eq_none {version : Nat} (h : ∀ migration ∈ seq, migration.version ≠ version)
    : byVersion seq version = none := by
  unfold byVersion
  rw [List.find?_eq_none]
  intro migration hmem
  rw [decide_eq_true_eq]
  exact h migration (List.mem_reverse.mp hmem)

theorem highest_lt {b : Nat} (hb : 0 < b) (h : ∀ migration ∈ seq, migration.version < b)
    : highest seq < b := by
  have hfold : ∀ (l : List Nat) (a : Nat), a < b → (∀ x ∈ l, x < b) → l.foldl max a < b := by
    intro l
    induction l with
    | nil =>
      intro a ha _
      exact ha
    | cons y l ih =>
      intro a ha hl
      have hy := hl y List.mem_cons_self
      rw [List.foldl_cons]
      apply ih
      . omega
      . intro x hx
        exact hl x (List.mem_cons_of_mem _ hx)
  apply hfold _ 0 hb
  intro x hx
  have ⟨migration, hmem, heq⟩ := List.mem_map.mp hx
  rw [← heq]
  exact h migration hmem

theorem compareRow_ok (h : NumberedFrom 1 seq) (n : Nat) (hmem : migration ∈ seq) (ahead : List Nat)
    : ∃ ahead', compareRow (seq.take n) ahead migration.row = .ok ahead' := by
  unfold compareRow
  have hversion : migration.row.version = migration.version := rfl
  by_cases hin : migration ∈ seq.take n
  . rw [hversion, byVersion_of_mem (h.take n) hin]
    exact ⟨ahead, if_neg (fun hne => hne rfl)⟩
  . -- every migration of the set comes before one that is not in it
    have hbelow : ∀ other ∈ seq.take n, other.version < migration.version := by
      intro other hother
      have hpairwise := h.pairwise
      rw [← List.take_append_drop n seq, List.pairwise_append] at hpairwise
      apply hpairwise.right.right other hother migration
      rw [← List.take_append_drop n seq, List.mem_append] at hmem
      exact hmem.resolve_left hin
    have hnone : byVersion (seq.take n) migration.version = none := by
      apply byVersion_eq_none
      intro other hother heq
      exact Nat.ne_of_lt (hbelow other hother) heq
    have hpos := (h.version_bounds hmem).left
    rw [hversion, hnone]
    exact ⟨_, if_pos (highest_lt hpos hbelow)⟩

theorem compareRows_ok (h : NumberedFrom 1 seq) (n : Nat) {rows : List Migration}
    (hmem : ∀ migration ∈ rows, migration ∈ seq) (ahead : List Nat)
    : ∃ ahead', (rows.map Migration.row).foldlM (compareRow (seq.take n)) ahead = .ok ahead' := by
  induction rows generalizing ahead with
  | nil => exact ⟨ahead, rfl⟩
  | cons migration rows ih =>
    have ⟨ahead1, hrow⟩ := compareRow_ok h n (hmem migration List.mem_cons_self) ahead
    have ⟨ahead', hrest⟩ := ih (fun other hother => hmem other (List.mem_cons_of_mem _ hother)) ahead1
    refine ⟨ahead', ?_⟩
    rw [List.map_cons, List.foldlM_cons, hrow]
    exact hrest

theorem planMigrations_take (h : NumberedFrom 1 seq) (hk : k ≤ seq.length)
    (hempty : seq.take n = [] → k = 0)
    : ∃ ahead, planMigrations ((seq.take k).map Migration.row) (seq.take n)
        = .ok ⟨(seq.take n).drop k, ahead⟩ := by
  have htake : ∀ migration ∈ seq.take k, migration ∈ seq := fun _ => List.mem_of_mem_take
  have ⟨ahead, hahead⟩ := compareRows_ok h n htake []
  have hlength : ((seq.take k).map Migration.row).length = k := by simp [hk]
  have hhistory : checkHistory 1 ((seq.take k).map Migration.row) = .ok () := by
    rw [checkHistory_eq_ok_iff, List.map_map, List.length_map]
    exact h.take k
  refine ⟨ahead, ?_⟩
  have hdrop := (h.take n).filter_eq_drop k
  rw [Nat.zero_add] at hdrop
  unfold planMigrations
  simp only [hhistory, bind, Except.bind, hahead, hlength, hdrop]
  rw [if_neg]
  . rfl
  . simp only [Bool.and_eq_true, Bool.not_eq_eq_eq_not, Bool.not_true, List.isEmpty_iff, not_and]
    intro hrows hnil
    rw [hempty hnil] at hrows
    contradiction

theorem inVersionOrder_take (h : NumberedFrom 1 seq) (k : Nat)
    : inVersionOrder ((seq.take k).map Migration.row) = (seq.take k).map Migration.row := by
  apply List.mergeSort_of_pairwise
  rw [List.pairwise_map]
  apply (h.take k).pairwise.imp
  intro a b hlt
  exact decide_eq_true (Nat.le_of_lt hlt)

theorem checkSchema_take (h : NumberedFrom 1 seq) (hk : k ≤ seq.length) (hempty : seq.take n = [] → k = 0)
    (hpending : (seq.take n).drop k = [])
    : ∃ ahead, checkSchema (some ((seq.take k).map Migration.row)) (seq.take n) = .ok ahead := by
  have ⟨ahead, hplan⟩ := planMigrations_take h hk hempty
  refine ⟨ahead, ?_⟩
  unfold checkSchema
  simp only [inVersionOrder_take h, hplan, bind, Except.bind, hpending, List.isEmpty_nil, if_true]
  rfl

end sequence

end Migrations

end AetherGrid
