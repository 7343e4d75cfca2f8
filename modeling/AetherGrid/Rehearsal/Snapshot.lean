import AetherGrid.Csv.Reader
import AetherGrid.Prog.Except
import AetherGrid.Table.Basic

/-!
This module contains the part of the upgrade rehearsal that decides whether a row changed: the exports of the
tables are read and compared.
-/

namespace AetherGrid

namespace Rehearsal

abbrev Snapshot := Table String (String × String) Prod.fst

def nullMarker : String := "\\N"

def quotedMarker : List Char :=
  '"' :: (nullMarker.toList ++ ['"'])

inductive ReadError where
  | quotedMarker (table : String)
  | noHeader (table : String)
  | wrongNumberOfFields (table : String) (lineNum : Nat)
  | appearsTwice (table rowId : String)
  | csv (e : Csv.Error)
  | keyError (key : String)
  deriving DecidableEq

abbrev Row := List (String × String)

-- of two entries with the same key the later one counts
def Row.get? (row : Row) (column : String) : Option String :=
  row.reverse.lookup column

abbrev Rows := List (String × Row)

def dictRecords (lineNum : Option Nat) (records : List Csv.Record) : List Csv.Record :=
  match records with
  | [] => []
  | record :: records =>
    if record.fields = [] then
      dictRecords (some (lineNum.getD record.lineNum)) records
    else
      ⟨record.fields, lineNum.getD record.lineNum⟩ :: dictRecords none records

def readRecord (table : String) (columns : List String) (rows : Rows) (record : Csv.Record)
    : Except ReadError Rows :=
  if record.fields.length ≠ columns.length then
    .error (.wrongNumberOfFields table record.lineNum)
  else
    let row : Row := columns.zip record.fields
    match row.get? (columns.headD "") with
    | none => .error (.keyError (columns.headD ""))
    | some rowId =>
      if rowId ∈ rows.map Prod.fst then
        .error (.appearsTwice table rowId)
      else
        .ok (rows ++ [(rowId, row)])

def read (table text : String) : Except ReadError (List String × Rows) :=
  if quotedMarker <:+: text.toList then
    .error (.quotedMarker table)
  else
    let (records, failure) := Csv.reader text
    match records with
    | [] =>
      match failure with
      | some e => .error (.csv e)
      | none => .error (.noHeader table)
    | header :: records =>
      if header.fields = [] then
        .error (.noHeader table)
      else do
        let rows ← (dictRecords none records).foldlM (readRecord table header.fields) []
        -- the reader fails where the next record would be
        match failure with
        | some e => throw (.csv e)
        | none => return (header.fields, rows)

inductive Difference where
  | missingBefore (table : String)
  | missingAfter (table : String)
  | columnsChanged (table : String) (before after : List String)
  | rowRemoved (table rowId : String)
  | rowAdded (table rowId : String)
  | changed (table rowId column : String) (old new : Option String)
  deriving DecidableEq

def sorted (texts : List String) : List String :=
  texts.insertionSort (· ≤ ·)

def Rows.value (rows : Rows) (rowId column : String) : Option String :=
  (rows.lookup rowId).bind (·.get? column)

def compareRows (table : String) (columns : List String) (before after : Rows) : List Difference :=
  let ids := before.map Prod.fst
  let ids' := after.map Prod.fst
  (sorted (ids.filter (· ∉ ids'))).map (.rowRemoved table)
    ++ (sorted (ids'.filter (· ∉ ids))).map (.rowAdded table)
    ++ (sorted (ids.filter (· ∈ ids'))).flatMap fun rowId =>
      columns.filterMap fun column =>
        let old := before.value rowId column
        let new := after.value rowId column
        if old ≠ new then some (.changed table rowId column old new) else none

def compareTable (before after : Snapshot) (table : String) : Except ReadError (List Difference) :=
  match before.get? table, after.get? table with
  | none, _ => .ok [.missingBefore table]
  | some _, none => .ok [.missingAfter table]
  | some (_, before), some (_, after) => do
    let (beforeColumns, beforeRows) ← read table before
    let (afterColumns, afterRows) ← read table after
    if beforeColumns ≠ afterColumns then
      return [.columnsChanged table beforeColumns afterColumns]
    else
      return compareRows table beforeColumns beforeRows afterRows

def tableNames (snapshot : Snapshot) : List String :=
  snapshot.rows.map Prod.fst

def compareSnapshots (before after : Snapshot) : Except ReadError (List Difference) := do
  let names := sorted (tableNames before ++ tableNames after).dedup
  let differences ← names.mapM (compareTable before after)
  return differences.flatten

section exports

structure TableData where
  columns : List String
  rows : List (List (Option String))
  hcolumns : columns.Nodup
  htwo : 2 ≤ columns.length
  hwidth : ∀ row ∈ rows, row.length = columns.length
  hid : ∀ row ∈ rows, ∃ id rest, row = some id :: rest
  hunique : (rows.map List.head?).Nodup

/--
How `COPY ... WITH (FORMAT csv, HEADER, NULL '\\N')` writes a cell.
-/
inductive WrittenCell : Option String → List Char → Prop where
  | null : WrittenCell none nullMarker.toList
  | value {value : String} {text : List Char} (h : Csv.Written value text)
    (hmarker : value = nullMarker → text = quotedMarker) : WrittenCell (some value) text

inductive WrittenRow : List (Option String) → List Char → Prop where
  | last {cell : Option String} {text : List Char} (h : WrittenCell cell text)
    : WrittenRow [cell] (text ++ ['\n'])
  | cons {cell : Option String} {text : List Char} {cells : List (Option String)} {rest : List Char}
    (h : WrittenCell cell text) (hrest : WrittenRow cells rest)
    : WrittenRow (cell :: cells) (text ++ ',' :: rest)

inductive WrittenRows : List (List (Option String)) → List Char → Prop where
  | nil : WrittenRows [] []
  | cons {row : List (Option String)} {text : List Char} {rows : List (List (Option String))}
    {rest : List Char} (h : WrittenRow row text) (hrest : WrittenRows rows rest)
    : WrittenRows (row :: rows) (text ++ rest)

def Exports (t : TableData) (text : String) : Prop :=
  WrittenRows (t.columns.map some :: t.rows) text.toList

def cellText (cell : Option String) : String :=
  cell.getD nullMarker

variable {cell : Option String} {row : List (Option String)} {rows : List (List (Option String))}
  {text : List Char}

theorem WrittenCell.written (h : WrittenCell cell text) : Csv.Written (cellText cell) text := by
  cases h with
  | null =>
    apply Csv.Written.raw
    simp [cellText, nullMarker, Csv.Special]
  | value h _ => exact h

theorem WrittenRow.written (h : WrittenRow row text) : Csv.WrittenRecord (row.map cellText) text := by
  induction h with
  | last h => exact .last h.written
  | cons h _ ih => exact .cons h.written ih

theorem WrittenRows.written (h : WrittenRows rows text)
    : Csv.WrittenText (rows.map (List.map cellText)) text := by
  induction h with
  | nil => exact .nil
  | cons h _ ih => exact .cons h.written ih

theorem WrittenRow.quotedMarker_infix (h : WrittenRow row text) (hmem : some nullMarker ∈ row)
    : quotedMarker <:+: text := by
  have hcell : ∀ {text : List Char}, WrittenCell (some nullMarker) text → text = quotedMarker := by
    intro text h
    cases h with
    | value _ hmarker => exact hmarker rfl
  induction h with
  | @last cell text h =>
    rw [List.mem_singleton] at hmem
    subst hmem
    rw [hcell h]
    exact (List.prefix_append _ _).isInfix
  | @cons cell text cells rest h _ ih =>
    rw [List.mem_cons] at hmem
    rcases hmem with heq | hmem
    . subst heq
      rw [hcell h]
      exact (List.prefix_append _ _).isInfix
    . have hsuffix : rest <:+ text ++ ',' :: rest :=
        (List.suffix_cons ',' rest).trans (List.suffix_append _ _)
      exact (ih hmem).trans hsuffix.isInfix

theorem WrittenRows.quotedMarker_infix (h : WrittenRows rows text) (hrow : row ∈ rows)
    (hmem : some nullMarker ∈ row) : quotedMarker <:+: text := by
  induction h with
  | nil => contradiction
  | @cons row' text rows rest h _ ih =>
    rw [List.mem_cons] at hrow
    rcases hrow with heq | hrow
    . subst heq
      exact (h.quotedMarker_infix hmem).trans (List.prefix_append _ _).isInfix
    . exact (ih hrow).trans (List.suffix_append _ _).isInfix

end exports

section lookup

variable {α : Type} {l : List (String × α)} {k : String} {a : α}

theorem lookup_of_mem (hnodup : (l.map Prod.fst).Nodup) (h : (k, a) ∈ l) : l.lookup k = some a := by
  obtain ⟨before, after, rfl⟩ := List.append_of_mem h
  rw [List.lookup_eq_some_iff]
  refine ⟨before, after, rfl, fun entry hentry => ?_⟩
  rw [List.map_append, List.nodup_append] at hnodup
  have hne := hnodup.right.right entry.1 (List.mem_map_of_mem hentry) k List.mem_cons_self
  exact bne_iff_ne.mpr hne.symm

theorem Row.get?_of_mem {row : Row} {column value : String} (hnodup : (row.map Prod.fst).Nodup)
    (h : (column, value) ∈ row) : row.get? column = some value := by
  apply lookup_of_mem
  . rw [List.map_reverse, List.nodup_reverse]
    exact hnodup
  . exact List.mem_reverse.mpr h

theorem get?_zip {columns fields : List String} (hnodup : columns.Nodup)
    (hlength : fields.length = columns.length) (i : Nat) (hi : i < columns.length)
    : Row.get? (columns.zip fields) columns[i] = some (fields[i]) := by
  apply Row.get?_of_mem
  . rw [List.map_fst_zip (by omega)]
    exact hnodup
  . rw [List.mem_iff_getElem]
    refine ⟨i, by rw [List.length_zip]; omega, ?_⟩
    rw [List.getElem_zip]

theorem eq_of_get?_zip {columns fields fields' : List String} (hnodup : columns.Nodup)
    (hlength : fields.length = columns.length) (hlength' : fields'.length = columns.length)
    (h : ∀ column ∈ columns, Row.get? (columns.zip fields) column = Row.get? (columns.zip fields') column)
    : fields = fields' := by
  apply List.ext_getElem
  . rw [hlength, hlength']
  . intro i hi hi'
    have hcolumn := h columns[i] (List.getElem_mem _)
    rw [get?_zip hnodup hlength i (by omega), get?_zip hnodup hlength' i (by omega)] at hcolumn
    injection hcolumn

end lookup

section read

variable {t t' : TableData} {table : String}

def TableData.HasMarker (t : TableData) : Prop :=
  ∃ row ∈ t.rows, some nullMarker ∈ row

def TableData.Fits (t : TableData) : Prop :=
  ∀ row ∈ t.columns.map some :: t.rows, ∀ cell ∈ row, (cellText cell).length ≤ Csv.fieldLimit

def rowId (row : List (Option String)) : String :=
  cellText (row.headD none)

def entry (columns : List String) (row : List (Option String)) : String × Row :=
  (rowId row, columns.zip (row.map cellText))

theorem TableData.ids_nodup (t : TableData) : (t.rows.map rowId).Nodup := by
  have hids : t.rows.map List.head? = (t.rows.map rowId).map (fun id => some (some id)) := by
    rw [List.map_map]
    apply List.map_congr_left
    intro row hrow
    obtain ⟨id, rest, heq⟩ := t.hid row hrow
    subst heq
    rfl
  have hunique := t.hunique
  rw [hids] at hunique
  exact hunique.of_map _

theorem dictRecords_fields {records : List Csv.Record} (h : ∀ record ∈ records, record.fields ≠ [])
    : (dictRecords none records).map Csv.Record.fields = records.map Csv.Record.fields := by
  induction records with
  | nil => rfl
  | cons record records ih =>
    unfold dictRecords
    rw [if_neg (h record List.mem_cons_self), List.map_cons, List.map_cons,
      ih (fun record hrecord => h record (List.mem_cons_of_mem _ hrecord))]

theorem readRecord_row {columns : List String} (hcolumns : columns.Nodup) (htwo : 2 ≤ columns.length)
    {row : List (Option String)} (hwidth : row.length = columns.length) {rows : Rows}
    (hfresh : rowId row ∉ rows.map Prod.fst) {record : Csv.Record}
    (hrecord : record.fields = row.map cellText)
    : readRecord table columns rows record = .ok (rows ++ [entry columns row]) := by
  have hlength : (row.map cellText).length = columns.length := by
    rw [List.length_map, hwidth]
  have hget : Row.get? (columns.zip (row.map cellText)) (columns.headD "") = some (rowId row) := by
    cases columns with
    | nil => simp at htwo
    | cons column columns =>
      cases row with
      | nil => simp at hwidth
      | cons cell row => exact get?_zip hcolumns hlength 0 (by simp)
  unfold readRecord
  rw [hrecord, if_neg (by simp [hlength])]
  dsimp only
  rw [hget]
  dsimp only
  rw [if_neg hfresh]
  rfl

theorem readRecords_rows (table : String) {columns : List String} (hcolumns : columns.Nodup) (htwo : 2 ≤ columns.length)
    {data : List (List (Option String))} (hwidth : ∀ row ∈ data, row.length = columns.length)
    {records : List Csv.Record} (hrecords : records.map Csv.Record.fields = data.map (List.map cellText))
    (rows : Rows) (hnodup : (rows.map Prod.fst ++ data.map rowId).Nodup)
    : records.foldlM (readRecord table columns) rows = .ok (rows ++ data.map (entry columns)) := by
  induction data generalizing records rows with
  | nil =>
    have hnil : records = [] := by simpa using hrecords
    subst hnil
    rw [List.map_nil, List.append_nil]
    rfl
  | cons row data ih =>
    cases records with
    | nil => simp at hrecords
    | cons record records =>
      rw [List.map_cons, List.map_cons, List.cons.injEq] at hrecords
      have hfresh : rowId row ∉ rows.map Prod.fst := by
        intro hmem
        rw [List.map_cons] at hnodup
        exact (List.disjoint_of_nodup_append hnodup) hmem List.mem_cons_self
      have hstep : readRecord table columns rows record = .ok (rows ++ [entry columns row]) :=
        readRecord_row hcolumns htwo (hwidth row List.mem_cons_self) hfresh hrecords.left
      have hrest := ih (fun row hrow => hwidth row (List.mem_cons_of_mem _ hrow)) hrecords.right
        (rows ++ [entry columns row]) (by
          rw [List.map_append, List.append_assoc]
          exact hnodup)
      rw [List.foldlM_cons, hstep]
      rw [List.append_assoc] at hrest
      exact hrest

theorem read_of_failure {text : String} {e : Csv.Error} (h : (Csv.reader text).2 = some e)
    : ∃ e, read table text = .error e := by
  unfold read
  split
  . exact ⟨_, rfl⟩
  . cases hreader : Csv.reader text with
    | mk records failure =>
      rw [hreader] at h
      dsimp only at h
      subst h
      cases records with
      | nil => exact ⟨_, rfl⟩
      | cons header records =>
        dsimp only
        split
        . exact ⟨_, rfl⟩
        . cases (dictRecords none records).foldlM (readRecord table header.fields) [] with
          | error e => exact ⟨e, rfl⟩
          | ok rows => exact ⟨_, rfl⟩

theorem read_of_records {text : String} (hmarker : ¬quotedMarker <:+: text.toList)
    (hnone : (Csv.reader text).2 = none)
    (hrecords : (Csv.reader text).1.map Csv.Record.fields = t.columns :: t.rows.map (List.map cellText))
    : read table text = .ok (t.columns, t.rows.map (entry t.columns)) := by
  cases hreader : Csv.reader text with
  | mk records failure =>
    rw [hreader] at hnone hrecords
    dsimp only at hnone hrecords
    subst hnone
    cases records with
    | nil => simp at hrecords
    | cons header records =>
      rw [List.map_cons, List.cons.injEq] at hrecords
      have htwo := t.htwo
      have hnonempty : ∀ record ∈ records, record.fields ≠ [] := by
        intro record hrecord hempty
        have hmem : record.fields ∈ records.map Csv.Record.fields := List.mem_map_of_mem hrecord
        rw [hrecords.right, hempty, List.mem_map] at hmem
        obtain ⟨row, hrow, hnil⟩ := hmem
        have hlength := t.hwidth row hrow
        rw [List.map_eq_nil_iff] at hnil
        rw [hnil, List.length_nil] at hlength
        omega
      have hcolumns : t.columns ≠ [] := by
        intro hempty
        rw [hempty, List.length_nil] at htwo
        omega
      have hrows := readRecords_rows table t.hcolumns t.htwo t.hwidth
        ((dictRecords_fields hnonempty).trans hrecords.right) [] t.ids_nodup
      unfold read
      rw [hreader, if_neg hmarker]
      dsimp only
      rw [hrecords.left, if_neg hcolumns, hrows]
      rfl

theorem read_export (table : String) {text : String} (h : Exports t text)
    : (¬(t.Fits ∧ ¬quotedMarker <:+: text.toList) ∧ ∃ e, read table text = .error e)
        ∨ ¬t.HasMarker ∧ read table text = .ok (t.columns, t.rows.map (entry t.columns)) := by
  by_cases hinfix : quotedMarker <:+: text.toList
  . refine .inl ⟨fun hfits => hfits.right hinfix, .quotedMarker table, ?_⟩
    unfold read
    exact if_pos hinfix
  . have hwidth : ∀ row ∈ t.columns.map some :: t.rows, row.length = t.columns.length := by
      intro row hrow
      rw [List.mem_cons] at hrow
      rcases hrow with rfl | hrow
      . rw [List.length_map]
      . exact t.hwidth row hrow
    have htwo : ∀ values ∈ (t.columns.map some :: t.rows).map (List.map cellText), 2 ≤ values.length := by
      intro values hvalues
      obtain ⟨row, hrow, rfl⟩ := List.mem_map.mp hvalues
      rw [List.length_map, hwidth row hrow]
      exact t.htwo
    rcases Csv.records_of_writtenText (WrittenRows.written h) htwo 0 with
      ⟨hlong, e, he⟩ | ⟨hnone, hrecords⟩
    . refine .inl ⟨?_, read_of_failure he⟩
      intro hfits
      apply hlong
      intro values hvalues value hvalue
      obtain ⟨row, hrow, rfl⟩ := List.mem_map.mp hvalues
      obtain ⟨cell, hcell, rfl⟩ := List.mem_map.mp hvalue
      exact hfits.left row hrow cell hcell
    . refine .inr ⟨?_, ?_⟩
      . rintro ⟨row, hrow, hmem⟩
        exact hinfix (WrittenRows.quotedMarker_infix h (List.mem_cons_of_mem _ hrow) hmem)
      . have hheader : (t.columns.map some).map cellText = t.columns := by
          rw [List.map_map]
          exact List.map_id _
        rw [List.map_cons, hheader] at hrecords
        exact read_of_records hinfix hnone hrecords

end read

section compare

variable {t t' : TableData} {table : String}

theorem cellText_injective {cell cell' : Option String} (hcell : cell ≠ some nullMarker)
    (hcell' : cell' ≠ some nullMarker) (h : cellText cell = cellText cell') : cell = cell' := by
  cases cell with
  | none =>
    cases cell' with
    | none => rfl
    | some value => exact absurd (congrArg some h.symm) hcell'
  | some value =>
    cases cell' with
    | none => exact absurd (congrArg some h) hcell
    | some value' => exact congrArg some h

theorem map_cellText_injective {row row' : List (Option String)} (hrow : some nullMarker ∉ row)
    (hrow' : some nullMarker ∉ row') (h : row.map cellText = row'.map cellText) : row = row' := by
  induction row generalizing row' with
  | nil => exact (List.map_eq_nil_iff.mp h.symm).symm
  | cons cell row ih =>
    cases row' with
    | nil => simp at h
    | cons cell' row' =>
      rw [List.map_cons, List.map_cons, List.cons.injEq] at h
      rw [List.mem_cons, not_or] at hrow hrow'
      rw [cellText_injective (Ne.symm hrow.left) (Ne.symm hrow'.left) h.left,
        ih hrow.right hrow'.right h.right]

theorem compareRows_eq_nil_iff {columns : List String} {before after : Rows}
    : compareRows table columns before after = []
        ↔
      (∀ id, id ∈ before.map Prod.fst ↔ id ∈ after.map Prod.fst)
        ∧ ∀ id ∈ before.map Prod.fst, ∀ column ∈ columns,
          before.value id column = after.value id column := by
  have hsorted : ∀ (l : List String) (id : String), id ∈ sorted l ↔ id ∈ l :=
    fun l id => List.mem_insertionSort _
  have hremoved : ∀ (l l' : List String), sorted (l.filter (· ∉ l')) = [] ↔ ∀ id ∈ l, id ∈ l' := by
    intro l l'
    rw [List.eq_nil_iff_forall_not_mem]
    simp only [hsorted, List.mem_filter, decide_eq_true_eq, not_and, not_not]
  unfold compareRows
  dsimp only
  rw [List.append_eq_nil_iff, List.append_eq_nil_iff, List.map_eq_nil_iff, List.map_eq_nil_iff, hremoved,
    hremoved, List.flatMap_eq_nil_iff]
  simp only [hsorted, List.mem_filter, decide_eq_true_eq, List.filterMap_eq_nil_iff, ite_not,
    ite_eq_left_iff, reduceCtorEq, imp_false, not_not, and_imp]
  constructor
  . rintro ⟨⟨hsub, hsub'⟩, hvalues⟩
    refine ⟨fun id => ⟨hsub id, hsub' id⟩, ?_⟩
    intro id hid column hcolumn
    exact hvalues id hid (hsub id hid) column hcolumn
  . rintro ⟨hids, hvalues⟩
    refine ⟨⟨fun id => (hids id).mp, fun id => (hids id).mpr⟩, ?_⟩
    intro id hid _ column hcolumn
    exact hvalues id hid column hcolumn

theorem entry_ids (columns : List String) (rows : List (List (Option String)))
    : (rows.map (entry columns)).map Prod.fst = rows.map rowId := by
  rw [List.map_map]
  rfl

theorem TableData.value_entry (t : TableData) {row : List (Option String)} (hrow : row ∈ t.rows)
    (columns : List String) (column : String)
    : Rows.value (t.rows.map (entry columns)) (rowId row) column
        =
      Row.get? (columns.zip (row.map cellText)) column := by
  have hnodup : ((t.rows.map (entry columns)).map Prod.fst).Nodup := by
    rw [entry_ids]
    exact t.ids_nodup
  have hmem : (rowId row, columns.zip (row.map cellText)) ∈ t.rows.map (entry columns) :=
    List.mem_map_of_mem hrow
  unfold Rows.value
  rw [lookup_of_mem hnodup hmem]
  rfl

theorem compareRows_entries (hcolumns : t.columns = t'.columns) (hmarker : ¬t.HasMarker)
    (hmarker' : ¬t'.HasMarker)
    : compareRows table t.columns (t.rows.map (entry t.columns)) (t'.rows.map (entry t'.columns)) = []
        ↔
      ∀ row, row ∈ t.rows ↔ row ∈ t'.rows := by
  rw [compareRows_eq_nil_iff, entry_ids, entry_ids, ← hcolumns]
  have hsame : ∀ row ∈ t.rows, ∀ row' ∈ t'.rows, rowId row = rowId row' →
      (∀ column ∈ t.columns, Rows.value (t.rows.map (entry t.columns)) (rowId row) column
        = Rows.value (t'.rows.map (entry t.columns)) (rowId row) column) → row = row' := by
    intro row hrow row' hrow' hid hvalues
    apply map_cellText_injective
    . exact fun hmem => hmarker ⟨row, hrow, hmem⟩
    . exact fun hmem => hmarker' ⟨row', hrow', hmem⟩
    . apply eq_of_get?_zip t.hcolumns
      . rw [List.length_map, t.hwidth row hrow]
      . rw [List.length_map, t'.hwidth row' hrow', hcolumns]
      . intro column hcolumn
        have hvalue := hvalues column hcolumn
        rw [t.value_entry hrow, hid, t'.value_entry hrow'] at hvalue
        exact hvalue
  constructor
  . rintro ⟨hids, hvalues⟩ row
    constructor
    . intro hrow
      have hid := List.mem_map_of_mem (f := rowId) hrow
      obtain ⟨row', hrow', heq⟩ := List.mem_map.mp ((hids _).mp hid)
      rw [hsame row hrow row' hrow' heq.symm (hvalues _ hid)]
      exact hrow'
    . intro hrow'
      obtain ⟨row', hrow, heq⟩ := List.mem_map.mp ((hids _).mpr (List.mem_map_of_mem hrow'))
      rw [← hsame row' hrow row hrow' heq (hvalues _ (List.mem_map_of_mem hrow))]
      exact hrow
  . intro hrows
    refine ⟨?_, ?_⟩
    . intro id
      simp only [List.mem_map, hrows]
    . intro id hid column hcolumn
      obtain ⟨row, hrow, rfl⟩ := List.mem_map.mp hid
      rw [t.value_entry hrow, t'.value_entry ((hrows row).mp hrow)]

end compare

section snapshots

variable {before after : Snapshot} {t t' : String → TableData}

def Snapshot.Of (snapshot : Snapshot) (t : String → TableData) : Prop :=
  ∀ entry ∈ snapshot.rows, Exports (t entry.1) entry.2

def Snapshot.Plain (snapshot : Snapshot) (t : String → TableData) : Prop :=
  ∀ entry ∈ snapshot.rows, (t entry.1).Fits ∧ ¬quotedMarker <:+: entry.2.toList

def SameContent (before after : Snapshot) (t t' : String → TableData) : Prop :=
  (∀ table, table ∈ tableNames before ↔ table ∈ tableNames after)
    ∧ ∀ table ∈ tableNames before, (t table).columns = (t' table).columns
      ∧ ∀ row, row ∈ (t table).rows ↔ row ∈ (t' table).rows

theorem get?_of_mem_tableNames {snapshot : Snapshot} {table : String} (h : table ∈ tableNames snapshot)
    : ∃ text, snapshot.get? table = some (table, text) := by
  obtain ⟨entry, hentry, rfl⟩ := List.mem_map.mp h
  exact ⟨entry.2, snapshot.get?_key_of_mem hentry⟩

theorem get?_eq_none_of_not_mem {snapshot : Snapshot} {table : String} (h : table ∉ tableNames snapshot)
    : snapshot.get? table = none := by
  rw [snapshot.get?_eq_none_iff]
  intro entry hentry heq
  apply h
  rw [← heq]
  exact List.mem_map_of_mem hentry

theorem compareTable_eq_nil_iff (hbefore : before.Of t) (hafter : after.Of t') {table : String}
    {differences : List Difference} (h : compareTable before after table = .ok differences)
    : differences = []
        ↔
      table ∈ tableNames before ∧ table ∈ tableNames after ∧ (t table).columns = (t' table).columns
        ∧ ∀ row, row ∈ (t table).rows ↔ row ∈ (t' table).rows := by
  unfold compareTable at h
  by_cases hin : table ∈ tableNames before
  . obtain ⟨text, htext⟩ := get?_of_mem_tableNames hin
    rw [htext] at h
    by_cases hin' : table ∈ tableNames after
    . obtain ⟨text', htext'⟩ := get?_of_mem_tableNames hin'
      rw [htext'] at h
      have hexport := hbefore _ (Table.mem_of_get? htext)
      have hexport' := hafter _ (Table.mem_of_get? htext')
      dsimp only at h hexport hexport'
      rcases read_export table hexport with ⟨_, e, he⟩ | ⟨hmarker, hread⟩
      . rw [he] at h
        contradiction
      . rw [hread] at h
        rcases read_export table hexport' with ⟨_, e, he⟩ | ⟨hmarker', hread'⟩
        . rw [he] at h
          contradiction
        . rw [hread'] at h
          dsimp only [bind, Except.bind] at h
          split at h
          . next hcolumns =>
            injection h with h
            subst h
            simp [hcolumns]
          . next hcolumns =>
            injection h with h
            subst h
            rw [ne_eq, not_not] at hcolumns
            rw [compareRows_entries hcolumns hmarker hmarker']
            simp [hin, hin', hcolumns]
    . rw [get?_eq_none_of_not_mem hin'] at h
      injection h with h
      subst h
      simp [hin']
  . rw [get?_eq_none_of_not_mem hin] at h
    injection h with h
    subst h
    simp [hin]

theorem not_plain_of_error (hbefore : before.Of t) (hafter : after.Of t') {table : String} {e : ReadError}
    (h : compareTable before after table = .error e) : ¬(before.Plain t ∧ after.Plain t') := by
  rintro ⟨hplain, hplain'⟩
  unfold compareTable at h
  split at h
  . contradiction
  . contradiction
  . next name text name' text' htext htext' =>
    have hmem := Table.mem_of_get? htext
    have hmem' := Table.mem_of_get? htext'
    rcases read_export table (hbefore _ hmem) with ⟨hnot, _⟩ | ⟨_, hread⟩
    . exact hnot (hplain _ hmem)
    . rw [hread] at h
      rcases read_export table (hafter _ hmem') with ⟨hnot, _⟩ | ⟨_, hread'⟩
      . exact hnot (hplain' _ hmem')
      . rw [hread'] at h
        dsimp only [bind, Except.bind] at h
        split at h <;> contradiction

theorem flatten_eq_nil_iff {names : List String} {differences : List (List Difference)}
    (h : List.Forall₂ (fun name ds => compareTable before after name = .ok ds) names differences)
    : differences.flatten = [] ↔ ∀ name ∈ names, compareTable before after name = .ok [] := by
  induction h with
  | nil => simp
  | @cons name ds names differences hname _ ih =>
    rw [List.flatten_cons, List.append_eq_nil_iff, ih, List.forall_mem_cons, hname]
    simp

theorem mem_sorted_names (before after : Snapshot) (table : String)
    : table ∈ sorted (tableNames before ++ tableNames after).dedup
        ↔
      table ∈ tableNames before ∨ table ∈ tableNames after := by
  unfold sorted
  rw [List.mem_insertionSort, List.mem_dedup, List.mem_append]

theorem comparison_misses_nothing (hbefore : before.Of t) (hafter : after.Of t')
    : (¬(before.Plain t ∧ after.Plain t') ∧ ∃ e, compareSnapshots before after = .error e)
        ∨ ∃ differences, compareSnapshots before after = .ok differences
          ∧ (differences = [] ↔ SameContent before after t t') := by
  unfold compareSnapshots
  dsimp only
  generalize hnames : sorted (tableNames before ++ tableNames after).dedup = names
  cases hmap : names.mapM (compareTable before after) with
  | error e =>
    obtain ⟨table, htable⟩ := Except.exists_of_mapM_eq_error hmap
    exact .inl ⟨not_plain_of_error hbefore hafter htable, e, rfl⟩
  | ok differences =>
    have hforall := Except.forall₂_of_mapM_eq_ok hmap
    refine .inr ⟨differences.flatten, rfl, ?_⟩
    rw [flatten_eq_nil_iff hforall]
    have hmem : ∀ table, table ∈ names ↔ table ∈ tableNames before ∨ table ∈ tableNames after := by
      intro table
      rw [← hnames, mem_sorted_names]
    have hcontent : ∀ table ∈ names, (compareTable before after table = .ok []
        ↔ table ∈ tableNames before ∧ table ∈ tableNames after ∧ (t table).columns = (t' table).columns
          ∧ ∀ row, row ∈ (t table).rows ↔ row ∈ (t' table).rows) := by
      intro table htable
      obtain ⟨i, hi, rfl⟩ := List.mem_iff_getElem.mp htable
      have hds := hforall.get hi (hforall.length_eq ▸ hi)
      rw [List.get_eq_getElem] at hds
      rw [← compareTable_eq_nil_iff hbefore hafter hds, hds, Except.ok.injEq]
    constructor
    . intro hall
      refine ⟨?_, ?_⟩
      . intro table
        constructor
        . intro hin
          have htable := (hmem table).mpr (.inl hin)
          exact ((hcontent table htable).mp (hall table htable)).right.left
        . intro hin
          have htable := (hmem table).mpr (.inr hin)
          exact ((hcontent table htable).mp (hall table htable)).left
      . intro table hin
        have htable := (hmem table).mpr (.inl hin)
        exact ((hcontent table htable).mp (hall table htable)).right.right
    . rintro ⟨hsame, hrows⟩ table htable
      have hin : table ∈ tableNames before := by
        rcases (hmem table).mp htable with hin | hin
        . exact hin
        . exact (hsame table).mpr hin
      exact (hcontent table htable).mpr ⟨hin, (hsame table).mp hin, hrows table hin⟩

def oneNode (name : Option String) : TableData where
  columns := ["id", "name"]
  rows := [[some "n1", name]]
  hcolumns := by decide
  htwo := le_refl 2
  hwidth := by simp
  hid := by simp
  hunique := List.nodup_singleton _

def nodes (text : String) : Snapshot :=
  ⟨[("public.nodes", text)], List.nodup_singleton _⟩

theorem writtenCell_raw {value : String} (h : ∀ c ∈ value.toList, ¬Csv.Special c)
    (hmarker : value ≠ nullMarker) : WrittenCell (some value) value.toList :=
  .value (.raw h) (fun heq => absurd heq hmarker)

theorem exports_oneNode {name : Option String} {written : List Char} (h : WrittenCell name written)
    {text : String} (htext : text.toList = "id,name\nn1,".toList ++ written ++ ['\n'])
    : (nodes text).Of (fun _ => oneNode name) := by
  intro entry hentry
  rw [nodes, List.mem_singleton] at hentry
  subst hentry
  have hid : WrittenCell (some "id") "id".toList := writtenCell_raw (by simp [Csv.Special]) (by decide)
  have hname : WrittenCell (some "name") "name".toList := writtenCell_raw (by simp [Csv.Special]) (by decide)
  have hn1 : WrittenCell (some "n1") "n1".toList := writtenCell_raw (by simp [Csv.Special]) (by decide)
  have hrows : WrittenRows [[some "id", some "name"], [some "n1", name]] _ :=
    .cons (.cons hid (.last hname)) (.cons (.cons hn1 (.last h)) .nil)
  unfold Exports
  rw [htext]
  simpa [oneNode] using hrows

end snapshots

theorem comparison_misses_nothing_null
    : ∃ differences, compareSnapshots (nodes "id,name\nn1,\\N\n") (nodes "id,name\nn1,\"a, b\"\n")
          = .ok differences
        ∧ differences ≠ [] := by
  have hbefore : (nodes "id,name\nn1,\\N\n").Of (fun _ => oneNode none) :=
    exports_oneNode .null (by rfl)
  have hafter : (nodes "id,name\nn1,\"a, b\"\n").Of (fun _ => oneNode (some "a, b")) :=
    exports_oneNode (.value .quoted (by decide)) (by rfl)
  rcases comparison_misses_nothing hbefore hafter with ⟨_, e, he⟩ | ⟨differences, hok, hiff⟩
  . have hisOk : (compareSnapshots (nodes "id,name\nn1,\\N\n") (nodes "id,name\nn1,\"a, b\"\n")).isOk
        = true := by decide +kernel
    rw [he] at hisOk
    contradiction
  . refine ⟨differences, hok, ?_⟩
    intro hnil
    obtain ⟨_, hsame⟩ := hiff.mp hnil
    have hrow := ((hsame "public.nodes" (by decide)).right [some "n1", none]).mp (by decide)
    contradiction

end Rehearsal

end AetherGrid
