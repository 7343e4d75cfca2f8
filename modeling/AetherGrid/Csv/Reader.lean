import Mathlib

/-!
This module contains the reader of the `csv` module with the dialect `excel`, over the lines of a `StringIO`,
and the proof that it reads back what is written with quotes where they are needed.
-/

namespace Csv

inductive State where
  | startRecord
  | startField
  | inField
  | inQuotedField
  | quoteInQuotedField
  | eatCrnl
  deriving DecidableEq

inductive Error where
  | fieldLarger
  | newLineInUnquotedField
  deriving DecidableEq

structure Reader where
  state : State := .startRecord
  field : List Char := []
  fields : List String := []

def fieldLimit : Nat := 131072

namespace Reader

def addChar (r : Reader) (c : Char) (next : State) : Except Error Reader :=
  if fieldLimit ≤ r.field.length then
    .error .fieldLarger
  else
    .ok { r with state := next, field := r.field ++ [c] }

def saveField (r : Reader) (next : State) : Reader :=
  { state := next, field := [], fields := r.fields ++ [String.ofList r.field] }

def beginField (r : Reader) (c : Option Char) : Except Error Reader :=
  match c with
  | none => .ok (r.saveField .startRecord)
  | some c =>
    if c = '\n' ∨ c = '\r' then
      .ok (r.saveField .eatCrnl)
    else if c = '"' then
      .ok { r with state := .inQuotedField }
    else if c = ',' then
      .ok (r.saveField .startField)
    else
      r.addChar c .inField

def step (r : Reader) (c : Option Char) : Except Error Reader :=
  match r.state with
  | .startRecord =>
    match c with
    | none => .ok r
    | some c =>
      if c = '\n' ∨ c = '\r' then
        .ok { r with state := .eatCrnl }
      else
        r.beginField (some c)
  | .startField => r.beginField c
  | .inField =>
    match c with
    | none => .ok (r.saveField .startRecord)
    | some c =>
      if c = '\n' ∨ c = '\r' then
        .ok (r.saveField .eatCrnl)
      else if c = ',' then
        .ok (r.saveField .startField)
      else
        r.addChar c .inField
  | .inQuotedField =>
    match c with
    | none => .ok r
    | some c =>
      if c = '"' then
        .ok { r with state := .quoteInQuotedField }
      else
        r.addChar c .inQuotedField
  | .quoteInQuotedField =>
    match c with
    | none => .ok (r.saveField .startRecord)
    | some c =>
      if c = '"' then
        r.addChar c .inQuotedField
      else if c = ',' then
        .ok (r.saveField .startField)
      else if c = '\n' ∨ c = '\r' then
        .ok (r.saveField .eatCrnl)
      else
        r.addChar c .inField
  | .eatCrnl =>
    match c with
    | none => .ok { r with state := .startRecord }
    | some c =>
      if c = '\n' ∨ c = '\r' then
        .ok r
      else
        .error .newLineInUnquotedField

end Reader

structure Record where
  fields : List String
  lineNum : Nat
  deriving DecidableEq

-- a field that the text leaves open is taken as it is
def atEnd (r : Reader) (lineNum : Nat) : List Record × Option Error :=
  if r.field ≠ [] ∨ r.state = .inQuotedField then
    ([⟨(r.saveField .startRecord).fields, lineNum⟩], none)
  else
    ([], none)

def records (r : Reader) (lineNum : Nat) (midLine : Bool) (text : List Char)
    : List Record × Option Error :=
  match text with
  | [] =>
    if midLine then
      match r.step none with
      | .error e => ([], some e)
      | .ok r =>
        if r.state = .startRecord then
          ([⟨r.fields, lineNum + 1⟩], none)
        else
          atEnd r (lineNum + 1)
    else
      atEnd r lineNum
  | c :: text =>
    match r.step (some c) with
    | .error e => ([], some e)
    | .ok r =>
      if c = '\n' then
        match r.step none with
        | .error e => ([], some e)
        | .ok r =>
          if r.state = .startRecord then
            let rest := records {} (lineNum + 1) false text
            (⟨r.fields, lineNum + 1⟩ :: rest.1, rest.2)
          else
            records r (lineNum + 1) false text
      else
        records r lineNum true text

def reader (text : String) : List Record × Option Error :=
  records {} 0 false text.toList

section written

def Special (c : Char) : Prop :=
  c = ',' ∨ c = '"' ∨ c = '\n' ∨ c = '\r'

def doubled (value : List Char) : List Char :=
  value.flatMap (fun c => if c = '"' then ['"', '"'] else [c])

inductive Written (value : String) : List Char → Prop where
  | raw (h : ∀ c ∈ value.toList, ¬Special c) : Written value value.toList
  | quoted : Written value ('"' :: (doubled value.toList ++ ['"']))

inductive WrittenRecord : List String → List Char → Prop where
  | last {value : String} {text : List Char} (h : Written value text)
    : WrittenRecord [value] (text ++ ['\n'])
  | cons {value : String} {text : List Char} {values : List String} {rest : List Char}
    (h : Written value text) (hrest : WrittenRecord values rest)
    : WrittenRecord (value :: values) (text ++ ',' :: rest)

inductive WrittenText : List (List String) → List Char → Prop where
  | nil : WrittenText [] []
  | cons {values : List String} {text : List Char} {records : List (List String)} {rest : List Char}
    (h : WrittenRecord values text) (hrest : WrittenText records rest)
    : WrittenText (values :: records) (text ++ rest)

end written

section reads

variable {r r' r'' : Reader} {text text' : List Char} {fits fits' : Prop}

def Leads (fits : Prop) (r : Reader) (text : List Char) (r' : Reader) : Prop :=
  ∀ n mid rest,
    (¬fits ∧ ∃ e, records r n mid (text ++ rest) = ([], some e))
      ∨ ∃ n' mid', records r n mid (text ++ rest) = records r' n' mid' rest

theorem Leads.refl (r : Reader) : Leads fits r [] r := by
  intro n mid rest
  exact .inr ⟨n, mid, rfl⟩

theorem Leads.trans (h : Leads fits r text r') (h' : Leads fits' r' text' r'')
    : Leads (fits ∧ fits') r (text ++ text') r'' := by
  intro n mid rest
  rw [List.append_assoc]
  rcases h n mid (text' ++ rest) with ⟨hfits, he⟩ | ⟨n', mid', heq⟩
  . exact .inl ⟨fun hboth => hfits hboth.left, he⟩
  . rw [heq]
    rcases h' n' mid' rest with ⟨hfits, he⟩ | hok
    . exact .inl ⟨fun hboth => hfits hboth.right, he⟩
    . exact .inr hok

theorem Leads.mono (h : Leads fits r text r') (himp : fits' → fits) : Leads fits' r text r' := by
  intro n mid rest
  rcases h n mid rest with ⟨hfits, he⟩ | hok
  . exact .inl ⟨fun h => hfits (himp h), he⟩
  . exact .inr hok

theorem leads_step {c : Char} (hc : c ≠ '\n') (hstep : r.step (some c) = .ok r')
    : Leads True r [c] r' := by
  intro n mid rest
  refine .inr ⟨n, true, ?_⟩
  rw [List.cons_append, List.nil_append, records, hstep]
  dsimp only
  rw [if_neg hc]

theorem leads_addChar {c : Char} {next : State} (hstep : r.step (some c) = r.addChar c next)
    (hbreak : c = '\n' → next = .inQuotedField)
    : Leads (r.field.length < fieldLimit) r [c] { r with state := next, field := r.field ++ [c] } := by
  intro n mid rest
  rw [List.cons_append, List.nil_append, records, hstep]
  unfold Reader.addChar
  by_cases hfull : fieldLimit ≤ r.field.length
  . rw [if_pos hfull]
    exact .inl ⟨by omega, _, rfl⟩
  . rw [if_neg hfull]
    dsimp only
    by_cases hc : c = '\n'
    . rw [if_pos hc, hbreak hc]
      exact .inr ⟨n + 1, false, rfl⟩
    . rw [if_neg hc]
      exact .inr ⟨n, true, rfl⟩

theorem leads_unquoted (hstate : r.state = .inField) (htext : ∀ c ∈ text, ¬Special c)
    : Leads (r.field.length + text.length ≤ fieldLimit) r text { r with field := r.field ++ text } := by
  induction text generalizing r with
  | nil =>
    rw [List.append_nil]
    exact .refl r
  | cons c text ih =>
    have hspecial := htext c List.mem_cons_self
    unfold Special at hspecial
    simp only [not_or] at hspecial
    obtain ⟨hcomma, _, hnewline, hreturn⟩ := hspecial
    have hstep : r.step (some c) = r.addChar c .inField := by
      unfold Reader.step
      rw [hstate]
      dsimp only
      rw [if_neg (by simp [hnewline, hreturn]), if_neg hcomma]
    have hfirst := leads_addChar hstep (fun h => absurd h hnewline)
    have hrest := ih (r := { r with state := .inField, field := r.field ++ [c] }) rfl
      (fun c' hc' => htext c' (List.mem_cons_of_mem _ hc'))
    have hfield : ({ r with field := r.field ++ c :: text } : Reader)
        = { r with state := .inField, field := r.field ++ [c] ++ text } := by
      rw [List.append_assoc, ← hstate]
      rfl
    rw [hfield]
    apply (hfirst.trans hrest).mono
    intro hfits
    simp only [List.length_cons, List.length_append, List.length_nil] at hfits ⊢
    omega

theorem leads_quoted (hstate : r.state = .inQuotedField) (value : List Char)
    : Leads (r.field.length + value.length ≤ fieldLimit) r (doubled value)
        { r with field := r.field ++ value } := by
  induction value generalizing r with
  | nil =>
    rw [List.append_nil]
    exact .refl r
  | cons c value ih =>
    have hfirst : Leads (r.field.length < fieldLimit) r (if c = '"' then ['"', '"'] else [c])
        { r with state := .inQuotedField, field := r.field ++ [c] } := by
      split
      . next hquote =>
        subst hquote
        have hopen : r.step (some '"') = .ok { r with state := .quoteInQuotedField } := by
          unfold Reader.step
          rw [hstate]
          rfl
        have hclose : Leads (r.field.length < fieldLimit) { r with state := .quoteInQuotedField } ['"']
            { r with state := .inQuotedField, field := r.field ++ ['"'] } :=
          leads_addChar (r := { r with state := .quoteInQuotedField }) rfl (fun _ => rfl)
        exact ((leads_step (by decide) hopen).trans hclose).mono (fun h => ⟨trivial, h⟩)
      . next hquote =>
        apply leads_addChar
        . unfold Reader.step
          rw [hstate]
          dsimp only
          rw [if_neg hquote]
        . intro _
          rfl
    have hrest := ih (r := { r with state := .inQuotedField, field := r.field ++ [c] }) rfl
    have hfield : ({ r with field := r.field ++ c :: value } : Reader)
        = { r with state := .inQuotedField, field := r.field ++ [c] ++ value } := by
      rw [List.append_assoc, ← hstate]
      rfl
    rw [hfield]
    apply (hfirst.trans hrest).mono
    intro hfits
    simp only [List.length_cons, List.length_append, List.length_nil] at hfits ⊢
    omega

structure Ended (r : Reader) (value : String) (r' : Reader) : Prop where
  field : r'.field = value.toList
  fields : r'.fields = r.fields
  state : r'.state = r.state ∨ r'.state = .inField ∨ r'.state = .quoteInQuotedField

theorem leads_written {value : String} (h : Written value text)
    (hstate : r.state = .startRecord ∨ r.state = .startField) (hfield : r.field = [])
    : ∃ r', Leads (value.length ≤ fieldLimit) r text r' ∧ Ended r value r' := by
  have hstart : ∀ c : Char, c ≠ '\n' → c ≠ '\r' → r.step (some c) = r.beginField (some c) := by
    intro c hnewline hreturn
    unfold Reader.step
    rcases hstate with hstate | hstate
    . rw [hstate]
      dsimp only
      rw [if_neg (by simp [hnewline, hreturn])]
    . rw [hstate]
  rw [← String.length_toList]
  cases h with
  | raw hraw =>
    cases htext : value.toList with
    | nil => exact ⟨r, .refl r, hfield.trans htext.symm, rfl, .inl rfl⟩
    | cons c rest =>
      rw [htext] at hraw
      have hspecial := hraw c List.mem_cons_self
      unfold Special at hspecial
      simp only [not_or] at hspecial
      obtain ⟨hcomma, hquote, hnewline, hreturn⟩ := hspecial
      have hstep : r.step (some c) = r.addChar c .inField := by
        rw [hstart c hnewline hreturn]
        unfold Reader.beginField
        dsimp only
        rw [if_neg (by simp [hnewline, hreturn]), if_neg hquote, if_neg hcomma]
      have hfirst := leads_addChar hstep (fun h => absurd h hnewline)
      have hrest := leads_unquoted (r := { r with state := .inField, field := r.field ++ [c] }) rfl
        (fun c' hc' => hraw c' (List.mem_cons_of_mem _ hc'))
      refine ⟨_, (hfirst.trans hrest).mono ?_, ?_, rfl, .inr (.inl rfl)⟩
      . intro hfits
        simp only [hfield, List.length_cons, List.length_append, List.length_nil] at hfits ⊢
        omega
      . rw [hfield, htext]
        rfl
  | quoted =>
    have hopen : r.step (some '"') = .ok { r with state := .inQuotedField } := by
      rw [hstart '"' (by decide) (by decide)]
      rfl
    have hvalue := leads_quoted (r := { r with state := .inQuotedField }) rfl value.toList
    have hclose : Leads True { r with state := .inQuotedField, field := r.field ++ value.toList } ['"']
        { r with state := .quoteInQuotedField, field := r.field ++ value.toList } :=
      leads_step (by decide) rfl
    refine ⟨_, ((leads_step (by decide) hopen).trans (hvalue.trans hclose)).mono ?_, ?_, rfl,
      .inr (.inr rfl)⟩
    . intro hfits
      refine ⟨trivial, ?_, trivial⟩
      rw [hfield, List.length_nil, Nat.zero_add]
      exact hfits
    . rw [hfield]
      rfl

theorem Ended.step_comma {value : String} (h : Ended r value r')
    (hstate : r.state = .startRecord ∨ r.state = .startField)
    : r'.step (some ',') = .ok { state := .startField, field := [], fields := r.fields ++ [value] } := by
  have hsave : r'.saveField .startField
      = { state := .startField, field := [], fields := r.fields ++ [value] } := by
    unfold Reader.saveField
    rw [h.field, h.fields, String.ofList_toList]
  rw [← hsave]
  unfold Reader.step
  rcases h.state with heq | heq | heq
  . rw [heq]
    rcases hstate with hstate | hstate
    . rw [hstate]
      rfl
    . rw [hstate]
      rfl
  . rw [heq]
    rfl
  . rw [heq]
    rfl

theorem Ended.records_newline {value : String} (h : Ended r value r') (hstate : r.state = .startField)
    (n : Nat) (mid : Bool) (rest : List Char)
    : records r' n mid ('\n' :: rest)
        =
      (⟨r.fields ++ [value], n + 1⟩ :: (records {} (n + 1) false rest).1,
        (records {} (n + 1) false rest).2) := by
  have hsave : r'.saveField .eatCrnl
      = { state := .eatCrnl, field := [], fields := r.fields ++ [value] } := by
    unfold Reader.saveField
    rw [h.field, h.fields, String.ofList_toList]
  have hstep : r'.step (some '\n')
      = .ok { state := .eatCrnl, field := [], fields := r.fields ++ [value] } := by
    rw [← hsave]
    unfold Reader.step
    rcases h.state with heq | heq | heq
    . rw [heq, hstate]
      rfl
    . rw [heq]
      rfl
    . rw [heq]
      rfl
  rw [records, hstep]
  rfl

theorem records_of_startField {values : List String} (h : WrittenRecord values text)
    (fields : List String) (n : Nat) (mid : Bool) (rest : List Char)
    : (¬(∀ value ∈ values, value.length ≤ fieldLimit)
          ∧ ∃ e, records { state := .startField, fields } n mid (text ++ rest) = ([], some e))
        ∨ ∃ n', records { state := .startField, fields } n mid (text ++ rest)
          = (⟨fields ++ values, n'⟩ :: (records {} n' false rest).1, (records {} n' false rest).2) := by
  induction h generalizing fields n mid with
  | @last value text hvalue =>
    obtain ⟨r', hleads, hended⟩ := leads_written hvalue (r := { state := .startField, fields }) (.inr rfl) rfl
    rw [List.append_assoc]
    rcases hleads n mid (['\n'] ++ rest) with ⟨hfits, he⟩ | ⟨n', mid', heq⟩
    . exact .inl ⟨by simpa using hfits, he⟩
    . rw [heq]
      exact .inr ⟨n' + 1, hended.records_newline rfl n' mid' rest⟩
  | @cons value text values textRest hvalue _ ih =>
    obtain ⟨r', hleads, hended⟩ := leads_written hvalue (r := { state := .startField, fields }) (.inr rfl) rfl
    have hcomma := hleads.trans (leads_step (by decide) (hended.step_comma (.inr rfl)))
    have htext : text ++ ',' :: textRest ++ rest = text ++ [','] ++ (textRest ++ rest) := by simp
    rw [htext]
    rcases hcomma n mid (textRest ++ rest) with ⟨hfits, he⟩ | ⟨n', mid', heq⟩
    . refine .inl ⟨?_, he⟩
      intro hall
      exact hfits ⟨hall value List.mem_cons_self, trivial⟩
    . rw [heq]
      rcases ih (fields ++ [value]) n' mid' with ⟨hfits, he⟩ | ⟨n'', hrest⟩
      . refine .inl ⟨?_, he⟩
        intro hall
        exact hfits (fun value hvalue => hall value (List.mem_cons_of_mem _ hvalue))
      . refine .inr ⟨n'', ?_⟩
        rw [List.append_assoc] at hrest
        exact hrest

theorem records_of_writtenRecord {values : List String} (h : WrittenRecord values text)
    (htwo : 2 ≤ values.length) (n : Nat) (mid : Bool) (rest : List Char)
    : (¬(∀ value ∈ values, value.length ≤ fieldLimit)
          ∧ ∃ e, records {} n mid (text ++ rest) = ([], some e))
        ∨ ∃ n', records {} n mid (text ++ rest)
          = (⟨values, n'⟩ :: (records {} n' false rest).1, (records {} n' false rest).2) := by
  cases h with
  | last hvalue => simp at htwo
  | @cons value text values textRest hvalue hvalues =>
    obtain ⟨r', hleads, hended⟩ := leads_written hvalue (r := {}) (.inl rfl) rfl
    have hcomma := hleads.trans (leads_step (by decide) (hended.step_comma (.inl rfl)))
    have htext : text ++ ',' :: textRest ++ rest = text ++ [','] ++ (textRest ++ rest) := by simp
    rw [htext]
    rcases hcomma n mid (textRest ++ rest) with ⟨hfits, he⟩ | ⟨n', mid', heq⟩
    . refine .inl ⟨?_, he⟩
      intro hall
      exact hfits ⟨hall value List.mem_cons_self, trivial⟩
    . rw [heq]
      rcases records_of_startField hvalues [value] n' mid' rest with ⟨hfits, he⟩ | hok
      . refine .inl ⟨?_, he⟩
        intro hall
        exact hfits (fun value hvalue => hall value (List.mem_cons_of_mem _ hvalue))
      . exact .inr hok

theorem records_of_writtenText {written : List (List String)} (h : WrittenText written text)
    (htwo : ∀ values ∈ written, 2 ≤ values.length) (n : Nat)
    : (¬(∀ values ∈ written, ∀ value ∈ values, value.length ≤ fieldLimit)
          ∧ ∃ e, (records {} n false text).2 = some e)
        ∨ (records {} n false text).2 = none
          ∧ (records {} n false text).1.map Record.fields = written := by
  induction h generalizing n with
  | nil => exact .inr ⟨rfl, rfl⟩
  | @cons values text written rest hvalues _ ih =>
    rcases records_of_writtenRecord hvalues (htwo values List.mem_cons_self) n false rest with
      ⟨hfits, e, he⟩ | ⟨n', hrecord⟩
    . refine .inl ⟨?_, e, ?_⟩
      . intro hall
        exact hfits (hall values List.mem_cons_self)
      . rw [he]
    . rw [hrecord]
      rcases ih (fun values hvalues => htwo values (List.mem_cons_of_mem _ hvalues)) n' with
        ⟨hfits, he⟩ | ⟨hnone, hwritten⟩
      . refine .inl ⟨?_, he⟩
        intro hall
        exact hfits (fun values hvalues => hall values (List.mem_cons_of_mem _ hvalues))
      . refine .inr ⟨hnone, ?_⟩
        rw [List.map_cons, hwritten]

end reads

end Csv
