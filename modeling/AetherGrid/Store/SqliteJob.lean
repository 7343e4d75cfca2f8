import AetherGrid.Civil.Datetime
import AetherGrid.Civil.Timedelta
import AetherGrid.Prog.Except
import AetherGrid.Store.Basic

/-!
This module contains the job repositories on SQLite and in memory, and the proof that both list the recent
jobs alike.
-/

namespace AetherGrid

inductive SqliteError where
  | overflowError (message : String)
  | raised (e : Err)
  deriving DecidableEq

structure SqliteJobRow where
  id : JobId
  cpuCores : Nat
  memoryMib : Nat
  vramMib : Nat
  priority : Int
  constraints : List (String × String)
  maxRetries : Nat
  retryCount : Nat
  status : JobStatus
  assignedNodeId : Option NodeId
  submittedAt : String
  startedAt : Option String
  completedAt : Option String
  command : Option (List String)
  exitCode : Option Int
  cancellationRequestedAt : Option String
  executionTimeoutSeconds : Option ℚ
  tenantId : TenantId
  deriving DecidableEq

abbrev SqliteJobs := Table JobId SqliteJobRow SqliteJobRow.id

namespace SqliteJobRepository

def bindInteger (n : Int) : Except SqliteError Unit :=
  if -2 ^ 63 ≤ n ∧ n < 2 ^ 63 then
    .ok ()
  else
    .error (.overflowError "Python int too large to convert to SQLite INTEGER")

-- every `datetime` lies in the years 1 to 9999
def isoformat (t : Time) : Except SqliteError String :=
  match Datetime.ofTimestamp t with
  | none => .error (.overflowError "date value out of range")
  | some d => .ok d.isoformat

def toRow (job : Job) : Except SqliteError SqliteJobRow := do
  let submittedAt ← isoformat job.submittedAt
  let startedAt ← job.startedAt.mapM isoformat
  let completedAt ← job.completedAt.mapM isoformat
  let cancellationRequestedAt ← job.cancellationRequestedAt.mapM isoformat
  bindInteger job.resources.cpuCores
  bindInteger job.resources.memoryMib
  bindInteger job.resources.vramMib
  bindInteger job.priority
  bindInteger job.maxRetries
  bindInteger job.retryCount
  let _ ← job.exitCode.mapM bindInteger
  return {
    id := job.id
    cpuCores := job.resources.cpuCores
    memoryMib := job.resources.memoryMib
    vramMib := job.resources.vramMib
    priority := job.priority
    constraints := job.constraints
    maxRetries := job.maxRetries
    retryCount := job.retryCount
    status := job.status
    assignedNodeId := job.assignedNodeId
    submittedAt, startedAt, completedAt
    command := job.command
    exitCode := job.exitCode
    cancellationRequestedAt
    executionTimeoutSeconds := some (Timedelta.totalSeconds job.executionTimeout)
    tenantId := job.tenantId }

def save (jobs : SqliteJobs) (job : Job) : Except SqliteError SqliteJobs := do
  let row ← toRow job
  if (jobs.get? job.id).any (·.tenantId ≠ job.tenantId) then
    throw (.raised (.jobTenantConflict job.id))
  else
    return jobs.upsert row

def fromisoformat (text : String) : Except SqliteError Time :=
  match Datetime.fromisoformat text with
  | none => .error (.raised (.valueError ("Invalid isoformat string: '" ++ text ++ "'")))
  | some d => .ok d.timestamp

def timedelta (seconds : ℚ) : Except SqliteError Duration :=
  match Timedelta.ofSeconds seconds with
  | .ok duration => .ok duration
  | .error message => .error (.overflowError message)

def rowToJob (row : SqliteJobRow) : Except SqliteError Job := do
  let submittedAt ← fromisoformat row.submittedAt
  let startedAt ← row.startedAt.mapM fromisoformat
  let completedAt ← row.completedAt.mapM fromisoformat
  let cancellationRequestedAt ← row.cancellationRequestedAt.mapM fromisoformat
  let executionTimeout ←
    match row.executionTimeoutSeconds with
    | none => pure defaultExecutionTimeout
    | some seconds => timedelta seconds
  if hcpu : 0 < row.cpuCores then
    if hmemory : 0 < row.memoryMib then
      return {
        id := row.id
        resources := ⟨row.cpuCores, row.memoryMib, row.vramMib⟩
        tenantId := row.tenantId
        priority := row.priority
        constraints := row.constraints
        maxRetries := row.maxRetries
        retryCount := row.retryCount
        executionTimeout
        status := row.status
        assignedNodeId := row.assignedNodeId
        submittedAt, startedAt, completedAt, cancellationRequestedAt
        command := row.command
        exitCode := row.exitCode
        hcpu, hmemory }
    else
      throw (.raised (.valueError "Job must request a positive amount of memory."))
  else
    throw (.raised (.valueError "Job must request at least one CPU core."))

def listRecent (order : RowOrder SqliteJobRow) (jobs : SqliteJobs) (limit : Int) (tenantId : TenantId)
    : Except SqliteError (List Job) := do
  bindInteger limit
  let rows := (order.sort (jobs.rows.filter (·.tenantId = tenantId))).insertionSort
    (fun a b => b.submittedAt ≤ a.submittedAt)
  let rows := if limit < 0 then rows else rows.take limit.toNat
  rows.mapM rowToJob

end SqliteJobRepository

abbrev InMemoryJobs := Table JobId Job Job.id

namespace InMemoryJobRepository

def save (jobs : InMemoryJobs) (job : Job) : Except Err InMemoryJobs :=
  if (jobs.get? job.id).any (·.tenantId ≠ job.tenantId) then
    .error (.jobTenantConflict job.id)
  else
    .ok (jobs.upsert job)

-- a slice up to a negative limit leaves that many out at the end
def listRecent (jobs : InMemoryJobs) (limit : Int) (tenantId : TenantId) : List Job :=
  let recent := (jobs.rows.filter (·.tenantId = tenantId)).insertionSort
    (fun a b => b.submittedAt ≤ a.submittedAt)
  recent.take (if limit < 0 then limit + recent.length else limit).toNat

end InMemoryJobRepository

namespace SqliteJobRepository

theorem isoformat_eq_ok {t : Time} {text : String} (h : isoformat t = .ok text)
    : ∃ d : Datetime, d.timestamp = t ∧ text = d.isoformat := by
  unfold isoformat at h
  split at h
  . contradiction
  . next d hd =>
    injection h with h
    exact ⟨d, Datetime.timestamp_of_ofTimestamp hd, h.symm⟩

theorem fromisoformat_isoformat {t : Time} {text : String} (h : isoformat t = .ok text)
    : fromisoformat text = .ok t := by
  obtain ⟨d, hd, htext⟩ := isoformat_eq_ok h
  unfold fromisoformat
  rw [htext, Datetime.fromisoformat_isoformat, ← hd]

theorem isoformat_lt_iff {t t' : Time} {text text' : String} (h : isoformat t = .ok text)
    (h' : isoformat t' = .ok text') : text < text' ↔ t < t' := by
  obtain ⟨d, hd, htext⟩ := isoformat_eq_ok h
  obtain ⟨d', hd', htext'⟩ := isoformat_eq_ok h'
  rw [htext, htext', Datetime.isoformat_lt_iff, hd, hd']

theorem mapM_fromisoformat {t : Option Time} {text : Option String} (h : t.mapM isoformat = .ok text)
    : text.mapM fromisoformat = .ok t := by
  cases t with
  | none =>
    injection h with h
    subst h
    rfl
  | some t =>
    cases htext : isoformat t with
    | error e => simp [Option.mapM, htext] at h
    | ok text' =>
      simp only [Option.mapM, htext] at h
      injection h with h
      subst h
      simp only [Option.mapM, fromisoformat_isoformat htext]
      rfl

structure Holds (row : SqliteJobRow) (job : Job) : Prop where
  id : row.id = job.id
  tenantId : row.tenantId = job.tenantId
  submittedAt : isoformat job.submittedAt = .ok row.submittedAt
  entity : rowToJob row = .ok job

theorem timedelta_totalSeconds {t : Duration} (h : |t| < seconds (2 ^ 33))
    : timedelta (Timedelta.totalSeconds t) = .ok t := by
  unfold timedelta
  rw [Timedelta.ofSeconds_totalSeconds h]

theorem holds_of_toRow {job : Job} {row : SqliteJobRow} (htimeout : |job.executionTimeout| < seconds (2 ^ 33))
    (h : toRow job = .ok row) : Holds row job := by
  unfold toRow at h
  obtain ⟨submittedAt, hsubmitted, h⟩ := Except.exists_of_bind_eq_ok h
  obtain ⟨startedAt, hstarted, h⟩ := Except.exists_of_bind_eq_ok h
  obtain ⟨completedAt, hcompleted, h⟩ := Except.exists_of_bind_eq_ok h
  obtain ⟨requestedAt, hrequested, h⟩ := Except.exists_of_bind_eq_ok h
  obtain ⟨_, _, h⟩ := Except.exists_of_bind_eq_ok h
  obtain ⟨_, _, h⟩ := Except.exists_of_bind_eq_ok h
  obtain ⟨_, _, h⟩ := Except.exists_of_bind_eq_ok h
  obtain ⟨_, _, h⟩ := Except.exists_of_bind_eq_ok h
  obtain ⟨_, _, h⟩ := Except.exists_of_bind_eq_ok h
  obtain ⟨_, _, h⟩ := Except.exists_of_bind_eq_ok h
  obtain ⟨_, _, h⟩ := Except.exists_of_bind_eq_ok h
  injection h with h
  subst h
  refine ⟨rfl, rfl, hsubmitted, ?_⟩
  unfold rowToJob
  simp only [fromisoformat_isoformat hsubmitted, mapM_fromisoformat hstarted,
    mapM_fromisoformat hcompleted, mapM_fromisoformat hrequested, timedelta_totalSeconds htimeout, bind,
    Except.bind, job.hcpu, job.hmemory, dite_true]
  rfl

theorem Holds.lt_iff {row row' : SqliteJobRow} {job job' : Job} (h : Holds row job)
    (h' : Holds row' job') : row.submittedAt < row'.submittedAt ↔ job.submittedAt < job'.submittedAt :=
  isoformat_lt_iff h.submittedAt h'.submittedAt

theorem Holds.le_iff {row row' : SqliteJobRow} {job job' : Job} (h : Holds row job)
    (h' : Holds row' job') : row.submittedAt ≤ row'.submittedAt ↔ job.submittedAt ≤ job'.submittedAt := by
  rw [← not_lt, ← not_lt, h'.lt_iff h]

open List (Forall₂)

theorem get?_holds {rows : List SqliteJobRow} {jobs : List Job} (h : Forall₂ Holds rows jobs) (id : JobId)
    : Option.Rel Holds (rows.find? (·.id = id)) (jobs.find? (·.id = id)) := by
  induction h with
  | nil => exact .none
  | cons hrow _ ih =>
    rw [List.find?_cons, List.find?_cons, hrow.id]
    split
    . exact .some hrow
    . exact ih

theorem exists_holds {rows : List SqliteJobRow} {jobs : List Job} (h : Forall₂ Holds rows jobs) {job : Job}
    (hjob : job ∈ jobs) : ∃ row ∈ rows, Holds row job := by
  induction h with
  | nil => contradiction
  | cons hhead _ ih =>
    rw [List.mem_cons] at hjob
    rcases hjob with rfl | hjob
    . exact ⟨_, List.mem_cons_self, hhead⟩
    . obtain ⟨row, hrow, hholds⟩ := ih hjob
      exact ⟨row, List.mem_cons_of_mem _ hrow, hholds⟩

theorem upsertRows_holds {rows : List SqliteJobRow} {jobs : List Job} (h : Forall₂ Holds rows jobs)
    {row : SqliteJobRow} {job : Job} (hrow : Holds row job)
    : Forall₂ Holds (Table.upsertRows SqliteJobRow.id row rows) (Table.upsertRows Job.id job jobs) := by
  induction h with
  | nil => exact .cons hrow .nil
  | cons hhead htail ih =>
    unfold Table.upsertRows
    rw [hhead.id, hrow.id]
    split
    . exact .cons hrow htail
    . exact .cons hhead ih

theorem save_holds {stored stored' : SqliteJobs} {jobs : InMemoryJobs} {job : Job}
    (h : Forall₂ Holds stored.rows jobs.rows) (htimeout : |job.executionTimeout| < seconds (2 ^ 33))
    (hsave : save stored job = .ok stored')
    : ∃ jobs', InMemoryJobRepository.save jobs job = .ok jobs' ∧ Forall₂ Holds stored'.rows jobs'.rows := by
  obtain ⟨row, hrow, hsave⟩ := Except.exists_of_bind_eq_ok hsave
  have hholds := holds_of_toRow htimeout hrow
  have hget : Option.Rel Holds (stored.get? job.id) (jobs.get? job.id) := get?_holds h job.id
  split at hsave
  . contradiction
  . next hown =>
    injection hsave with hsave
    subst hsave
    refine ⟨jobs.upsert job, ?_, upsertRows_holds h hholds⟩
    unfold InMemoryJobRepository.save
    rw [if_neg]
    generalize stored.get? job.id = found at *
    generalize jobs.get? job.id = found' at *
    cases hget with
    | none => simp
    | some hsame =>
      simp only [Option.any_some, decide_eq_true_eq] at hown ⊢
      rw [← hsame.tenantId]
      exact hown

theorem saves_holds {saves : List Job} {stored stored' : SqliteJobs} {jobs : InMemoryJobs}
    (h : Forall₂ Holds stored.rows jobs.rows)
    (htimeouts : ∀ job ∈ saves, |job.executionTimeout| < seconds (2 ^ 33))
    (hsaves : saves.foldlM save stored = .ok stored')
    : ∃ jobs', saves.foldlM InMemoryJobRepository.save jobs = .ok jobs'
        ∧ Forall₂ Holds stored'.rows jobs'.rows := by
  induction saves generalizing stored jobs with
  | nil =>
    injection hsaves with hsaves
    subst hsaves
    exact ⟨jobs, rfl, h⟩
  | cons job saves ih =>
    rw [List.foldlM_cons] at hsaves
    obtain ⟨stored1, hsave, hrest⟩ := Except.exists_of_bind_eq_ok hsaves
    rw [List.forall_mem_cons] at htimeouts
    obtain ⟨jobs1, hsave', h1⟩ := save_holds h htimeouts.left hsave
    obtain ⟨jobs', hrest', h'⟩ := ih h1 htimeouts.right hrest
    refine ⟨jobs', ?_, h'⟩
    rw [List.foldlM_cons, hsave']
    exact hrest'

theorem pairwise_of_holds {rows : List SqliteJobRow} {jobs : List Job} (h : Forall₂ Holds rows jobs)
    (hrows : rows.Pairwise (fun a b => b.submittedAt ≤ a.submittedAt))
    : jobs.Pairwise (fun a b => b.submittedAt ≤ a.submittedAt) := by
  induction h with
  | nil => exact .nil
  | cons hhead htail ih =>
    rw [List.pairwise_cons] at hrows ⊢
    refine ⟨?_, ih hrows.right⟩
    intro job hjob
    obtain ⟨row, hrow, hholds⟩ := exists_holds htail hjob
    exact (hholds.le_iff hhead).mp (hrows.left row hrow)

theorem mapM_rowToJob {rows : List SqliteJobRow} {jobs : List Job} (h : Forall₂ Holds rows jobs)
    : rows.mapM rowToJob = .ok jobs := by
  induction h with
  | nil => rfl
  | cons hhead _ ih =>
    rw [List.mapM_cons, hhead.entity, ih]
    rfl

theorem total_recent {α β : Type} [LinearOrder β] (key : α → β)
    : Std.Total (fun a b : α => key b ≤ key a) :=
  ⟨fun a b => le_total (key b) (key a)⟩

theorem trans_recent {α β : Type} [LinearOrder β] (key : α → β)
    : IsTrans α (fun a b : α => key b ≤ key a) :=
  ⟨fun _ _ _ hab hbc => hbc.trans hab⟩

theorem listRecent_holds {stored : SqliteJobs} {jobs : InMemoryJobs}
    (h : Forall₂ Holds stored.rows jobs.rows) (hdistinct : (jobs.rows.map Job.submittedAt).Nodup)
    (order : RowOrder SqliteJobRow) (tenantId : TenantId) {limit : Int} (hlimit : 0 ≤ limit)
    (hinteger : limit < 2 ^ 63)
    : listRecent order stored limit tenantId = .ok (InMemoryJobRepository.listRecent jobs limit tenantId) := by
  have := total_recent SqliteJobRow.submittedAt
  have := trans_recent SqliteJobRow.submittedAt
  have := total_recent Job.submittedAt
  have := trans_recent Job.submittedAt
  have hfilter : Forall₂ Holds (stored.rows.filter (·.tenantId = tenantId))
      (jobs.rows.filter (·.tenantId = tenantId)) := by
    apply List.rel_filter _ h
    intro row job hholds
    simp only [decide_eq_true_eq]
    rw [hholds.tenantId]
  generalize hrows : (order.sort (stored.rows.filter (·.tenantId = tenantId))).insertionSort
    (fun a b => b.submittedAt ≤ a.submittedAt) = rows
  have hperm : rows.Perm (stored.rows.filter (·.tenantId = tenantId)) := by
    rw [← hrows]
    exact (List.perm_insertionSort _ _).trans (order.hperm _)
  obtain ⟨recent, hrecent, hrecentPerm⟩ := List.perm_comp_forall₂ hperm hfilter
  have hsorted : rows.Pairwise (fun a b => b.submittedAt ≤ a.submittedAt) := by
    rw [← hrows]
    exact List.pairwise_insertionSort _ _
  have heq : recent = (jobs.rows.filter (·.tenantId = tenantId)).insertionSort
      (fun a b => b.submittedAt ≤ a.submittedAt) := by
    apply List.Perm.eq_of_pairwise _ (pairwise_of_holds hrecent hsorted) (List.pairwise_insertionSort _ _)
    . exact hrecentPerm.trans (List.perm_insertionSort _ _).symm
    . intro a b ha hb hab hba
      have ha' := List.mem_of_mem_filter (hrecentPerm.subset ha)
      have hb' := List.mem_of_mem_filter ((List.perm_insertionSort _ _).subset hb)
      exact List.inj_on_of_nodup_map hdistinct ha' hb' (le_antisymm hba hab)
  have hbind : bindInteger limit = .ok () := if_pos ⟨by omega, hinteger⟩
  have hnot : ¬limit < 0 := by omega
  unfold listRecent InMemoryJobRepository.listRecent
  dsimp only
  rw [hbind, hrows, if_neg hnot, if_neg hnot, ← heq]
  exact mapM_rowToJob (List.forall₂_take _ hrecent)

end SqliteJobRepository

theorem recency_order_agrees {saves : List Job} {stored : SqliteJobs}
    (htimeouts : ∀ job ∈ saves, |job.executionTimeout| < seconds (2 ^ 33))
    (hsaves : saves.foldlM SqliteJobRepository.save .empty = .ok stored)
    : ∃ jobs, saves.foldlM InMemoryJobRepository.save .empty = .ok jobs
        ∧ (∀ row ∈ stored.rows, ∀ row' ∈ stored.rows, ∀ job ∈ jobs.rows, ∀ job' ∈ jobs.rows,
          row.id = job.id → row'.id = job'.id →
          (row.submittedAt < row'.submittedAt ↔ job.submittedAt < job'.submittedAt))
        ∧ ((jobs.rows.map Job.submittedAt).Nodup → ∀ order tenantId limit, 0 ≤ limit → limit < 2 ^ 63 →
          SqliteJobRepository.listRecent order stored limit tenantId
            = .ok (InMemoryJobRepository.listRecent jobs limit tenantId)) := by
  obtain ⟨jobs, hjobs, h⟩ := @SqliteJobRepository.saves_holds saves .empty _ .empty .nil htimeouts hsaves
  have hholds : ∀ row ∈ stored.rows, ∀ job ∈ jobs.rows, row.id = job.id →
      SqliteJobRepository.Holds row job := by
    intro row hrow job hjob hid
    obtain ⟨row', hrow', hholds⟩ := SqliteJobRepository.exists_holds h hjob
    rw [stored.eq_of_key_eq hrow hrow' (hid.trans hholds.id.symm)]
    exact hholds
  refine ⟨jobs, hjobs, ?_, ?_⟩
  . intro row hrow row' hrow' job hjob job' hjob' hid hid'
    exact (hholds row hrow job hjob hid).lt_iff (hholds row' hrow' job' hjob' hid')
  . intro hdistinct order tenantId limit hlimit hinteger
    exact SqliteJobRepository.listRecent_holds h hdistinct order tenantId hlimit hinteger

def jobAt (id : Nat) (submittedAt : Time) : Job :=
  { id := ⟨id⟩
    resources := ⟨1, 1, 0⟩
    tenantId := ⟨0⟩
    submittedAt
    hcpu := Nat.one_pos
    hmemory := Nat.one_pos }

theorem exists_stored {saves : List Job}
    (h : (saves.foldlM SqliteJobRepository.save .empty).isOk = true)
    : ∃ stored, saves.foldlM SqliteJobRepository.save .empty = .ok stored := by
  cases hsaves : saves.foldlM SqliteJobRepository.save .empty with
  | error e =>
    rw [hsaves] at h
    contradiction
  | ok stored => exact ⟨stored, rfl⟩

theorem recency_order_agrees_microsecond
    : ∃ stored, [jobAt 1 1000000, jobAt 2 1000001].foldlM SqliteJobRepository.save .empty = .ok stored
        ∧ SqliteJobRepository.listRecent (.stored _) stored 1 ⟨0⟩ = .ok [jobAt 2 1000001] := by
  obtain ⟨stored, hstored⟩ := @exists_stored [jobAt 1 1000000, jobAt 2 1000001] (by decide +kernel)
  obtain ⟨jobs, hjobs, _, hlist⟩ := recency_order_agrees (by decide +kernel) hstored
  injection hjobs with hjobs
  subst hjobs
  refine ⟨stored, hstored, ?_⟩
  rw [hlist (by decide) (.stored _) ⟨0⟩ 1 (by decide) (by decide)]
  decide +kernel

theorem wide_ranges_disagree
    : (∃ stored jobs, [jobAt 1 1000000].foldlM SqliteJobRepository.save .empty = .ok stored
        ∧ [jobAt 1 1000000].foldlM InMemoryJobRepository.save .empty = .ok jobs
        ∧ InMemoryJobRepository.listRecent jobs (2 ^ 63) ⟨0⟩ = [jobAt 1 1000000]
        ∧ SqliteJobRepository.listRecent (.stored _) stored (2 ^ 63) ⟨0⟩
          = .error (.overflowError "Python int too large to convert to SQLite INTEGER"))
      ∧ let job := { jobAt 1 1000000 with executionTimeout := seconds (2 ^ 33) + 1 }
        ∃ stored jobs, [job].foldlM SqliteJobRepository.save .empty = .ok stored
          ∧ [job].foldlM InMemoryJobRepository.save .empty = .ok jobs
          ∧ InMemoryJobRepository.listRecent jobs 1 ⟨0⟩ = [job]
          ∧ SqliteJobRepository.listRecent (.stored _) stored 1 ⟨0⟩
            = .ok [{ job with executionTimeout := seconds (2 ^ 33) + 2 }] := by
  constructor
  . obtain ⟨stored, hstored⟩ := @exists_stored [jobAt 1 1000000] (by decide +kernel)
    refine ⟨stored, _, hstored, rfl, ?_, ?_⟩
    . decide +kernel
    . unfold SqliteJobRepository.listRecent SqliteJobRepository.bindInteger
      rw [if_neg (by decide)]
      rfl
  . intro job
    obtain ⟨stored, hstored⟩ := @exists_stored [job] (by decide +kernel)
    refine ⟨stored, _, hstored, rfl, by decide +kernel, ?_⟩
    have hread : ([job].foldlM SqliteJobRepository.save .empty).bind
          (fun stored => SqliteJobRepository.listRecent (.stored _) stored 1 ⟨0⟩)
        = .ok [{ job with executionTimeout := seconds (2 ^ 33) + 2 }] := by
      decide +kernel
    rw [hstored] at hread
    exact hread

end AetherGrid
