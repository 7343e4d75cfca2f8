import AetherGrid.Store.Schema

/-!
This module contains migration 0005, which makes the tenant of workers and leases required.
-/

namespace AetherGrid

namespace RequireTenant

structure OldWorker where
  id : WorkerId
  nodeId : NodeId
  tenantId : Option TenantId
  status : WorkerStatus
  managedBy : WorkerManagement
  runningJobId : Option JobId
  lastSeenAt : Time
  deriving DecidableEq

structure OldLease where
  id : LeaseId
  workerId : WorkerId
  jobId : JobId
  tenantId : Option TenantId
  acquiredAt : Time
  expiresAt : Time
  deriving DecidableEq

structure OldDB where
  tenants : List TenantId
  nodes : Table NodeId Node Node.id
  jobs : Table JobId Job Job.id
  workers : Table WorkerId OldWorker OldWorker.id
  leases : Table LeaseId OldLease OldLease.id

def sameTenant {κ : Type} (column : Option κ) (tenant : Option TenantId) (target : κ → TenantId → Bool)
    : Bool :=
  column.all (fun k => tenant.all (target k))

namespace OldDB

variable (db : OldDB)

def nodeOf (nodeId : NodeId) (tenant : TenantId) : Bool :=
  (db.nodes.get? nodeId).any (·.tenantId = tenant)

def jobOf (jobId : JobId) (tenant : TenantId) : Bool :=
  (db.jobs.get? jobId).any (·.tenantId = tenant)

def workerOf (workerId : WorkerId) (tenant : TenantId) : Bool :=
  (db.workers.get? workerId).any (·.tenantId = some tenant)

end OldDB

structure Constraints (db : OldDB) : Prop where
  nodeTenant : ∀ node ∈ db.nodes.rows, node.tenantId ∈ db.tenants
  jobTenant : ∀ job ∈ db.jobs.rows, job.tenantId ∈ db.tenants
  workerTenant : ∀ row ∈ db.workers.rows, row.tenantId.all (· ∈ db.tenants)
  leaseTenant : ∀ lease ∈ db.leases.rows, lease.tenantId.all (· ∈ db.tenants)
  jobNodeSameTenant : ∀ job ∈ db.jobs.rows, sameTenant job.assignedNodeId (some job.tenantId) db.nodeOf
  workerNode : ∀ row ∈ db.workers.rows, (db.nodes.get? row.nodeId).isSome
  workerJob : ∀ row ∈ db.workers.rows, row.runningJobId.all (fun jobId => (db.jobs.get? jobId).isSome)
  leaseWorker : ∀ lease ∈ db.leases.rows, (db.workers.get? lease.workerId).isSome
  leaseJob : ∀ lease ∈ db.leases.rows, (db.jobs.get? lease.jobId).isSome
  workerNodeSameTenant : ∀ row ∈ db.workers.rows, sameTenant (some row.nodeId) row.tenantId db.nodeOf
  workerJobSameTenant : ∀ row ∈ db.workers.rows, sameTenant row.runningJobId row.tenantId db.jobOf
  leaseWorkerSameTenant : ∀ lease ∈ db.leases.rows,
    sameTenant (some lease.workerId) lease.tenantId db.workerOf
  leaseJobSameTenant : ∀ lease ∈ db.leases.rows, sameTenant (some lease.jobId) lease.tenantId db.jobOf
  uniqueWorker : (db.leases.rows.map (·.workerId)).Nodup
  uniqueJob : (db.leases.rows.map (·.jobId)).Nodup

theorem constraints_iff (db : OldDB)
    : Constraints db
        ↔
      (∀ node ∈ db.nodes.rows, node.tenantId ∈ db.tenants)
        ∧ (∀ job ∈ db.jobs.rows, job.tenantId ∈ db.tenants)
        ∧ (∀ row ∈ db.workers.rows, row.tenantId.all (· ∈ db.tenants))
        ∧ (∀ lease ∈ db.leases.rows, lease.tenantId.all (· ∈ db.tenants))
        ∧ (∀ job ∈ db.jobs.rows, sameTenant job.assignedNodeId (some job.tenantId) db.nodeOf)
        ∧ (∀ row ∈ db.workers.rows, (db.nodes.get? row.nodeId).isSome)
        ∧ (∀ row ∈ db.workers.rows,
          row.runningJobId.all (fun jobId => (db.jobs.get? jobId).isSome))
        ∧ (∀ lease ∈ db.leases.rows, (db.workers.get? lease.workerId).isSome)
        ∧ (∀ lease ∈ db.leases.rows, (db.jobs.get? lease.jobId).isSome)
        ∧ (∀ row ∈ db.workers.rows, sameTenant (some row.nodeId) row.tenantId db.nodeOf)
        ∧ (∀ row ∈ db.workers.rows, sameTenant row.runningJobId row.tenantId db.jobOf)
        ∧ (∀ lease ∈ db.leases.rows, sameTenant (some lease.workerId) lease.tenantId db.workerOf)
        ∧ (∀ lease ∈ db.leases.rows, sameTenant (some lease.jobId) lease.tenantId db.jobOf)
        ∧ (db.leases.rows.map (·.workerId)).Nodup
        ∧ (db.leases.rows.map (·.jobId)).Nodup := by
  constructor
  . intro h
    exact ⟨h.1, h.2, h.3, h.4, h.5, h.6, h.7, h.8, h.9, h.10, h.11, h.12, h.13, h.14, h.15⟩
  . intro ⟨h1, h2, h3, h4, h5, h6, h7, h8, h9, h10, h11, h12, h13, h14, h15⟩
    exact ⟨h1, h2, h3, h4, h5, h6, h7, h8, h9, h10, h11, h12, h13, h14, h15⟩

instance (db : OldDB) : Decidable (Constraints db) :=
  decidable_of_iff _ (constraints_iff db).symm

inductive Abort where
  | raised (message : String)
  | foreignKeyViolation
  | notNullViolation (table : String)
  deriving DecidableEq

def crossesWorker (db : OldDB) (row : OldWorker) : Bool :=
  match db.nodes.get? row.nodeId, row.runningJobId.bind db.jobs.get? with
  | some node, some job => row.tenantId = none ∧ job.tenantId ≠ node.tenantId
  | _, _ => false

def crossesLease (db : OldDB) (lease : OldLease) : Bool :=
  match db.workers.get? lease.workerId, db.jobs.get? lease.jobId with
  | some row, some job =>
    match db.nodes.get? row.nodeId with
    | some node => lease.tenantId = none ∧ job.tenantId ≠ row.tenantId.getD node.tenantId
    | none => false
  | _, _ => false

def checkCrossing (db : OldDB) : Except Abort Unit :=
  let crossingWorkers := db.workers.rows.countP (crossesWorker db)
  let crossingLeases := db.leases.rows.countP (crossesLease db)
  if crossingWorkers > 0 ∨ crossingLeases > 0 then
    .error <| .raised <|
      toString crossingWorkers ++ " workers run a job in another tenant than their node and "
        ++ toString crossingLeases ++ " leases hold a job in another tenant than their worker"
  else
    .ok ()

def backfillWorker (db : OldDB) (row : OldWorker) : OldWorker :=
  match row.tenantId, db.nodes.get? row.nodeId with
  | none, some node => { row with tenantId := some node.tenantId }
  | _, _ => row

theorem backfillWorker_id (db : OldDB) (row : OldWorker) : (backfillWorker db row).id = row.id := by
  unfold backfillWorker
  split <;> rfl

def backfillLease (db : OldDB) (lease : OldLease) : OldLease :=
  match lease.tenantId, db.workers.get? lease.workerId with
  | none, some row => { lease with tenantId := row.tenantId }
  | _, _ => lease

theorem backfillLease_id (db : OldDB) (lease : OldLease) : (backfillLease db lease).id = lease.id := by
  unfold backfillLease
  split <;> rfl

def backfillWorkers (db : OldDB) : OldDB :=
  { db with workers := db.workers.modify (backfillWorker db) (backfillWorker_id db) }

def backfillLeases (db : OldDB) : OldDB :=
  { db with leases := db.leases.modify (backfillLease db) (backfillLease_id db) }

-- the keys are checked at the end of every statement
def statement (db : OldDB) : Except Abort OldDB :=
  if Constraints db then .ok db else .error .foreignKeyViolation

def checkOrphans (db : OldDB) : Except Abort Unit :=
  let orphanWorkers := db.workers.rows.countP (·.tenantId.isNone)
  let orphanLeases := db.leases.rows.countP (·.tenantId.isNone)
  if orphanWorkers > 0 ∨ orphanLeases > 0 then
    .error <| .raised <|
      toString orphanWorkers ++ " workers and " ++ toString orphanLeases
        ++ " leases have no tenant and cannot be given one"
  else
    .ok ()

def setNotNull (db : OldDB) : Except Abort Unit :=
  if db.workers.rows.any (·.tenantId.isNone) then
    .error (.notNullViolation "workers")
  else if db.leases.rows.any (·.tenantId.isNone) then
    .error (.notNullViolation "leases")
  else
    .ok ()

def execute (db : OldDB) : Except Abort OldDB := do
  checkCrossing db
  let db ← statement (backfillWorkers db)
  let db ← statement (backfillLeases db)
  checkOrphans db
  setNotNull db
  return db

def migrate (db : OldDB) : Except Abort Unit × OldDB :=
  match execute db with
  | .ok db' => (.ok (), db')
  | .error e => (.error e, db)

def Crossing (db : OldDB) : Prop :=
  (∃ row ∈ db.workers.rows, row.tenantId = none
      ∧ ∃ node job jobId, db.nodes.get? row.nodeId = some node
        ∧ row.runningJobId = some jobId
        ∧ db.jobs.get? jobId = some job
        ∧ job.tenantId ≠ node.tenantId)
    ∨ ∃ lease ∈ db.leases.rows, lease.tenantId = none
      ∧ ∃ row node job, db.workers.get? lease.workerId = some row
        ∧ db.nodes.get? row.nodeId = some node
        ∧ db.jobs.get? lease.jobId = some job
        ∧ job.tenantId ≠ row.tenantId.getD node.tenantId

structure Migrated (db db' : OldDB) : Prop where
  tenants : db'.tenants = db.tenants
  nodes : db'.nodes = db.nodes
  jobs : db'.jobs = db.jobs
  workerNode : ∀ row ∈ db'.workers.rows, ∃ node,
    db'.nodes.get? row.nodeId = some node ∧ row.tenantId = some node.tenantId
  workerJob : ∀ row ∈ db'.workers.rows, ∀ jobId, row.runningJobId = some jobId →
    ∃ job, db'.jobs.get? jobId = some job ∧ row.tenantId = some job.tenantId
  leaseWorker : ∀ lease ∈ db'.leases.rows, ∃ row,
    db'.workers.get? lease.workerId = some row ∧ lease.tenantId = row.tenantId
  leaseJob : ∀ lease ∈ db'.leases.rows, ∃ job,
    db'.jobs.get? lease.jobId = some job ∧ lease.tenantId = some job.tenantId
  workers : ∀ id, (db'.workers.get? id).map (fun row => { row with tenantId := none })
    = (db.workers.get? id).map (fun row => { row with tenantId := none })
  leases : ∀ id, (db'.leases.get? id).map (fun lease => { lease with tenantId := none })
    = (db.leases.get? id).map (fun lease => { lease with tenantId := none })
  keptWorkers : ∀ row ∈ db.workers.rows, row.tenantId ≠ none → row ∈ db'.workers.rows
  keptLeases : ∀ lease ∈ db.leases.rows, lease.tenantId ≠ none → lease ∈ db'.leases.rows

variable {db : OldDB}

theorem crossing_iff (db : OldDB)
    : Crossing db
        ↔
      (∃ row ∈ db.workers.rows, crossesWorker db row = true)
        ∨ ∃ lease ∈ db.leases.rows, crossesLease db lease = true := by
  unfold Crossing
  apply or_congr
  . apply exists_congr
    intro row
    apply and_congr_right
    intro _
    unfold crossesWorker
    constructor
    . rintro ⟨htenant, node, job, jobId, hnode, hjobId, hjob, hne⟩
      simp [hnode, hjobId, hjob, htenant, hne]
    . intro h
      split at h
      . next node job hnode hjob =>
        rw [Option.bind_eq_some_iff] at hjob
        obtain ⟨jobId, hjobId, hjob⟩ := hjob
        obtain ⟨htenant, hne⟩ := of_decide_eq_true h
        exact ⟨htenant, node, job, jobId, hnode, hjobId, hjob, hne⟩
      . contradiction
  . apply exists_congr
    intro lease
    apply and_congr_right
    intro _
    unfold crossesLease
    constructor
    . rintro ⟨htenant, row, node, job, hrow, hnode, hjob, hne⟩
      simp [hrow, hnode, hjob, htenant, hne]
    . intro h
      split at h
      . next row job hrow hjob =>
        split at h
        . next node hnode =>
          obtain ⟨htenant, hne⟩ := of_decide_eq_true h
          exact ⟨htenant, row, node, job, hrow, hnode, hjob, hne⟩
        . contradiction
      . contradiction

theorem checkCrossing_eq_ok_iff (db : OldDB) : checkCrossing db = .ok () ↔ ¬Crossing db := by
  unfold checkCrossing
  rw [crossing_iff]
  dsimp only
  split
  . next h =>
    apply iff_of_false
    . intro
      contradiction
    . rw [not_not]
      simpa only [gt_iff_lt, List.countP_pos_iff] using h
  . next h =>
    apply iff_of_true rfl
    simpa only [gt_iff_lt, List.countP_pos_iff] using h

section workers

variable {row : OldWorker}

theorem Constraints.tenant_node (h : Constraints db) (hrow : row ∈ db.workers.rows)
    : ∃ node, db.nodes.get? row.nodeId = some node
        ∧ (row.tenantId = none ∨ row.tenantId = some node.tenantId) := by
  have ⟨node, hnode⟩ := Option.isSome_iff_exists.mp (h.workerNode row hrow)
  refine ⟨node, hnode, ?_⟩
  have hsame := h.workerNodeSameTenant row hrow
  cases htenant : row.tenantId with
  | none => exact .inl rfl
  | some tenant =>
    simp only [sameTenant, htenant, Option.all_some, OldDB.nodeOf, hnode, Option.any_some,
      decide_eq_true_eq] at hsame
    rw [hsame]
    exact .inr rfl

theorem backfillWorker_of_some (h : row.tenantId ≠ none) : backfillWorker db row = row := by
  unfold backfillWorker
  split
  . next hnone _ => exact absurd hnone h
  . rfl

theorem backfillWorker_eq (h : Constraints db) (hrow : row ∈ db.workers.rows)
    : ∃ node, db.nodes.get? row.nodeId = some node
        ∧ backfillWorker db row = { row with tenantId := some node.tenantId } := by
  have ⟨node, hnode, hor⟩ := h.tenant_node hrow
  refine ⟨node, hnode, ?_⟩
  unfold backfillWorker
  rw [hnode]
  cases hor with
  | inl hnone => rw [hnone]
  | inr hsome =>
    cases row
    dsimp only at hsome ⊢
    subst hsome
    rfl

theorem mem_backfillWorkers {row' : OldWorker} (h : row' ∈ (backfillWorkers db).workers.rows)
    : ∃ row ∈ db.workers.rows, row' = backfillWorker db row := by
  unfold backfillWorkers Table.modify at h
  have ⟨row, hrow, heq⟩ := List.mem_map.mp h
  exact ⟨row, hrow, heq.symm⟩

theorem get?_backfillWorkers (db : OldDB) (id : WorkerId)
    : (backfillWorkers db).workers.get? id = (db.workers.get? id).map (backfillWorker db) :=
  Table.get?_modify _ _ (backfillWorker_id db) _

theorem backfillWorker_job (h : Constraints db) (hcross : ¬Crossing db) (hrow : row ∈ db.workers.rows)
    {jobId : JobId} (hjobId : row.runningJobId = some jobId)
    : ∃ job, db.jobs.get? jobId = some job ∧ (backfillWorker db row).tenantId = some job.tenantId := by
  have ⟨node, hnode, heq⟩ := backfillWorker_eq h hrow
  have hexists := h.workerJob row hrow
  rw [hjobId, Option.all_some] at hexists
  have ⟨job, hjob⟩ := Option.isSome_iff_exists.mp hexists
  refine ⟨job, hjob, ?_⟩
  rw [heq]
  dsimp only
  cases htenant : row.tenantId with
  | none =>
    by_contra hne
    rw [Option.some.injEq] at hne
    exact hcross (.inl ⟨row, hrow, htenant, node, job, jobId, hnode, hjobId, hjob, Ne.symm hne⟩)
  | some tenant =>
    have hkept : backfillWorker db row = row := backfillWorker_of_some (by simp [htenant])
    have hsame := h.workerJobSameTenant row hrow
    simp only [sameTenant, hjobId, htenant, Option.all_some, OldDB.jobOf, hjob, Option.any_some,
      decide_eq_true_eq] at hsame
    rw [hsame, ← htenant, ← hkept, heq]

theorem Constraints.backfillWorkers (h : Constraints db) (hcross : ¬Crossing db)
    : Constraints (backfillWorkers db) where
  nodeTenant := h.nodeTenant
  jobTenant := h.jobTenant
  workerTenant := by
    intro row' hrow'
    obtain ⟨row, hrow, heq⟩ := mem_backfillWorkers hrow'
    obtain ⟨node, hnode, hfill⟩ := backfillWorker_eq h hrow
    rw [heq, hfill]
    exact decide_eq_true (h.nodeTenant node (Table.mem_of_get? hnode))
  leaseTenant := h.leaseTenant
  jobNodeSameTenant := h.jobNodeSameTenant
  workerNode := by
    intro row' hrow'
    obtain ⟨row, hrow, heq⟩ := mem_backfillWorkers hrow'
    obtain ⟨node, hnode, hfill⟩ := backfillWorker_eq h hrow
    rw [heq, hfill]
    exact h.workerNode row hrow
  workerJob := by
    intro row' hrow'
    obtain ⟨row, hrow, heq⟩ := mem_backfillWorkers hrow'
    obtain ⟨node, hnode, hfill⟩ := backfillWorker_eq h hrow
    rw [heq, hfill]
    exact h.workerJob row hrow
  leaseWorker := by
    intro lease hlease
    rw [get?_backfillWorkers, Option.isSome_map]
    exact h.leaseWorker lease hlease
  leaseJob := h.leaseJob
  workerNodeSameTenant := by
    intro row' hrow'
    obtain ⟨row, hrow, heq⟩ := mem_backfillWorkers hrow'
    obtain ⟨node, hnode, hfill⟩ := backfillWorker_eq h hrow
    rw [heq, hfill]
    simp only [sameTenant, Option.all_some, OldDB.nodeOf, RequireTenant.backfillWorkers, hnode,
      Option.any_some, decide_true]
  workerJobSameTenant := by
    intro row' hrow'
    obtain ⟨row, hrow, heq⟩ := mem_backfillWorkers hrow'
    obtain ⟨node, hnode, hfill⟩ := backfillWorker_eq h hrow
    cases hjobId : row.runningJobId with
    | none =>
      rw [heq, hfill]
      dsimp only
      rw [hjobId]
      rfl
    | some jobId =>
      obtain ⟨job, hjob, htenant⟩ := backfillWorker_job h hcross hrow hjobId
      rw [heq, htenant, hfill]
      simp only [sameTenant, hjobId, Option.all_some, OldDB.jobOf, RequireTenant.backfillWorkers, hjob,
        Option.any_some, decide_true]
  leaseWorkerSameTenant := by
    intro lease hlease
    have hsame := h.leaseWorkerSameTenant lease hlease
    unfold sameTenant OldDB.workerOf at hsame ⊢
    rw [Option.all_some, Option.all_eq_true] at hsame ⊢
    intro tenant htenant
    have hworker := hsame tenant htenant
    rw [Option.any_eq_true] at hworker
    obtain ⟨row, hrow, htenant'⟩ := hworker
    rw [decide_eq_true_eq] at htenant'
    rw [get?_backfillWorkers, hrow, Option.map_some, backfillWorker_of_some (by simp [htenant'])]
    exact decide_eq_true htenant'
  leaseJobSameTenant := h.leaseJobSameTenant
  uniqueWorker := h.uniqueWorker
  uniqueJob := h.uniqueJob

end workers

section leases

variable {lease : OldLease}

theorem lease_job (h : Constraints db) (hcross : ¬Crossing db) (hlease : lease ∈ db.leases.rows)
    : ∃ row job,
        (backfillWorkers db).workers.get? lease.workerId = some row
          ∧ db.jobs.get? lease.jobId = some job
          ∧ row.tenantId = some job.tenantId
          ∧ (lease.tenantId = none ∨ lease.tenantId = row.tenantId) := by
  have ⟨row, hrow⟩ := Option.isSome_iff_exists.mp (h.leaseWorker lease hlease)
  have ⟨job, hjob⟩ := Option.isSome_iff_exists.mp (h.leaseJob lease hlease)
  have ⟨node, hnode, hfill⟩ := backfillWorker_eq h (Table.mem_of_get? hrow)
  refine ⟨backfillWorker db row, job, ?_, hjob, ?_⟩
  . rw [get?_backfillWorkers, hrow, Option.map_some]
  . cases htenant : lease.tenantId with
    | none =>
      refine ⟨?_, .inl rfl⟩
      have howner : row.tenantId.getD node.tenantId = node.tenantId := by
        have ⟨node', hnode', hor⟩ := h.tenant_node (Table.mem_of_get? hrow)
        rw [hnode, Option.some.injEq] at hnode'
        subst hnode'
        cases hor with
        | inl hnone => rw [hnone, Option.getD_none]
        | inr hsome => rw [hsome, Option.getD_some]
      rw [hfill]
      by_contra hne
      rw [Option.some.injEq, ← howner] at hne
      exact hcross (.inr ⟨lease, hlease, htenant, row, node, job, hrow, hnode, hjob, Ne.symm hne⟩)
    | some tenant =>
      have hworker := h.leaseWorkerSameTenant lease hlease
      have hsame := h.leaseJobSameTenant lease hlease
      simp only [sameTenant, htenant, Option.all_some, OldDB.workerOf, hrow, Option.any_some,
        decide_eq_true_eq] at hworker
      simp only [sameTenant, htenant, Option.all_some, OldDB.jobOf, hjob, Option.any_some,
        decide_eq_true_eq] at hsame
      rw [backfillWorker_of_some (by simp [hworker]), hworker, hsame]
      exact ⟨rfl, .inr rfl⟩

theorem backfillLease_of_some (h : lease.tenantId ≠ none) : backfillLease db lease = lease := by
  unfold backfillLease
  split
  . next hnone _ => exact absurd hnone h
  . rfl

theorem backfillLease_eq {row : OldWorker} (hrow : db.workers.get? lease.workerId = some row)
    (hor : lease.tenantId = none ∨ lease.tenantId = row.tenantId)
    : backfillLease db lease = { lease with tenantId := row.tenantId } := by
  cases htenant : lease.tenantId with
  | none =>
    unfold backfillLease
    rw [hrow, htenant]
  | some tenant =>
    have hsome : lease.tenantId ≠ none := by simp [htenant]
    rw [← hor.resolve_left hsome]
    exact backfillLease_of_some hsome

theorem mem_backfillLeases {lease' : OldLease} (h : lease' ∈ (backfillLeases db).leases.rows)
    : ∃ lease ∈ db.leases.rows, lease' = backfillLease db lease := by
  unfold backfillLeases Table.modify at h
  have ⟨lease, hlease, heq⟩ := List.mem_map.mp h
  exact ⟨lease, hlease, heq.symm⟩

theorem get?_backfillLeases (db : OldDB) (id : LeaseId)
    : (backfillLeases db).leases.get? id = (db.leases.get? id).map (backfillLease db) :=
  Table.get?_modify _ _ (backfillLease_id db) _

def backfilled (db : OldDB) : OldDB :=
  backfillLeases (backfillWorkers db)

theorem lease_of_mem_backfilled (h : Constraints db) (hcross : ¬Crossing db) {lease' : OldLease}
    (hlease' : lease' ∈ (backfilled db).leases.rows)
    : ∃ lease row job,
        lease ∈ db.leases.rows
          ∧ (backfilled db).workers.get? lease'.workerId = some row
          ∧ db.jobs.get? lease'.jobId = some job
          ∧ row.tenantId = some job.tenantId
          ∧ lease' = { lease with tenantId := row.tenantId } := by
  have ⟨lease, hlease, heq⟩ := mem_backfillLeases hlease'
  have ⟨row, job, hrow, hjob, htenant, hor⟩ := lease_job h hcross hlease
  rw [backfillLease_eq hrow hor] at heq
  subst heq
  exact ⟨lease, row, job, hlease, hrow, hjob, htenant, rfl⟩

theorem map_backfillLease {α : Type} (db : OldDB) (f : OldLease → α)
    (hf : ∀ lease tenant, f { lease with tenantId := tenant } = f lease)
    : (backfillLeases db).leases.rows.map f = db.leases.rows.map f := by
  unfold backfillLeases Table.modify
  rw [List.map_map]
  apply List.map_congr_left
  intro lease _
  unfold backfillLease Function.comp
  dsimp only
  split
  . apply hf
  . rfl

theorem Constraints.backfilled (h : Constraints db) (hcross : ¬Crossing db)
    : Constraints (backfilled db) := by
  have hworkers := h.backfillWorkers hcross
  refine ⟨hworkers.nodeTenant, hworkers.jobTenant, hworkers.workerTenant, ?_, hworkers.jobNodeSameTenant,
    hworkers.workerNode, hworkers.workerJob, ?_, ?_, hworkers.workerNodeSameTenant,
    hworkers.workerJobSameTenant, ?_, ?_, ?_, ?_⟩
  . intro lease' hlease'
    have ⟨_, row, job, _, _, hjob, htenant, heq⟩ := lease_of_mem_backfilled h hcross hlease'
    rw [heq]
    dsimp only
    rw [htenant, Option.all_some]
    exact decide_eq_true (h.jobTenant job (Table.mem_of_get? hjob))
  . intro lease' hlease'
    have ⟨_, row, job, _, hrow, _⟩ := lease_of_mem_backfilled h hcross hlease'
    rw [hrow]
    rfl
  . intro lease' hlease'
    have ⟨_, row, job, _, _, hjob, _⟩ := lease_of_mem_backfilled h hcross hlease'
    exact Option.isSome_of_mem hjob
  . intro lease' hlease'
    have ⟨_, row, job, _, hrow, _, htenant, heq⟩ := lease_of_mem_backfilled h hcross hlease'
    have : lease'.tenantId = some job.tenantId := by
      rw [heq]
      exact htenant
    unfold sameTenant OldDB.workerOf
    rw [this, Option.all_some, Option.all_some, hrow, Option.any_some]
    exact decide_eq_true htenant
  . intro lease' hlease'
    have ⟨_, row, job, _, _, hjob, htenant, heq⟩ := lease_of_mem_backfilled h hcross hlease'
    have : lease'.tenantId = some job.tenantId := by
      rw [heq]
      exact htenant
    have hget : (RequireTenant.backfilled db).jobs.get? lease'.jobId = some job := hjob
    unfold sameTenant OldDB.jobOf
    rw [this, Option.all_some, Option.all_some, hget, Option.any_some]
    exact decide_eq_true rfl
  . have := map_backfillLease (RequireTenant.backfillWorkers db) (·.workerId) (fun _ _ => rfl)
    exact this ▸ h.uniqueWorker
  . have := map_backfillLease (RequireTenant.backfillWorkers db) (·.jobId) (fun _ _ => rfl)
    exact this ▸ h.uniqueJob

end leases

theorem worker_of_mem_backfilled (h : Constraints db) {row' : OldWorker}
    (hrow' : row' ∈ (backfilled db).workers.rows)
    : ∃ row node,
        row ∈ db.workers.rows
          ∧ row' = backfillWorker db row
          ∧ db.nodes.get? row'.nodeId = some node
          ∧ row' = { row with tenantId := some node.tenantId } := by
  have ⟨row, hrow, heq⟩ := mem_backfillWorkers hrow'
  have ⟨node, hnode, hfill⟩ := backfillWorker_eq h hrow
  refine ⟨row, node, hrow, heq, ?_, heq.trans hfill⟩
  rw [heq, hfill]
  exact hnode

theorem migrated_backfilled (h : Constraints db) (hcross : ¬Crossing db) : Migrated db (backfilled db) := by
  refine ⟨rfl, rfl, rfl, ?_, ?_, ?_, ?_, ?_, ?_, ?_, ?_⟩
  . intro row' hrow'
    have ⟨_, node, _, _, hnode, heq⟩ := worker_of_mem_backfilled h hrow'
    refine ⟨node, hnode, ?_⟩
    rw [heq]
  . intro row' hrow' jobId hjobId
    have ⟨row, _, hrow, hfill, _, heq⟩ := worker_of_mem_backfilled h hrow'
    rw [hfill]
    apply backfillWorker_job h hcross hrow
    rw [heq] at hjobId
    exact hjobId
  . intro lease' hlease'
    have ⟨_, row, _, _, hrow, _, _, heq⟩ := lease_of_mem_backfilled h hcross hlease'
    refine ⟨row, hrow, ?_⟩
    rw [heq]
  . intro lease' hlease'
    have ⟨_, row, job, _, _, hjob, htenant, heq⟩ := lease_of_mem_backfilled h hcross hlease'
    refine ⟨job, hjob, ?_⟩
    rw [heq]
    exact htenant
  . intro id
    have hget : (backfilled db).workers.get? id = (db.workers.get? id).map (backfillWorker db) :=
      get?_backfillWorkers db id
    rw [hget, Option.map_map]
    apply Option.map_congr
    intro row _
    unfold backfillWorker Function.comp
    dsimp only
    split <;> rfl
  . intro id
    have hget : (backfilled db).leases.get? id
        = (db.leases.get? id).map (backfillLease (backfillWorkers db)) :=
      get?_backfillLeases (backfillWorkers db) id
    rw [hget, Option.map_map]
    apply Option.map_congr
    intro lease _
    unfold backfillLease Function.comp
    dsimp only
    split <;> rfl
  . intro row hrow htenant
    have hmem : backfillWorker db row ∈ (backfilled db).workers.rows := List.mem_map_of_mem hrow
    rw [backfillWorker_of_some htenant] at hmem
    exact hmem
  . intro lease hlease htenant
    have hmem : backfillLease (backfillWorkers db) lease ∈ (backfilled db).leases.rows :=
      List.mem_map_of_mem hlease
    rw [backfillLease_of_some htenant] at hmem
    exact hmem

theorem execute_of_not_crossing (h : Constraints db) (hcross : ¬Crossing db)
    : execute db = .ok (backfilled db) := by
  have hworkers : ∀ row ∈ (backfilled db).workers.rows, row.tenantId.isNone = false := by
    intro row hrow
    have ⟨_, _, _, _, _, heq⟩ := worker_of_mem_backfilled h hrow
    rw [heq]
    rfl
  have hleases : ∀ lease ∈ (backfilled db).leases.rows, lease.tenantId.isNone = false := by
    intro lease hlease
    have ⟨_, _, _, _, _, _, htenant, heq⟩ := lease_of_mem_backfilled h hcross hlease
    rw [heq]
    dsimp only
    rw [htenant]
    rfl
  have hcrossing := (checkCrossing_eq_ok_iff db).mpr hcross
  have hfirst : statement (backfillWorkers db) = .ok (backfillWorkers db) :=
    if_pos (h.backfillWorkers hcross)
  have hsecond : statement (backfillLeases (backfillWorkers db)) = .ok (backfilled db) :=
    if_pos (h.backfilled hcross)
  have horphans : checkOrphans (backfilled db) = .ok () := by
    unfold checkOrphans
    dsimp only
    rw [if_neg]
    simp only [gt_iff_lt, List.countP_pos_iff, not_or, not_exists, not_and, Bool.not_eq_true]
    exact ⟨hworkers, hleases⟩
  have hnotNull : setNotNull (backfilled db) = .ok () := by
    unfold setNotNull
    rw [if_neg, if_neg]
    . rw [Bool.not_eq_true, List.any_eq_false]
      intro lease hlease
      rw [hleases lease hlease]
      exact Bool.false_ne_true
    . rw [Bool.not_eq_true, List.any_eq_false]
      intro row hrow
      rw [hworkers row hrow]
      exact Bool.false_ne_true
  unfold execute
  rw [hcrossing]
  simp only [bind, Except.bind, hfirst, hsecond, horphans, hnotNull, pure, Except.pure]

theorem execute_of_crossing (hcross : Crossing db) : ∃ e, execute db = .error e := by
  cases hcheck : checkCrossing db with
  | ok =>
    rw [checkCrossing_eq_ok_iff] at hcheck
    contradiction
  | error e =>
    refine ⟨e, ?_⟩
    unfold execute
    rw [hcheck]
    rfl

theorem migrate_spec (h : Constraints db)
    : match migrate db with
      | (.ok _, db') => ¬Crossing db ∧ Migrated db db'
      | (.error _, db') => Crossing db ∧ db' = db := by
  unfold migrate
  by_cases hcross : Crossing db
  . have ⟨e, he⟩ := execute_of_crossing hcross
    rw [he]
    exact ⟨hcross, rfl⟩
  . rw [execute_of_not_crossing h hcross]
    exact ⟨hcross, migrated_backfilled h hcross⟩

def oldRows : OldDB where
  tenants := [⟨0⟩]
  nodes := Table.empty.upsert
    { id := ⟨0⟩, capacity := ⟨2, 2048, 0⟩, tenantId := ⟨0⟩, name := "swift-falcon-3f2a", lastSeenAt := 0,
      available := ⟨1, 2047, 0⟩, havailable := by decide }
  jobs := Table.empty.upsert
    { id := ⟨1⟩, resources := ⟨1, 1, 0⟩, tenantId := ⟨0⟩, status := .running,
      assignedNodeId := some ⟨0⟩, submittedAt := 0, hcpu := Nat.one_pos, hmemory := Nat.one_pos }
  workers := Table.empty.upsert ⟨⟨2⟩, ⟨0⟩, none, .busy, .agent, some ⟨1⟩, 0⟩
  leases := Table.empty.upsert ⟨⟨3⟩, ⟨2⟩, ⟨1⟩, none, 0, seconds 30⟩

theorem migrate_spec_oldRows
    : Constraints oldRows
        ∧ match migrate oldRows with
          | (.ok _, db') => ¬Crossing oldRows ∧ Migrated oldRows db'
          | (.error _, db') => Crossing oldRows ∧ db' = oldRows := by
  have h : Constraints oldRows := by decide
  exact ⟨h, migrate_spec h⟩

end RequireTenant

end AetherGrid
