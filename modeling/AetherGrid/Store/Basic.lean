import AetherGrid.Table.Basic
import AetherGrid.Domain.Worker

/-!
This module contains the Postgres stores: the tables of the schema with the foreign keys and unique
keys that are in force after the last migration, and the statements of the repositories over them.
-/

namespace AetherGrid

structure WorkerRow where
  id : WorkerId
  nodeId : NodeId
  tenantId : TenantId
  status : WorkerStatus
  managedBy : WorkerManagement
  runningJobId : Option JobId
  lastSeenAt : Time
  deriving DecidableEq, Repr

inductive EventType where
  | jobCreated
  | jobScheduled
  | jobUnscheduled
  | leaseAcquired
  | workerAssigned
  | leaseReleased
  | jobCompleted
  | jobFailed
  | jobCancelled
  | jobReclaimed
  deriving DecidableEq, Repr

structure Event where
  id : Nat
  aggregateId : JobId
  eventType : EventType
  tenantId : TenantId
  occurredAt : Time
  deriving DecidableEq, Repr

structure DB where
  nodes : Table NodeId Node Node.id
  jobs : Table JobId Job Job.id
  workers : Table WorkerId WorkerRow WorkerRow.id
  leases : Table LeaseId Lease Lease.id
  events : List Event
  nextId : Nat

def DB.empty : DB where
  nodes := .empty
  jobs := .empty
  workers := .empty
  leases := .empty
  events := []
  nextId := 0

structure RowOrder (ρ : Type) where
  sort : List ρ → List ρ
  hperm : ∀ l, (sort l).Perm l

def RowOrder.stored (ρ : Type) : RowOrder ρ := ⟨id, fun _ => .refl _⟩

structure Env where
  now : Time
  -- a comprehension over nodes asks `is_alive` of one after the other, with a reading for each
  nowFor : NodeId → Time := fun _ => now
  nodeOrder : RowOrder Node := .stored Node
  jobOrder : RowOrder Job := .stored Job
  workerOrder : RowOrder WorkerRow := .stored WorkerRow
  leaseOrder : RowOrder Lease := .stored Lease
  nodeName : NodeId → String := fun _ => "swift-falcon-3f2a"

namespace PostgresNodeRepository

def save (db : DB) (node : Node) : Except Err DB :=
  match db.nodes.get? node.id with
  | none => .ok { db with nodes := db.nodes.upsert node }
  | some stored =>
    if stored.tenantId = node.tenantId then
      .ok { db with nodes := db.nodes.upsert node }
    else
      .error (.nodeTenantConflict node.id)

def getById (db : DB) (nodeId : NodeId) (tenantId : TenantId) : Option Node :=
  (db.nodes.get? nodeId).filter (·.tenantId = tenantId)

def listAcrossTenants (env : Env) (db : DB) : List Node :=
  env.nodeOrder.sort db.nodes.rows

def listAvailableAcrossTenants (env : Env) (db : DB) : List Node :=
  (env.nodeOrder.sort (db.nodes.rows.filter (!·.draining))).filter
    (fun node => node.isAlive (env.nowFor node.id))

def onNode (db : DB) (nodeId : NodeId) (workerId : WorkerId) : Bool :=
  (db.workers.get? workerId).any (·.nodeId = nodeId)

def clearNode (nodeId : NodeId) (job : Job) : Job :=
  if job.assignedNodeId = some nodeId then { job with assignedNodeId := none } else job

theorem clearNode_id (nodeId : NodeId) (job : Job) : (clearNode nodeId job).id = job.id := by
  unfold clearNode
  split <;> rfl

def delete (db : DB) (nodeId : NodeId) (tenantId : TenantId) : DB :=
  match getById db nodeId tenantId with
  | none => db
  | some _ =>
    { db with
      nodes := db.nodes.filter (·.id ≠ nodeId)
      workers := db.workers.filter (·.nodeId ≠ nodeId)
      leases := db.leases.filter (fun lease => !onNode db nodeId lease.workerId)
      jobs := db.jobs.modify (clearNode nodeId) (clearNode_id nodeId) }

end PostgresNodeRepository

namespace PostgresJobRepository

def assignedNodeSameTenant (db : DB) (job : Job) : Bool :=
  job.assignedNodeId.all (fun nodeId => (db.nodes.get? nodeId).any (·.tenantId = job.tenantId))

def save (db : DB) (job : Job) : Except Err DB :=
  if (db.jobs.get? job.id).any (·.tenantId ≠ job.tenantId) then
    .error (.jobTenantConflict job.id)
  else if assignedNodeSameTenant db job then
    .ok { db with jobs := db.jobs.upsert job }
  else
    .error (.foreignKeyViolation "jobs_assigned_node_same_tenant")

def getById (db : DB) (jobId : JobId) (tenantId : TenantId) : Option Job :=
  (db.jobs.get? jobId).filter (·.tenantId = tenantId)

def listAcrossTenants (env : Env) (db : DB) : List Job :=
  env.jobOrder.sort db.jobs.rows

end PostgresJobRepository

def Worker.toRow (worker : Worker) : WorkerRow where
  id := worker.id
  nodeId := worker.node.id
  tenantId := worker.tenantId
  status := worker.status
  managedBy := worker.managedBy
  runningJobId := worker.runningJob.map (·.id)
  lastSeenAt := worker.lastSeenAt

namespace PostgresWorkerRepository

def nodeSameTenant (db : DB) (row : WorkerRow) : Bool :=
  (db.nodes.get? row.nodeId).any (·.tenantId = row.tenantId)

def runningJobSameTenant (db : DB) (row : WorkerRow) : Bool :=
  row.runningJobId.all (fun jobId => (db.jobs.get? jobId).any (·.tenantId = row.tenantId))

def leasesSameTenant (db : DB) (row : WorkerRow) : Bool :=
  db.leases.rows.all (fun lease => lease.workerId = row.id → lease.tenantId = row.tenantId)

def save (db : DB) (worker : Worker) : Except Err DB :=
  if !nodeSameTenant db worker.toRow then
    .error (.foreignKeyViolation "workers_node_same_tenant")
  else if !runningJobSameTenant db worker.toRow then
    .error (.foreignKeyViolation "workers_running_job_same_tenant")
  else if !leasesSameTenant db worker.toRow then
    .error (.foreignKeyViolation "leases_worker_same_tenant")
  else
    .ok { db with workers := db.workers.upsert worker.toRow }

def toEntity (env : Env) (db : DB) (row : WorkerRow) : Option Worker :=
  match db.nodes.get? row.nodeId with
  | none => none
  | some node =>
    some
      { id := row.id
        node := { node with name := env.nodeName row.nodeId }
        status := row.status
        managedBy := row.managedBy
        runningJob := row.runningJobId.bind db.jobs.get?
        lastSeenAt := row.lastSeenAt }

def getById (env : Env) (db : DB) (workerId : WorkerId) (tenantId : TenantId) : Option Worker :=
  ((db.workers.get? workerId).filter (·.tenantId = tenantId)).bind (toEntity env db)

def getByIdAcrossTenants (env : Env) (db : DB) (workerId : WorkerId) : Option Worker :=
  (db.workers.get? workerId).bind (toEntity env db)

def getByNodeId (env : Env) (db : DB) (nodeId : NodeId) (tenantId : TenantId) : Option Worker :=
  ((env.workerOrder.sort db.workers.rows).find?
    (fun row => row.nodeId = nodeId ∧ row.tenantId = tenantId)).bind (toEntity env db)

def listAcrossTenants (env : Env) (db : DB) : List Worker :=
  (env.workerOrder.sort db.workers.rows).filterMap (toEntity env db)

end PostgresWorkerRepository

namespace PostgresLeaseRepository

def save (db : DB) (lease : Lease) : Except Err DB :=
  let others := db.leases.rows.filter (·.id ≠ lease.id)
  if others.any (·.workerId = lease.workerId) then
    .error (.uniqueViolation "leases_worker_id_key")
  else if others.any (·.jobId = lease.jobId) then
    .error (.uniqueViolation "leases_job_id_key")
  else if !(db.workers.get? lease.workerId).any (·.tenantId = lease.tenantId) then
    .error (.workerNotFound lease.workerId)
  else if !(db.jobs.get? lease.jobId).any (·.tenantId = lease.tenantId) then
    .error (.foreignKeyViolation "leases_job_same_tenant")
  else
    .ok { db with leases := db.leases.upsert lease }

def renew (env : Env) (db : DB) (leaseId : LeaseId) (duration : Duration) (tenantId : TenantId)
    : Except Err DB :=
  -- the parameters of the statement are computed before it is sent
  if isDatetime (env.now + duration) then
    match (db.leases.get? leaseId).filter (·.tenantId = tenantId) with
    | none => .error (.leaseNotFound leaseId)
    | some lease =>
      .ok { db with leases := db.leases.upsert { lease with expiresAt := env.now + duration } }
  else
    .error (.overflowError "date value out of range")

def getByJobId (db : DB) (jobId : JobId) (tenantId : TenantId) : Option Lease :=
  db.leases.rows.find? (fun lease => lease.jobId = jobId ∧ lease.tenantId = tenantId)

def getByWorkerId (db : DB) (workerId : WorkerId) (tenantId : TenantId) : Option Lease :=
  db.leases.rows.find? (fun lease => lease.workerId = workerId ∧ lease.tenantId = tenantId)

def listAcrossTenants (env : Env) (db : DB) : List Lease :=
  env.leaseOrder.sort db.leases.rows

def delete (db : DB) (jobId : JobId) (tenantId : TenantId) : DB :=
  { db with
    leases := db.leases.filter (fun lease => ¬(lease.jobId = jobId ∧ lease.tenantId = tenantId)) }

def deletable (env : Env) (jobId : JobId) (tenantId : TenantId) (lease : Lease) : Bool :=
  lease.jobId = jobId ∧ lease.tenantId = tenantId ∧ lease.expiresAt < env.now

def deleteIfExpired (env : Env) (db : DB) (jobId : JobId) (tenantId : TenantId) : Bool × DB :=
  (db.leases.rows.any (deletable env jobId tenantId),
    { db with leases := db.leases.filter (fun lease => !deletable env jobId tenantId lease) })

end PostgresLeaseRepository

end AetherGrid
