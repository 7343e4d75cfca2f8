import AetherGrid.Service.Impl.Lease

/-!
This module contains the three reconciliation services and the cycle that runs them.
-/

namespace AetherGrid

variable [Releasing]

namespace MarkDeadWorkers

def mark (worker : Worker) : Service Unit := do
  let now ← utcNow
  if worker.isAlive now then
    return
  else
    WorkerRepository.save worker.offline

def execute : Service Unit := do
  let workers ← WorkerRepository.listAcrossTenants
  forM workers mark

end MarkDeadWorkers

namespace RecoverExpiredLease

def findNode (job : Job) (tenantId : TenantId) : Service (Option Node) := do
  match job.assignedNodeId with
  | none => return none
  | some nodeId => NodeRepository.getById nodeId tenantId

def recoverWorker (worker : Option Worker) : Service Unit := do
  match worker with
  | none => return
  | some worker => WorkerRepository.save worker.recover

def reclaim (job : Job) (tenantId : TenantId) : Service Unit := do
  let wasCancelling := job.isCancelling
  let node ← findNode job tenantId
  let reclaimed ← reclaimJob job node true
  if reclaimed then
    RecordJobEventsService.recordForJob job (if wasCancelling then .jobCancelled else .jobReclaimed)

def recover (lease : Lease) : Service Unit := do
  let now ← utcNow
  if !lease.isExpired now then
    return
  else if !(← LeaseRepository.deleteIfExpired lease.jobId lease.tenantId) then
    return
  else
    let worker ← WorkerRepository.getById lease.workerId lease.tenantId
    match ← JobRepository.getById lease.jobId lease.tenantId with
    | none => recoverWorker worker
    | some job =>
      recoverWorker worker
      reclaim job lease.tenantId

def execute : Service Unit := do
  let leases ← LeaseRepository.listAcrossTenants
  forM leases recover

end RecoverExpiredLease

namespace RecoverOfflineNode

def reclaim (worker : Worker) (job : Job) (leaseAlreadyDeleted : Bool) : Service Unit := do
  let node := worker.node
  WorkerRepository.save worker.recover
  let reclaimed ← reclaimJob job (some node) leaseAlreadyDeleted
  if reclaimed then
    RecordJobEventsService.recordForJob job .jobReclaimed

def recover (offlineNodeIds : List NodeId) (worker : Worker) : Service Unit := do
  if worker.node.id ∉ offlineNodeIds then
    return
  else
    match worker.runningJob with
    | none => return
    | some job =>
      match ← LeaseRepository.getByJobId job.id job.tenantId with
      | none => reclaim worker job false
      | some lease =>
        let now ← utcNow
        if !lease.isExpired now then
          return
        else if !(← LeaseRepository.deleteIfExpired job.id job.tenantId) then
          return
        else
          reclaim worker job true

def execute : Service Unit := do
  let nodes ← NodeRepository.listAcrossTenants
  let now ← utcNowFor
  let offlineNodeIds := (nodes.filter (fun node => !node.isAlive (now node.id))).map (·.id)
  if offlineNodeIds.isEmpty then
    return
  else
    let workers ← WorkerRepository.listAcrossTenants
    forM workers (recover offlineNodeIds)

end RecoverOfflineNode

namespace ReconciliationLoop

def execute : Service Unit := do
  MarkDeadWorkers.execute
  RecoverExpiredLease.execute
  RecoverOfflineNode.execute

end ReconciliationLoop

end AetherGrid
