import AetherGrid.Store.Call

/-!
This module contains the lease services and `reclaim_job`, the recovery sequence that reconciliation
and worker registration share.
-/

namespace AetherGrid

/--
How a service calls `Node.release`.
-/
class Releasing where
  release : Node → ResourceRequirements → Service Node
  release_eq : ∀ node resources, node.available + resources ≤ node.capacity →
    release node resources = .ret (node.release resources)

instance plainRelease : Releasing where
  release node resources := .ret (node.release resources)
  release_eq _ _ _ := rfl

theorem plainRelease_bind {α : Type} (node : Node) (resources : ResourceRequirements) (f : Node → Service α)
    : (Releasing.release node resources >>= f) = f (node.release resources) :=
  rfl

variable [Releasing]

def acquireLease (worker : Worker) (job : Job) : Service Lease := do
  if job.tenantId ≠ worker.tenantId then
    .raise (.leaseTenantMismatch "Worker and job belong to different tenants.")
  else
    match ← LeaseRepository.getByJobId job.id job.tenantId with
    | some _ => .raise (.valueError "Job already has an active lease.")
    | none =>
      let now ← utcNow
      let id ← uuid4
      let lease := Lease.create ⟨id⟩ worker.id job.id worker.tenantId now
      LeaseRepository.save lease
      RecordJobEventsService.recordForJob job .leaseAcquired
      return lease

def renewLease (workerId : WorkerId) (expectedLeaseId : LeaseId) (tenantId : TenantId)
    (duration : Duration := defaultLeaseDuration) : Service Unit := do
  match ← LeaseRepository.getByWorkerId workerId tenantId with
  | none => .raise (.noActiveLease workerId)
  | some lease =>
    if lease.id ≠ expectedLeaseId then
      .raise (.leaseNotFound expectedLeaseId)
    else
      LeaseRepository.renew lease.id duration tenantId

def releaseLease (workerId : WorkerId) (expectedLeaseId : LeaseId) (tenantId : TenantId)
    : Service Unit := do
  match ← LeaseRepository.getByWorkerId workerId tenantId with
  | none => .raise (.noActiveLease workerId)
  | some lease =>
    if lease.id ≠ expectedLeaseId then
      .raise (.leaseNotFound expectedLeaseId)
    else
      match ← WorkerRepository.getById workerId tenantId with
      | none => .raise (.workerNotFound workerId)
      | some _ =>
        match ← JobRepository.getById lease.jobId tenantId with
        | none => .raise (.jobNotFound lease.jobId)
        | some job =>
          -- the identity was checked by worker above, the removal goes by job
          LeaseRepository.delete lease.jobId tenantId
          RecordJobEventsService.recordForJob job .leaseReleased

def reclaimJob (job : Job) (node : Option Node) (leaseAlreadyDeleted : Bool := false)
    : Service Bool := do
  if !leaseAlreadyDeleted then
    LeaseRepository.delete job.id job.tenantId
  if let some node := node then
    let node ← Releasing.release node job.resources
    NodeRepository.save node
  let now ← utcNow
  match (Job.reclaim now).run job with
  | .ok _ job =>
    JobRepository.save job
    return true
  | .error (.invalidJobTransition _) _ => return false
  | .error e _ => .raise e

end AetherGrid
