import AetherGrid.Service.Impl.Outcome
import AetherGrid.Store.InMemoryLease

/-!
This module contains the wirings whose repositories hand out the objects they store.
-/

namespace AetherGrid

namespace Objects

structure JobRef where
  address : Nat
  deriving DecidableEq

structure NodeRef where
  address : Nat
  deriving DecidableEq

structure WorkerRef where
  address : Nat
  deriving DecidableEq

structure WorkerObject where
  id : WorkerId
  node : NodeRef
  status : WorkerStatus
  managedBy : WorkerManagement
  runningJob : Option JobRef
  lastSeenAt : Time
  deriving DecidableEq

structure Heap where
  jobs : JobRef → Job
  nodes : NodeRef → Node
  workers : WorkerRef → WorkerObject
  next : Nat

def Heap.worker (heap : Heap) (ref : WorkerRef) : Worker :=
  let worker := heap.workers ref
  { id := worker.id
    node := heap.nodes worker.node
    status := worker.status
    managedBy := worker.managedBy
    runningJob := worker.runningJob.map heap.jobs
    lastSeenAt := worker.lastSeenAt }

abbrev Dict (κ ρ : Type) := List (κ × ρ)

namespace Dict

variable {κ ρ : Type} [DecidableEq κ]

def get? (dict : Dict κ ρ) (k : κ) : Option ρ :=
  (dict.find? (·.1 = k)).map (·.2)

def set (dict : Dict κ ρ) (k : κ) (r : ρ) : Dict κ ρ :=
  match dict with
  | [] => [(k, r)]
  | entry :: rest => if entry.1 = k then (entry.1, r) :: rest else entry :: set rest k r

end Dict

inductive Records where
  | sqlite (jobs : Table JobId Job Job.id) (nodes : Table NodeId Node Node.id)
  | memory (jobs : Dict JobId JobRef) (nodes : Dict NodeId NodeRef)

structure Site where
  heap : Heap
  records : Records
  workers : Dict WorkerId WorkerRef
  leases : LeaseDict
  events : List Event
  nextId : Nat

structure View where
  jobs : List (JobId × Job)
  nodes : List (NodeId × Node)
  workers : List (WorkerId × Worker)
  leases : List Lease
  events : List Event

def Records.jobs (records : Records) (heap : Heap) : List (JobId × Job) :=
  match records with
  | .sqlite jobs _ => jobs.rows.map (fun job => (job.id, job))
  | .memory jobs _ => jobs.map (fun entry => (entry.1, heap.jobs entry.2))

def Records.nodes (records : Records) (heap : Heap) : List (NodeId × Node) :=
  match records with
  | .sqlite _ nodes => nodes.rows.map (fun node => (node.id, node))
  | .memory _ nodes => nodes.map (fun entry => (entry.1, heap.nodes entry.2))

def Site.view (s : Site) : View where
  jobs := s.records.jobs s.heap
  nodes := s.records.nodes s.heap
  workers := s.workers.map (fun entry => (entry.1, s.heap.worker entry.2))
  leases := s.leases.rows
  events := s.events

abbrev Live := EStateM Err Site

def onJob {α : Type} (ref : JobRef) (command : EStateM Err Job α) : Live α := fun s =>
  match command.run (s.heap.jobs ref) with
  | .ok a job => .ok a { s with heap.jobs := Function.update s.heap.jobs ref job }
  | .error e job => .error e { s with heap.jobs := Function.update s.heap.jobs ref job }

def onNode (ref : NodeRef) (command : Node → Node) : Live Unit :=
  modify fun s => { s with heap.nodes := Function.update s.heap.nodes ref (command (s.heap.nodes ref)) }

def onWorker (ref : WorkerRef) (command : WorkerObject → WorkerObject) : Live Unit :=
  modify fun s =>
    { s with heap.workers := Function.update s.heap.workers ref (command (s.heap.workers ref)) }

def newJob (job : Job) : Live JobRef := fun s =>
  let ref := ⟨s.heap.next⟩
  .ok ref
    { s with
      heap.jobs := Function.update s.heap.jobs ref job
      heap.next := s.heap.next + 1 }

def newNode (node : Node) : Live NodeRef := fun s =>
  let ref := ⟨s.heap.next⟩
  .ok ref
    { s with
      heap.nodes := Function.update s.heap.nodes ref node
      heap.next := s.heap.next + 1 }

namespace WorkerRepository

def getById (workerId : WorkerId) (tenantId : TenantId) : Live (Option WorkerRef) := do
  let s ← get
  match s.workers.get? workerId with
  | none => return none
  | some ref => if (s.heap.worker ref).tenantId ≠ tenantId then return none else return some ref

def save (ref : WorkerRef) : Live Unit :=
  modify fun s => { s with workers := s.workers.set (s.heap.workers ref).id ref }

end WorkerRepository

namespace JobRepository

def getById (jobId : JobId) (tenantId : TenantId) : Live (Option JobRef) := do
  let s ← get
  match s.records with
  | .sqlite jobs _ =>
    match (jobs.get? jobId).filter (·.tenantId = tenantId) with
    | none => return none
    | some job => some <$> newJob job
  | .memory jobs _ =>
    match jobs.get? jobId with
    | none => return none
    | some ref => if (s.heap.jobs ref).tenantId ≠ tenantId then return none else return some ref

def save (ref : JobRef) : Live Unit := do
  let s ← get
  let job := s.heap.jobs ref
  match s.records with
  | .sqlite jobs nodes =>
    if (jobs.get? job.id).any (·.tenantId ≠ job.tenantId) then
      throw (.jobTenantConflict job.id)
    else
      set { s with records := .sqlite (jobs.upsert job) nodes }
  | .memory jobs nodes =>
    if (jobs.get? job.id).any (fun existing => (s.heap.jobs existing).tenantId ≠ job.tenantId) then
      throw (.jobTenantConflict job.id)
    else
      set { s with records := .memory (jobs.set job.id ref) nodes }

end JobRepository

namespace NodeRepository

def getById (nodeId : NodeId) (tenantId : TenantId) : Live (Option NodeRef) := do
  let s ← get
  match s.records with
  | .sqlite _ nodes =>
    match (nodes.get? nodeId).filter (·.tenantId = tenantId) with
    | none => return none
    | some node => some <$> newNode node
  | .memory _ nodes =>
    match nodes.get? nodeId with
    | none => return none
    | some ref => if (s.heap.nodes ref).tenantId ≠ tenantId then return none else return some ref

def save (ref : NodeRef) : Live Unit := do
  let s ← get
  let node := s.heap.nodes ref
  match s.records with
  | .sqlite jobs nodes =>
    if (nodes.get? node.id).any (·.tenantId ≠ node.tenantId) then
      throw (.nodeTenantConflict node.id)
    else
      set { s with records := .sqlite jobs (nodes.upsert node) }
  | .memory jobs nodes =>
    if (nodes.get? node.id).any (fun existing => (s.heap.nodes existing).tenantId ≠ node.tenantId) then
      throw (.nodeTenantConflict node.id)
    else
      set { s with records := .memory jobs (nodes.set node.id ref) }

end NodeRepository

def recordForJob (ref : JobRef) (type : EventType) (now : Time) : Live Unit :=
  modify fun s =>
    let job := s.heap.jobs ref
    { s with events := s.events ++ [⟨s.nextId, job.id, type, job.tenantId, now⟩], nextId := s.nextId + 1 }

def releaseLease (workerId : WorkerId) (expectedLeaseId : LeaseId) (tenantId : TenantId) (now : Time)
    : Live Unit := do
  match InMemoryLeaseRepository.getByWorkerId (← get).leases workerId tenantId with
  | none => throw (.noActiveLease workerId)
  | some lease =>
    if lease.id ≠ expectedLeaseId then
      throw (.leaseNotFound expectedLeaseId)
    else
      match ← WorkerRepository.getById workerId tenantId with
      | none => throw (.workerNotFound workerId)
      | some _ =>
        match ← JobRepository.getById lease.jobId tenantId with
        | none => throw (.jobNotFound lease.jobId)
        | some job =>
          modify fun s =>
            { s with leases := InMemoryLeaseRepository.delete s.leases lease.jobId tenantId }
          recordForJob job .leaseReleased now

def getOwningWorker (workerId : WorkerId) (jobId : JobId) (tenantId : TenantId)
    : Live (WorkerRef × JobRef) := do
  match ← WorkerRepository.getById workerId tenantId with
  | none => throw (.workerNotFound workerId)
  | some ref =>
    let s ← get
    if (s.heap.worker ref).node.tenantId ≠ tenantId then
      throw (.workerNotFound workerId)
    else
      match (s.heap.workers ref).runningJob with
      | none => throw (.workerJobMismatch workerId jobId)
      | some job =>
        if (s.heap.jobs job).id ≠ jobId then
          throw (.workerJobMismatch workerId jobId)
        else
          return (ref, job)

def releaseNode (job : JobRef) (tenantId : TenantId) : Live Unit := do
  let job := (← get).heap.jobs job
  match job.assignedNodeId with
  | none => return
  | some nodeId =>
    match ← NodeRepository.getById nodeId tenantId with
    | none => return
    | some node =>
      onNode node (·.release job.resources)
      NodeRepository.save node

open ReportJobOutcome (Outcome)

def jobCommand (outcome : Outcome) (now : Time) (exitCode : Option Int) : EStateM Err Job Unit :=
  match outcome with
  | .complete => Job.complete now exitCode
  | .fail => Job.fail now exitCode
  | .cancel => Job.confirmCancelled now exitCode

def finishJob (ref : WorkerRef) (outcome : Outcome) (now : Time) (exitCode : Option Int) : Live Unit := do
  match ((← get).heap.workers ref).runningJob with
  | none => throw (.valueError "No running job.")
  | some job =>
    onJob job (jobCommand outcome now exitCode)
    onWorker ref (fun worker => { worker with runningJob := none, status := .idle })

-- the clock is read for the outcome and then for each of the two events
def finish (worker : WorkerRef) (workerId : WorkerId) (job : JobRef) (type : EventType)
    (expectedLeaseId : LeaseId) (tenantId : TenantId) (clock : Nat → Time) : Live WorkerRef := do
  releaseLease workerId expectedLeaseId tenantId (clock 1)
  WorkerRepository.save worker
  releaseNode job tenantId
  JobRepository.save job
  recordForJob job type (clock 2)
  return worker

def report (outcome : Outcome) (workerId : WorkerId) (jobId : JobId) (tenantId : TenantId)
    (leaseId : LeaseId) (exitCode : Option Int) (clock : Nat → Time) : Live WorkerRef := do
  let (worker, job) ← getOwningWorker workerId jobId tenantId
  finishJob worker outcome (clock 0) exitCode
  finish worker workerId job outcome.eventType leaseId tenantId clock

end Objects

end AetherGrid
