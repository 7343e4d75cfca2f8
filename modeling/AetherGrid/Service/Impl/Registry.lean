import AetherGrid.Service.Impl.Lease

/-!
This module contains the services that create nodes, jobs and workers and that keep them alive.
-/

namespace AetherGrid

variable [Releasing]

def createNode (capacity : ResourceRequirements) (tenantId : TenantId) (name : Option String)
    : Service Node := do
  let id ← uuid4
  let generated ← generateNodeName ⟨id⟩
  let now ← utcNow
  let node := Node.register ⟨id⟩ capacity tenantId name generated now
  NodeRepository.save node
  return node

def createJob (resources : ResourceRequirements) (tenantId : TenantId)
    (command : Option (List String)) : Service Job := do
  let id ← uuid4
  let now ← utcNow
  let job ← Prog.ofExcept (Job.new ⟨id⟩ resources tenantId command now)
  let (_, job) ← runCommand Job.queue job
  JobRepository.save job
  RecordJobEventsService.recordForJob job .jobCreated
  return job

def createWorker (node : Node) (managedBy : WorkerManagement) : Service Worker := do
  match ← WorkerRepository.getByNodeId node.id node.tenantId with
  | some existing =>
    if let some abandonedJob := existing.runningJob then
      let _ ← reclaimJob abandonedJob (some node)
    let existing := { existing.recover with managedBy := managedBy }
    WorkerRepository.save existing
    return existing
  | none =>
    let id ← uuid4
    let now ← utcNow
    let worker : Worker := { id := ⟨id⟩, node, managedBy, lastSeenAt := now }
    let worker := worker.ready
    WorkerRepository.save worker
    return worker

def registerWorker (worker : Worker) : Service Worker := do
  let worker := worker.ready
  WorkerRepository.save worker
  match ← WorkerRepository.getById worker.id worker.tenantId with
  | none => .raise (.runtimeError "Worker disappeared after registration.")
  | some storedWorker => return storedWorker

def postWorkers (nodeId : NodeId) (tenantId : TenantId) (managedBy : WorkerManagement)
    : Service Worker := do
  match ← NodeRepository.getById nodeId tenantId with
  | none => .raise (.nodeNotFound nodeId)
  | some node =>
    let worker ← createWorker node managedBy
    registerWorker worker

def workerHeartbeat (workerId : WorkerId) (tenantId : TenantId) : Service Worker := do
  match ← WorkerRepository.getById workerId tenantId with
  | none => .raise (.workerNotFound workerId)
  | some worker =>
    if worker.tenantId ≠ tenantId then
      .raise (.workerNotFound workerId)
    else
      let now ← utcNow
      let worker := worker.heartbeat now
      WorkerRepository.save worker
      return worker

def heartbeatNode (nodeId : NodeId) (tenantId : TenantId) : Service (Option Node) := do
  match ← NodeRepository.getById nodeId tenantId with
  | none => return none
  | some node =>
    let now ← utcNow
    let node := node.heartbeat now
    NodeRepository.save node
    return some node

def drainNode (nodeId : NodeId) (tenantId : TenantId) : Service Node := do
  match ← NodeRepository.getById nodeId tenantId with
  | none => .raise (.nodeNotFound nodeId)
  | some node =>
    let node := node.drain
    NodeRepository.save node
    return node

def removeOfflineNode (nodeId : NodeId) (tenantId : TenantId) : Service Unit := do
  match ← NodeRepository.getById nodeId tenantId with
  | none => .raise (.nodeNotFound nodeId)
  | some node =>
    let now ← utcNow
    if node.isAlive now then
      .raise (.nodeStillAlive nodeId)
    else
      NodeRepository.delete nodeId tenantId

end AetherGrid
