import AetherGrid.Domain.Scheduler
import AetherGrid.Service.Impl.Lease

/-!
This module contains the scheduling tick: queued jobs are placed on nodes in priority order and handed
to an idle worker of the node.
-/

namespace AetherGrid

variable [Releasing]

def noIdleWorker : Err :=
  .noAvailableNode "No idle worker is available on the assigned node."

def assignWorker (job : Job) : Service Worker := do
  match job.assignedNodeId with
  | none => .raise (.valueError "Job has not been assigned to a node.")
  | some nodeId =>
    let workers ← WorkerRepository.listAcrossTenants
    match workers.find? (fun worker => worker.node.id = nodeId && worker.isIdle) with
    | none => .raise noIdleWorker
    | some worker =>
      let _ ← (acquireLease worker job).catching fun e =>
        match e with
        | .workerNotFound _ => .raise noIdleWorker
        | .leaseTenantMismatch _ => .raise noIdleWorker
        | e => .raise e
      let (_, worker) ← runCommand (Worker.accept job) worker
      WorkerRepository.save worker
      RecordJobEventsService.recordForJob job .workerAssigned
      return worker

namespace SchedulerLoop

def putBack (node : Node) (nodes : List Node) : List Node :=
  nodes.map (fun other => if other.id = node.id then node else other)

def unschedule (job : Job) (node : Node) : Service Node := do
  let (_, job) ← runCommand Job.unschedule job
  let node ← Releasing.release node job.resources
  NodeRepository.save node
  JobRepository.save job
  RecordJobEventsService.recordForJob job .jobUnscheduled
  return node

def place (now : NodeId → Time) (nodes : List Node) (job : Job) : Service (List Node) := do
  match Scheduler.selectNode now job nodes with
  | none => return nodes
  | some node =>
    let node ← Prog.ofExcept (node.allocate job.resources)
    let (_, job) ← runCommand (Job.assignTo node.id) job
    NodeRepository.save node
    JobRepository.save job
    RecordJobEventsService.recordForJob job .jobScheduled
    let node ← Prog.catching (do let _ ← assignWorker job; return node) fun e =>
      match e with
      | .noAvailableNode _ => unschedule job node
      | e => .raise e
    return putBack node nodes

def visit (nodes : List Node) (job : Job) : Service (List Node) := do
  let now ← utcNowFor
  place now nodes job

def inPriorityOrder (jobs : List Job) : List Job :=
  (jobs.filter (·.isQueued)).insertionSort (fun a b => b.priority ≤ a.priority)

def execute : Service Unit := do
  let nodes ← NodeRepository.listAvailableAcrossTenants
  let jobs ← JobRepository.listAcrossTenants
  let _ ← (inPriorityOrder jobs).foldlM visit nodes

end SchedulerLoop

end AetherGrid
