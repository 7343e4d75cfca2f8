import AetherGrid.Service.Impl.Lease

/-!
This module contains the services that drive a job through its lifecycle: start, cancel, retry, the
reported outcomes of an agent and the execution loop of a worker in this process.
-/

namespace AetherGrid

variable [Releasing]

def getOwningWorker (workerId : WorkerId) (jobId : JobId) (tenantId : TenantId)
    : Service (Worker × Job) := do
  match ← WorkerRepository.getById workerId tenantId with
  | none => .raise (.workerNotFound workerId)
  | some worker =>
    if worker.node.tenantId ≠ tenantId then
      .raise (.workerNotFound workerId)
    else
      match worker.runningJob with
      | none => .raise (.workerJobMismatch workerId jobId)
      | some job =>
        if job.id ≠ jobId then
          .raise (.workerJobMismatch workerId jobId)
        else
          return (worker, job)

def pollWorker (workerId : WorkerId) (tenantId : TenantId) : Service (Option (Job × Option Lease)) := do
  match ← WorkerRepository.getById workerId tenantId with
  | none => return none
  | some worker =>
    if worker.node.tenantId ≠ tenantId then
      return none
    else
      match worker.runningJob with
      | none => return none
      | some job =>
        let lease ← LeaseRepository.getByWorkerId workerId tenantId
        return some (job, lease)

def startJob (workerId : WorkerId) (jobId : JobId) (tenantId : TenantId) : Service Worker := do
  let (worker, _) ← getOwningWorker workerId jobId tenantId
  let now ← utcNow
  let (job, worker) ← runCommand (Worker.start now) worker
  WorkerRepository.save worker
  JobRepository.save job
  return worker

def cancelJob (jobId : JobId) (tenantId : TenantId) : Service (Option Job) := do
  match ← JobRepository.getById jobId tenantId with
  | none => return none
  | some job =>
    let (_, job) ←
      if job.isRunning then do
        let now ← utcNow
        runCommand (Job.requestCancellation now) job
      else if !job.isCancelling then
        runCommand Job.cancel job
      else
        pure ((), job)
    JobRepository.save job
    return some job

def retryJob (jobId : JobId) (tenantId : TenantId) : Service (Option Job) := do
  match ← JobRepository.getById jobId tenantId with
  | none => return none
  | some job =>
    if job.status ≠ .failed then
      return some job
    else if !job.canRetry then
      return some job
    else
      let (_, job) ← runCommand Job.retry job
      JobRepository.save job
      return some job

def releaseNode (job : Job) (tenantId : TenantId) : Service Unit := do
  match job.assignedNodeId with
  | none => return
  | some nodeId =>
    match ← NodeRepository.getById nodeId tenantId with
    | none => return
    | some node =>
      let node ← Releasing.release node job.resources
      NodeRepository.save node

namespace ReportJobOutcome

def finish (worker : Worker) (workerId : WorkerId) (job : Job) (type : EventType)
    (expectedLeaseId : LeaseId) (tenantId : TenantId) : Service Worker := do
  releaseLease workerId expectedLeaseId tenantId
  WorkerRepository.save worker
  releaseNode job tenantId
  JobRepository.save job
  RecordJobEventsService.recordForJob job type
  return worker

inductive Outcome where
  | complete
  | fail
  | cancel
  deriving DecidableEq, Repr

def Outcome.eventType (outcome : Outcome) : EventType :=
  match outcome with
  | .complete => .jobCompleted
  | .fail => .jobFailed
  | .cancel => .jobCancelled

def Outcome.command (outcome : Outcome) (now : Time) (exitCode : Option Int)
    : EStateM Err Worker Job :=
  match outcome with
  | .complete => Worker.complete now exitCode
  | .fail => Worker.fail now exitCode
  | .cancel => Worker.cancelJob now exitCode

def report (outcome : Outcome) (workerId : WorkerId) (jobId : JobId) (tenantId : TenantId)
    (leaseId : LeaseId) (exitCode : Option Int) : Service Worker := do
  let (worker, _) ← getOwningWorker workerId jobId tenantId
  let now ← utcNow
  let (job, worker) ← runCommand (outcome.command now exitCode) worker
  finish worker workerId job outcome.eventType leaseId tenantId

def complete := report .complete
def fail := report .fail
def cancel := report .cancel

end ReportJobOutcome

structure JobExecutionResult where
  exitCode : Option Int
  timedOut : Bool
  cancelled : Bool
  leaseLost : Bool := false
  deriving DecidableEq, Repr

def JobExecutionResult.succeeded (result : JobExecutionResult) : Bool :=
  !result.timedOut && !result.cancelled && !result.leaseLost && result.exitCode = some 0

structure Execution where
  worker : Worker
  job : Job
  leaseId : LeaseId
  tenantId : TenantId
  lostLease : Bool := false
  renewing : Bool := true
  cancelEvent : Bool := false
  deriving DecidableEq

namespace WorkerExecutionLoop

def begin (workerId : WorkerId) : Service (Option Execution) := do
  match ← WorkerRepository.getByIdAcrossTenants workerId with
  | none => .raise (.valueError "Worker does not exist.")
  | some worker =>
    match worker.runningJob with
    | none => return none
    | some job =>
      match ← LeaseRepository.getByWorkerId workerId worker.tenantId with
      | none => .raise (.noActiveLease workerId)
      | some lease =>
        if job.isRunning then
          return some { worker, job, leaseId := lease.id, tenantId := worker.tenantId }
        else
          let now ← utcNow
          let (job, worker) ← runCommand (Worker.start now) worker
          JobRepository.save job
          return some { worker, job, leaseId := lease.id, tenantId := worker.tenantId }

def deliverCancellation (execution : Execution) : Service Execution := do
  if execution.cancelEvent then
    return execution
  else
    match ← JobRepository.getById execution.job.id execution.tenantId with
    | none => return execution
    | some current =>
      if !current.isCancelling then
        return execution
      else if execution.job.isCancelling then
        return { execution with cancelEvent := true }
      else
        let now ← utcNow
        match (Job.requestCancellation now).run execution.job with
        | .ok _ job => return { execution with job := job, cancelEvent := true }
        | .error _ job => return { execution with job := job, renewing := false }

def keepLeaseAlive (execution : Execution) : Service Execution := do
  if !execution.renewing then
    return execution
  else
    let renewed ← Prog.catching
      (do
        renewLease execution.worker.id execution.leaseId execution.tenantId
        return execution) fun e =>
      match e with
      | .leaseNotFound _ => return { execution with lostLease := true, renewing := false }
      | _ => return { execution with renewing := false }
    if renewed.renewing then deliverCancellation renewed else return renewed

def recordOutcome (execution : Execution) (result : JobExecutionResult) (now : Time)
    : Service (Job × Worker) := do
  let worker := { execution.worker with runningJob := some execution.job }
  if result.cancelled then
    let (job, worker) ← runCommand (Worker.cancelJob now result.exitCode) worker
    RecordJobEventsService.recordForJob job .jobCancelled
    return (job, worker)
  else if result.succeeded then
    let (job, worker) ← runCommand (Worker.complete now result.exitCode) worker
    RecordJobEventsService.recordForJob job .jobCompleted
    return (job, worker)
  else
    let (job, worker) ← runCommand (Worker.fail now result.exitCode) worker
    RecordJobEventsService.recordForJob job .jobFailed
    return (job, worker)

def keepCancellationRequest (job : Job) (current : Option Job) : Job :=
  match current with
  | none => job
  | some current =>
    if current.cancellationRequestedAt.isSome && job.cancellationRequestedAt.isNone then
      { job with cancellationRequestedAt := current.cancellationRequestedAt }
    else
      job

def finish (execution : Execution) (result : JobExecutionResult) : Service Unit := do
  if execution.lostLease then
    .raise (.leaseNotFound execution.leaseId)
  else
    let now ← utcNow
    let (job, worker) ← recordOutcome execution result now
    releaseLease worker.id execution.leaseId execution.tenantId
    WorkerRepository.save worker
    releaseNode job execution.tenantId
    let current ← JobRepository.getById job.id execution.tenantId
    JobRepository.save (keepCancellationRequest job current)

def renewals (n : Nat) (execution : Execution) : Service Execution :=
  match n with
  | 0 => return execution
  | n + 1 => do
    let execution ← keepLeaseAlive execution
    renewals n execution

def execute (workerId : WorkerId) (n : Nat) (result : JobExecutionResult) : Service Unit := do
  match ← begin workerId with
  | none => return
  | some execution =>
    let execution ← renewals n execution
    finish execution result

end WorkerExecutionLoop

end AetherGrid
