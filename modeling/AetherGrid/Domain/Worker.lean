import AetherGrid.Domain.Job
import AetherGrid.Domain.Node

/-!
This module contains the `Worker` and `Lease` entities.
-/

namespace AetherGrid

structure Worker where
  id : WorkerId
  node : Node
  status : WorkerStatus := .starting
  managedBy : WorkerManagement := .dashboard
  runningJob : Option Job := none
  lastSeenAt : Time
  deriving DecidableEq

namespace Worker

def heartbeat (worker : Worker) (now : Time) : Worker :=
  if worker.status = .offline ∧ worker.runningJob = none then
    { worker with lastSeenAt := now, status := .idle }
  else
    { worker with lastSeenAt := now }

def isAlive (worker : Worker) (now : Time) : Bool :=
  now - worker.lastSeenAt ≤ heartbeatTimeout

def tenantId (worker : Worker) : TenantId :=
  worker.node.tenantId

def ready (worker : Worker) : Worker :=
  { worker with status := .idle }

def recover (worker : Worker) : Worker :=
  { worker with runningJob := none, status := .idle }

def isIdle (worker : Worker) : Bool :=
  worker.status = .idle

def offline (worker : Worker) : Worker :=
  { worker with status := .offline }

def accept (job : Job) : EStateM Err Worker Unit := do
  let worker ← get
  if !worker.isIdle then
    throw (.valueError "Worker is not accepting jobs.")
  if job.assignedNodeId ≠ some worker.node.id then
    throw (.valueError "Job is assigned to another node.")
  set { worker with runningJob := some job, status := .busy }

def onRunningJob (message : String) (command : EStateM Err Job Unit) : EStateM Err Worker Job := do
  let worker ← get
  match worker.runningJob with
  | none => throw (.valueError message)
  | some job =>
    match command.run job with
    | .ok _ job =>
      set { worker with runningJob := some job }
      return job
    | .error e job =>
      set { worker with runningJob := some job }
      throw e

def start (now : Time) : EStateM Err Worker Job :=
  onRunningJob "No assigned job." (Job.start now)

def finishJob (command : EStateM Err Job Unit) : EStateM Err Worker Job := do
  let job ← onRunningJob "No running job." command
  modify fun worker => { worker with runningJob := none, status := .idle }
  return job

def complete (now : Time) (exitCode : Option Int) : EStateM Err Worker Job :=
  finishJob (Job.complete now exitCode)

def fail (now : Time) (exitCode : Option Int) : EStateM Err Worker Job :=
  finishJob (Job.fail now exitCode)

def cancelJob (now : Time) (exitCode : Option Int) : EStateM Err Worker Job :=
  finishJob (Job.confirmCancelled now exitCode)

end Worker

structure Lease where
  id : LeaseId
  workerId : WorkerId
  jobId : JobId
  tenantId : TenantId
  acquiredAt : Time
  expiresAt : Time
  deriving DecidableEq, Repr

namespace Lease

def create (id : LeaseId) (workerId : WorkerId) (jobId : JobId) (tenantId : TenantId) (now : Time)
    (duration : Duration := defaultLeaseDuration) : Lease where
  id := id
  workerId := workerId
  jobId := jobId
  tenantId := tenantId
  acquiredAt := now
  expiresAt := now + duration

def isExpired (lease : Lease) (now : Time) : Bool :=
  lease.expiresAt ≤ now

def renew (lease : Lease) (now : Time) (duration : Duration := defaultLeaseDuration) : Lease :=
  { lease with expiresAt := now + duration }

end Lease

end AetherGrid
