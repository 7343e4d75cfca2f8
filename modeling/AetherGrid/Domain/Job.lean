import AetherGrid.Domain.Basic

/-!
This module contains the `Job` aggregate and its commands.
-/

namespace AetherGrid

structure Job where
  id : JobId
  resources : ResourceRequirements
  tenantId : TenantId
  priority : Int := 0
  constraints : List (String × String) := []
  maxRetries : Nat := 0
  retryCount : Nat := 0
  executionTimeout : Duration := defaultExecutionTimeout
  status : JobStatus := .submitted
  assignedNodeId : Option NodeId := none
  submittedAt : Time
  startedAt : Option Time := none
  completedAt : Option Time := none
  cancellationRequestedAt : Option Time := none
  command : Option (List String) := none
  exitCode : Option Int := none
  hcpu : 0 < resources.cpuCores
  hmemory : 0 < resources.memoryMib
  deriving DecidableEq

def JobStatus.allowedTransitions (status : JobStatus) : List JobStatus :=
  match status with
  | .submitted => [.queued]
  | .queued => [.scheduled, .cancelled]
  | .scheduled => [.running, .cancelled, .queued, .failed]
  | .running => [.completed, .failed, .queued, .cancelling]
  | .cancelling => [.completed, .failed, .cancelled]
  | .completed => []
  | .failed => [.queued]
  | .cancelled => []

def JobStatus.isActive (status : JobStatus) : Bool :=
  match status with
  | .scheduled | .running | .cancelling => true
  | _ => false

namespace Job

def new (id : JobId) (resources : ResourceRequirements) (tenantId : TenantId)
    (command : Option (List String)) (now : Time) : Except Err Job :=
  if hcpu : 0 < resources.cpuCores then
    if hmemory : 0 < resources.memoryMib then
      .ok { id, resources, tenantId, command, submittedAt := now, hcpu, hmemory }
    else
      .error (.valueError "Job must request a positive amount of memory.")
  else
    .error (.valueError "Job must request at least one CPU core.")

def isQueued (job : Job) : Bool := job.status = .queued
def isScheduled (job : Job) : Bool := job.status = .scheduled
def isRunning (job : Job) : Bool := job.status = .running
def isFailed (job : Job) : Bool := job.status = .failed
def isCancelling (job : Job) : Bool := job.status = .cancelling

def transitionTo (newStatus : JobStatus) : EStateM Err Job Unit := do
  let job ← get
  if newStatus ∈ job.status.allowedTransitions then
    set { job with status := newStatus }
  else
    throw <| .invalidJobTransition <|
      "Cannot transition from " ++ job.status.name ++ " to " ++ newStatus.name ++ "."

def queue : EStateM Err Job Unit :=
  transitionTo .queued

def assignTo (nodeId : NodeId) : EStateM Err Job Unit := do
  modify fun job => { job with assignedNodeId := some nodeId }
  transitionTo .scheduled

def unschedule : EStateM Err Job Unit := do
  if !(← get).isScheduled then
    throw (.invalidJobTransition "Only scheduled jobs may be unscheduled.")
  modify fun job => { job with assignedNodeId := none }
  transitionTo .queued

def start (now : Time) : EStateM Err Job Unit := do
  modify fun job => { job with startedAt := some now }
  transitionTo .running

def complete (now : Time) (exitCode : Option Int) : EStateM Err Job Unit := do
  modify fun job => { job with completedAt := some now, exitCode := exitCode }
  transitionTo .completed

def fail (now : Time) (exitCode : Option Int) : EStateM Err Job Unit := do
  modify fun job => { job with completedAt := some now, exitCode := exitCode }
  transitionTo .failed

def cancel : EStateM Err Job Unit :=
  transitionTo .cancelled

def requestCancellation (now : Time) : EStateM Err Job Unit := do
  modify fun job => { job with cancellationRequestedAt := some now }
  transitionTo .cancelling

def confirmCancelled (now : Time) (exitCode : Option Int) : EStateM Err Job Unit := do
  modify fun job => { job with completedAt := some now, exitCode := exitCode }
  transitionTo .cancelled

def canRetry (job : Job) : Bool :=
  job.retryCount < job.maxRetries

def recordRetry : EStateM Err Job Unit := do
  if !(← get).canRetry then
    throw (.valueError "Job has exhausted all retries.")
  modify fun job => { job with retryCount := job.retryCount + 1 }

def retry : EStateM Err Job Unit := do
  if !(← get).isFailed then
    throw (.invalidJobTransition "Only failed jobs may be retried.")
  recordRetry
  modify fun job =>
    { job with
      assignedNodeId := none
      startedAt := none
      completedAt := none
      exitCode := none
      cancellationRequestedAt := none }
  transitionTo .queued

def reclaim (now : Time) : EStateM Err Job Unit := do
  let job ← get
  if job.isCancelling then
    modify fun job => { job with assignedNodeId := none, completedAt := some now }
    transitionTo .cancelled
  else if !(job.isScheduled || job.isRunning) then
    throw <| .invalidJobTransition
      "Only scheduled, running, or cancelling jobs may be reclaimed."
  else if !job.canRetry then
    modify fun job => { job with assignedNodeId := none, completedAt := some now }
    transitionTo .failed
  else
    recordRetry
    -- unlike `retry`, the cancellation timestamp is left as it is
    modify fun job =>
      { job with
        assignedNodeId := none
        startedAt := none
        completedAt := none
        exitCode := none }
    transitionTo .queued

end Job

end AetherGrid
