import AetherGrid.Domain.Worker

/-!
This module contains what the commands of jobs and workers can do: each of them is described by the
status it moves to, the node the job is assigned to afterwards and the retries it has used up.
-/

namespace AetherGrid

def JobStatus.attempts (status : JobStatus) : Nat :=
  match status with
  | .submitted | .queued | .scheduled => 0
  | _ => 1

namespace Job

structure Moves (job job' : Job) (next : JobStatus) (assigned : Option NodeId) : Prop where
  id : job'.id = job.id
  resources : job'.resources = job.resources
  tenantId : job'.tenantId = job.tenantId
  status : job'.status = next
  allowed : next ∈ job.status.allowedTransitions
  assignedNodeId : job'.assignedNodeId = assigned
  maxRetries : job'.maxRetries = job.maxRetries
  -- a job that has been started goes back to the queue at the cost of a retry
  retries : (job'.retryCount = job.retryCount ∧ (next = .queued → job.status.attempts = 0))
    ∨ (next = .queued ∧ job.canRetry ∧ job'.retryCount = job.retryCount + 1)

structure Becomes (job job' : Job) : Prop where
  edge : job'.status = job.status ∨ job'.status ∈ job.status.allowedTransitions
  maxRetries : job'.maxRetries = job.maxRetries
  retryCount : job.retryCount ≤ job'.retryCount
  budget : job.retryCount ≤ job.maxRetries → job'.retryCount ≤ job'.maxRetries
  attempts : job.retryCount + job.status.attempts ≤ job'.retryCount + job'.status.attempts

structure Endures (job job' : Job) : Prop where
  maxRetries : job'.maxRetries = job.maxRetries
  retryCount : job'.retryCount = job.retryCount
  running : job.status = .running → job'.status = .running ∨ job'.status = .cancelling
  cancelling : job.status = .cancelling → job'.status = .cancelling

theorem Becomes.refl (job : Job) : job.Becomes job :=
  ⟨.inl rfl, rfl, Nat.le_refl _, fun h => h, Nat.le_refl _⟩

theorem Endures.refl (job : Job) : job.Endures job :=
  ⟨rfl, rfl, .inl, fun h => h⟩

theorem Endures.trans {job job' job'' : Job} (h : job.Endures job') (h' : job'.Endures job'')
    : job.Endures job'' := by
  refine ⟨h'.maxRetries.trans h.maxRetries, h'.retryCount.trans h.retryCount, ?_, ?_⟩
  . intro hrunning
    cases h.running hrunning with
    | inl hrunning' => exact h'.running hrunning'
    | inr hcancelling => exact .inr (h'.cancelling hcancelling)
  . intro hcancelling
    exact h'.cancelling (h.cancelling hcancelling)

theorem attempts_of_allowed {status next : JobStatus} (h : next ∈ status.allowedTransitions)
    (hnext : next ≠ .queued) : status.attempts ≤ next.attempts := by
  cases status with
  | submitted => exact Nat.zero_le _
  | queued => exact Nat.zero_le _
  | scheduled => exact Nat.zero_le _
  | completed => contradiction
  | cancelled => contradiction
  | _ =>
    simp only [JobStatus.allowedTransitions, List.mem_cons, List.not_mem_nil, or_false] at h
    rcases h with rfl | rfl | rfl | rfl <;> first | contradiction | exact Nat.le_refl _

theorem Moves.becomes {job job' : Job} {next : JobStatus} {assigned : Option NodeId}
    (h : job.Moves job' next assigned) : job.Becomes job' := by
  have hedge := h.allowed
  rw [← h.status] at hedge
  rcases h.retries with ⟨hcount, hqueued⟩ | ⟨_, hretry, hcount⟩
  . refine ⟨.inr hedge, h.maxRetries, ?_, ?_, ?_⟩
    . omega
    . rw [hcount, h.maxRetries]
      exact fun hbudget => hbudget
    . rw [hcount, h.status]
      by_cases hnext : next = .queued
      . rw [hqueued hnext]
        omega
      . have := attempts_of_allowed h.allowed hnext
        omega
  . have hattempts : job.status.attempts ≤ 1 := by
      cases job.status <;> decide
    simp only [canRetry, decide_eq_true_eq] at hretry
    refine ⟨.inr hedge, h.maxRetries, ?_, ?_, ?_⟩
    . omega
    . rw [hcount, h.maxRetries]
      omega
    . omega

theorem Moves.endures {job job' : Job} {next : JobStatus} {assigned : Option NodeId}
    (h : job.Moves job' next assigned) (hqueued : next ≠ .queued)
    (hrunning : job.status = .running → next = .running ∨ next = .cancelling)
    (hcancelling : job.status = .cancelling → next = .cancelling) : job.Endures job' := by
  refine ⟨h.maxRetries, ?_, ?_, ?_⟩
  . rcases h.retries with ⟨hcount, _⟩ | ⟨heq, _⟩
    . exact hcount
    . contradiction
  . rw [h.status]
    exact hrunning
  . rw [h.status]
    exact hcancelling

theorem endures_of_attempts {job job' : Job} (hmax : job'.maxRetries = job.maxRetries)
    (hcount : job'.retryCount = job.retryCount) (hattempts : job.status.attempts = 0)
    : job.Endures job' := by
  refine ⟨hmax, hcount, ?_, ?_⟩
  . intro hrunning
    rw [hrunning] at hattempts
    contradiction
  . intro hcancelling
    rw [hcancelling] at hattempts
    contradiction

theorem endures_of_start {job job' : Job} {assigned : Option NodeId}
    (h : job.Moves job' .running assigned) : job.Endures job' := by
  apply h.endures nofun (fun _ => .inl rfl)
  intro hcancelling
  have := h.allowed
  rw [hcancelling] at this
  contradiction

theorem transitionTo_run (status : JobStatus) (job : Job)
    : (transitionTo status).run job
        =
      if status ∈ job.status.allowedTransitions then
        .ok () { job with status := status }
      else
        .error
          (.invalidJobTransition
            ("Cannot transition from " ++ job.status.name ++ " to " ++ status.name ++ "."))
          job := by
  unfold transitionTo
  simp only [EStateM.run, bind, EStateM.bind, get, getThe, MonadStateOf.get, EStateM.get]
  split <;> rfl

variable {job job' : Job} {now : Time} {exitCode : Option Int}

theorem transitionTo_moves {status : JobStatus} (h : (transitionTo status).run job = .ok () job')
    (hqueued : status = .queued → job.status.attempts = 0)
    : job.Moves job' status job.assignedNodeId := by
  rw [transitionTo_run] at h
  split at h
  . next hallowed =>
    injection h with _ h
    subst h
    exact ⟨rfl, rfl, rfl, rfl, hallowed, rfl, rfl, .inl ⟨rfl, hqueued⟩⟩
  . contradiction

theorem modify_transitionTo_moves {f : Job → Job} {status : JobStatus}
    (h : (do modify f; transitionTo status : EStateM Err Job Unit).run job = .ok () job')
    (hid : (f job).id = job.id) (hresources : (f job).resources = job.resources)
    (htenant : (f job).tenantId = job.tenantId) (hstatus : (f job).status = job.status)
    (hmax : (f job).maxRetries = job.maxRetries) (hcount : (f job).retryCount = job.retryCount)
    (hqueued : status ≠ .queued)
    : job.Moves job' status (f job).assignedNodeId := by
  have hmoves : (f job).Moves job' status (f job).assignedNodeId :=
    transitionTo_moves h (fun heq => absurd heq hqueued)
  refine ⟨?_, ?_, ?_, hmoves.status, ?_, hmoves.assignedNodeId, ?_, .inl ⟨?_, ?_⟩⟩
  . rw [hmoves.id, hid]
  . rw [hmoves.resources, hresources]
  . rw [hmoves.tenantId, htenant]
  . rw [← hstatus]
    exact hmoves.allowed
  . rw [hmoves.maxRetries, hmax]
  . rcases hmoves.retries with ⟨heq, _⟩ | ⟨heq, _⟩
    . rw [heq, hcount]
    . contradiction
  . intro heq
    contradiction

theorem queue_moves (h : queue.run job = .ok () job') (hsubmitted : job.status = .submitted)
    : job.Moves job' .queued job.assignedNodeId := by
  apply transitionTo_moves h
  intro _
  rw [hsubmitted]
  rfl

theorem start_moves (h : (start now).run job = .ok () job')
    : job.Moves job' .running job.assignedNodeId :=
  modify_transitionTo_moves h rfl rfl rfl rfl rfl rfl nofun

theorem complete_moves (h : (complete now exitCode).run job = .ok () job')
    : job.Moves job' .completed job.assignedNodeId :=
  modify_transitionTo_moves h rfl rfl rfl rfl rfl rfl nofun

theorem fail_moves (h : (fail now exitCode).run job = .ok () job')
    : job.Moves job' .failed job.assignedNodeId :=
  modify_transitionTo_moves h rfl rfl rfl rfl rfl rfl nofun

theorem cancel_moves (h : cancel.run job = .ok () job')
    : job.Moves job' .cancelled job.assignedNodeId :=
  transitionTo_moves h nofun

theorem requestCancellation_moves (h : (requestCancellation now).run job = .ok () job')
    : job.Moves job' .cancelling job.assignedNodeId :=
  modify_transitionTo_moves h rfl rfl rfl rfl rfl rfl nofun

theorem requestCancellation_error {e : Err}
    (h : (requestCancellation now).run job = .error e job')
    : job' = { job with cancellationRequestedAt := some now } := by
  have hrun : (transitionTo .cancelling).run { job with cancellationRequestedAt := some now }
      = .error e job' := h
  rw [transitionTo_run] at hrun
  split at hrun
  . contradiction
  . injection hrun with _ hrun
    exact hrun.symm

theorem confirmCancelled_moves (h : (confirmCancelled now exitCode).run job = .ok () job')
    : job.Moves job' .cancelled job.assignedNodeId :=
  modify_transitionTo_moves h rfl rfl rfl rfl rfl rfl nofun

theorem assignTo_run {nodeId : NodeId} (h : job.status = .queued)
    : (assignTo nodeId).run job
        =
      .ok () { job with assignedNodeId := some nodeId, status := .scheduled } := by
  have := transitionTo_run .scheduled { job with assignedNodeId := some nodeId }
  rw [if_pos (by simp [h, JobStatus.allowedTransitions])] at this
  exact this

theorem assignTo_moves {nodeId : NodeId} (h : (assignTo nodeId).run job = .ok () job')
    : job.Moves job' .scheduled (some nodeId) :=
  modify_transitionTo_moves h rfl rfl rfl rfl rfl rfl nofun

theorem unschedule_run (h : job.status = .scheduled)
    : unschedule.run job = .ok () { job with assignedNodeId := none, status := .queued } := by
  have := transitionTo_run .queued { job with assignedNodeId := none }
  rw [if_pos (by simp [h, JobStatus.allowedTransitions])] at this
  have hscheduled : job.isScheduled = true := by simp [isScheduled, h]
  unfold unschedule
  simp only [EStateM.run, bind, EStateM.bind, get, getThe, MonadStateOf.get, EStateM.get,
    hscheduled]
  exact this

theorem unschedule_moves (h : unschedule.run job = .ok () job') : job.Moves job' .queued none := by
  cases hscheduled : job.isScheduled with
  | true =>
    simp only [isScheduled, decide_eq_true_eq] at hscheduled
    rw [unschedule_run hscheduled] at h
    injection h with _ h
    subst h
    refine ⟨rfl, rfl, rfl, rfl, ?_, rfl, rfl, .inl ⟨rfl, ?_⟩⟩
    . rw [hscheduled]
      simp [JobStatus.allowedTransitions]
    . intro _
      rw [hscheduled]
      rfl
  | false =>
    unfold unschedule at h
    simp only [EStateM.run, bind, EStateM.bind, get, getThe, MonadStateOf.get, EStateM.get,
      hscheduled] at h
    contradiction

theorem recordRetry_run (job : Job)
    : recordRetry.run job
        =
      if job.canRetry then
        .ok () { job with retryCount := job.retryCount + 1 }
      else
        .error (.valueError "Job has exhausted all retries.") job := by
  unfold recordRetry
  simp only [EStateM.run, bind, EStateM.bind, get, getThe, MonadStateOf.get, EStateM.get]
  cases job.canRetry <;> rfl

theorem recordRetry_moves {f : Job → Job}
    (h : (do recordRetry; modify f; transitionTo .queued : EStateM Err Job Unit).run job
      = .ok () job')
    (hid : ∀ job, (f job).id = job.id) (hresources : ∀ job, (f job).resources = job.resources)
    (htenant : ∀ job, (f job).tenantId = job.tenantId)
    (hstatus : ∀ job, (f job).status = job.status)
    (hassigned : ∀ job, (f job).assignedNodeId = none)
    (hmax : ∀ job, (f job).maxRetries = job.maxRetries)
    (hcount : ∀ job, (f job).retryCount = job.retryCount) : job.Moves job' .queued none := by
  simp only [EStateM.run, bind, EStateM.bind] at h
  have hrecord := recordRetry_run job
  simp only [EStateM.run] at hrecord
  rw [hrecord] at h
  split at h
  . next heq =>
    split at heq
    . next hretry =>
      injection heq with _ heq
      subst heq
      have hrun : (transitionTo .queued).run (f { job with retryCount := job.retryCount + 1 })
          = .ok () job' := h
      rw [transitionTo_run, hstatus] at hrun
      split at hrun
      . next hallowed =>
        injection hrun with _ hrun
        subst hrun
        exact ⟨hid _, hresources _, htenant _, rfl, hallowed, hassigned _, hmax _,
          .inr ⟨rfl, hretry, hcount _⟩⟩
      . contradiction
    . contradiction
  . contradiction

theorem retry_moves (h : retry.run job = .ok () job') : job.Moves job' .queued none := by
  unfold retry at h
  simp only [EStateM.run, bind, EStateM.bind, get, getThe, MonadStateOf.get, EStateM.get] at h
  cases hfailed : job.isFailed with
  | true =>
    simp only [hfailed] at h
    apply recordRetry_moves h
    all_goals
      intro job
      rfl
  | false =>
    simp only [hfailed] at h
    contradiction

theorem reclaim_run (now : Time) (job : Job)
    : (reclaim now).run job
        =
      (if job.isCancelling then
        (do
          modify fun job => { job with assignedNodeId := none, completedAt := some now }
          transitionTo .cancelled : EStateM Err Job Unit).run job
      else if !(job.isScheduled || job.isRunning) then
        .error
          (.invalidJobTransition "Only scheduled, running, or cancelling jobs may be reclaimed.") job
      else if !job.canRetry then
        (do
          modify fun job => { job with assignedNodeId := none, completedAt := some now }
          transitionTo .failed : EStateM Err Job Unit).run job
      else
        (do
          recordRetry
          modify fun job =>
            { job with
              assignedNodeId := none
              startedAt := none
              completedAt := none
              exitCode := none }
          transitionTo .queued : EStateM Err Job Unit).run job) := by
  unfold reclaim
  simp only [EStateM.run, bind, EStateM.bind, get, getThe, MonadStateOf.get, EStateM.get]
  cases job.isCancelling
  . cases job.isScheduled || job.isRunning
    . rfl
    . cases job.canRetry <;> rfl
  . rfl

theorem reclaim_moves (h : (reclaim now).run job = .ok () job')
    : ∃ next, (next = .cancelled ∨ next = .failed ∨ next = .queued) ∧ job.Moves job' next none := by
  rw [reclaim_run] at h
  split at h
  . exact ⟨.cancelled, by simp, modify_transitionTo_moves h rfl rfl rfl rfl rfl rfl nofun⟩
  . split at h
    . contradiction
    . split at h
      . exact ⟨.failed, by simp, modify_transitionTo_moves h rfl rfl rfl rfl rfl rfl nofun⟩
      . refine ⟨.queued, by simp, ?_⟩
        apply recordRetry_moves h
        all_goals
          intro job
          rfl

theorem reclaim_active (h : (reclaim now).run job = .ok () job') : job.status.isActive = true := by
  rw [reclaim_run] at h
  split at h
  . next hcancelling =>
    simp only [isCancelling, decide_eq_true_eq] at hcancelling
    rw [hcancelling]
    rfl
  . split at h
    . contradiction
    . next hneither =>
      simp only [isScheduled, isRunning] at hneither
      cases hstatus : job.status <;> simp_all [JobStatus.isActive]

theorem reclaim_error {e : Err} (h : (reclaim now).run job = .error e job')
    : job.status.isActive = false ∧ ∃ message, e = .invalidJobTransition message := by
  rw [reclaim_run] at h
  split at h
  . next hcancelling =>
    simp only [isCancelling, decide_eq_true_eq] at hcancelling
    have := transitionTo_run .cancelled { job with assignedNodeId := none, completedAt := some now }
    rw [if_pos (by simp [hcancelling, JobStatus.allowedTransitions])] at this
    have := this.symm.trans h
    contradiction
  . next hcancelling =>
    split at h
    . next hneither =>
      injection h with h
      refine ⟨?_, _, h.symm⟩
      simp only [isCancelling, isScheduled, isRunning] at hcancelling hneither
      cases hstatus : job.status <;> simp_all [JobStatus.isActive]
    . next hneither =>
      have hallowed : .failed ∈ job.status.allowedTransitions
          ∧ .queued ∈ job.status.allowedTransitions := by
        simp only [isScheduled, isRunning] at hneither
        cases hstatus : job.status <;> simp_all [JobStatus.allowedTransitions]
      split at h
      . have := transitionTo_run .failed
          { job with assignedNodeId := none, completedAt := some now }
        rw [if_pos hallowed.left] at this
        have := this.symm.trans h
        contradiction
      . next hretry =>
        simp only [Bool.not_eq_eq_eq_not, Bool.not_true, Bool.not_eq_false] at hretry
        have hrecord := recordRetry_run job
        rw [if_pos hretry] at hrecord
        simp only [EStateM.run] at hrecord
        simp only [EStateM.run, bind, EStateM.bind, hrecord] at h
        have := transitionTo_run .queued
          { job with
            retryCount := job.retryCount + 1
            assignedNodeId := none
            startedAt := none
            completedAt := none
            exitCode := none }
        rw [if_pos hallowed.right] at this
        have := this.symm.trans h
        contradiction

end Job

namespace Worker

variable {worker worker' : Worker} {job job' : Job}

theorem accept_run (hidle : worker.isIdle) (hassigned : job.assignedNodeId = some worker.node.id)
    : (accept job).run worker
        =
      .ok () { worker with runningJob := some job, status := .busy } := by
  unfold accept
  simp only [EStateM.run, bind, EStateM.bind, get, getThe, MonadStateOf.get, EStateM.get, hidle,
    hassigned, Bool.not_true, Bool.false_eq_true, if_false, ne_eq, not_true_eq_false]
  rfl

theorem accept_ok (h : (accept job).run worker = .ok () worker')
    : worker.isIdle
        ∧ job.assignedNodeId = some worker.node.id
        ∧ worker' = { worker with runningJob := some job, status := .busy } := by
  by_cases hidle : worker.isIdle
  . by_cases hassigned : job.assignedNodeId = some worker.node.id
    . rw [accept_run hidle hassigned] at h
      injection h with _ h
      exact ⟨hidle, hassigned, h.symm⟩
    . unfold accept at h
      simp only [EStateM.run, bind, EStateM.bind, get, getThe, MonadStateOf.get, EStateM.get, hidle,
        hassigned, Bool.not_true, Bool.false_eq_true, if_false, ne_eq, not_false_eq_true, if_true] at h
      contradiction
  . unfold accept at h
    simp only [EStateM.run, bind, EStateM.bind, get, getThe, MonadStateOf.get, EStateM.get, hidle,
      Bool.not_false, if_true] at h
    contradiction

theorem onRunningJob_ok {message : String} {command : EStateM Err Job Unit}
    (h : (onRunningJob message command).run worker = .ok job' worker')
    : ∃ job, worker.runningJob = some job
        ∧ command.run job = .ok () job'
        ∧ worker' = { worker with runningJob := some job' } := by
  unfold onRunningJob at h
  simp only [EStateM.run, bind, EStateM.bind, get, getThe, MonadStateOf.get, EStateM.get] at h
  cases hjob : worker.runningJob with
  | none =>
    rw [hjob] at h
    contradiction
  | some job =>
    simp only [hjob] at h
    cases hrun : command job with
    | ok _ job'' =>
      simp only [hrun] at h
      injection h with hjob' hworker'
      subst hjob'
      exact ⟨job, rfl, hrun, hworker'.symm⟩
    | error e job'' =>
      simp only [hrun] at h
      contradiction

theorem finishJob_ok {command : EStateM Err Job Unit}
    (h : (finishJob command).run worker = .ok job' worker')
    : ∃ job, worker.runningJob = some job
        ∧ command.run job = .ok () job'
        ∧ worker' = worker.recover := by
  unfold finishJob at h
  simp only [EStateM.run, bind, EStateM.bind] at h
  split at h
  . next job'' worker'' hrun =>
    have ⟨job, hjob, hcommand, hworker''⟩ := onRunningJob_ok hrun
    injection h with hjob' hworker'
    subst hjob' hworker''
    exact ⟨job, hjob, hcommand, hworker'.symm⟩
  . contradiction

end Worker

end AetherGrid
