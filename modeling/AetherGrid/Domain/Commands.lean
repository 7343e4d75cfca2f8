import AetherGrid.Domain.Lemmas

/-!
This module contains the commands of a `Job` as data, and what a command leaves behind when it raises.
-/

namespace AetherGrid

namespace Job

inductive Command where
  | queue
  | assignTo (nodeId : NodeId)
  | unschedule
  | start (now : Time)
  | complete (now : Time) (exitCode : Option Int)
  | fail (now : Time) (exitCode : Option Int)
  | cancel
  | requestCancellation (now : Time)
  | confirmCancelled (now : Time) (exitCode : Option Int)
  | recordRetry
  | retry
  | reclaim (now : Time)

def Command.run (command : Command) : EStateM Err Job Unit :=
  match command with
  | .queue => Job.queue
  | .assignTo nodeId => Job.assignTo nodeId
  | .unschedule => Job.unschedule
  | .start now => Job.start now
  | .complete now exitCode => Job.complete now exitCode
  | .fail now exitCode => Job.fail now exitCode
  | .cancel => Job.cancel
  | .requestCancellation now => Job.requestCancellation now
  | .confirmCancelled now exitCode => Job.confirmCancelled now exitCode
  | .recordRetry => Job.recordRetry
  | .retry => Job.retry
  | .reclaim now => Job.reclaim now

def Unharmed (command : EStateM Err Job Unit) (job : Job) : Prop :=
  ∀ e job', command.run job = .error e job' → job' = job

def Command.Harmless (command : Command) (job : Job) : Prop :=
  match command with
  | .assignTo nodeId =>
    .scheduled ∈ job.status.allowedTransitions ∨ job.assignedNodeId = some nodeId
  | .start now => .running ∈ job.status.allowedTransitions ∨ job.startedAt = some now
  | .complete now exitCode =>
    .completed ∈ job.status.allowedTransitions
      ∨ job.completedAt = some now ∧ job.exitCode = exitCode
  | .fail now exitCode =>
    .failed ∈ job.status.allowedTransitions ∨ job.completedAt = some now ∧ job.exitCode = exitCode
  | .requestCancellation now =>
    .cancelling ∈ job.status.allowedTransitions ∨ job.cancellationRequestedAt = some now
  | .confirmCancelled now exitCode =>
    .cancelled ∈ job.status.allowedTransitions
      ∨ job.completedAt = some now ∧ job.exitCode = exitCode
  | _ => True

variable {job job' : Job}

theorem unharmed_transitionTo (status : JobStatus) (job : Job)
    : Unharmed (transitionTo status) job := by
  intro e job' h
  rw [transitionTo_run] at h
  split at h
  . contradiction
  . injection h with _ h
    exact h.symm

theorem unharmed_modify_iff {f : Job → Job} {status : JobStatus} (hstatus : (f job).status = job.status)
    : Unharmed (do modify f; transitionTo status) job
        ↔
      status ∈ job.status.allowedTransitions ∨ f job = job := by
  have hrun : (do modify f; transitionTo status : EStateM Err Job Unit).run job
      = (transitionTo status).run (f job) := rfl
  unfold Unharmed
  rw [hrun, transitionTo_run, hstatus]
  split
  . next hallowed =>
    simp [hallowed]
  . next hallowed =>
    simp [hallowed]

theorem unharmed_unschedule (job : Job) : Unharmed unschedule job := by
  intro e job' h
  cases hscheduled : job.isScheduled with
  | true =>
    simp only [isScheduled, decide_eq_true_eq] at hscheduled
    rw [unschedule_run hscheduled] at h
    contradiction
  | false =>
    unfold unschedule at h
    simp only [EStateM.run, bind, EStateM.bind, get, getThe, MonadStateOf.get, EStateM.get,
      hscheduled] at h
    injection h with _ h
    exact h.symm

theorem unharmed_recordRetry (job : Job) : Unharmed recordRetry job := by
  intro e job' h
  rw [recordRetry_run] at h
  split at h
  . contradiction
  . injection h with _ h
    exact h.symm

theorem unharmed_retryTransition {f : Job → Job} (hstatus : ∀ job, (f job).status = job.status)
    (hallowed : .queued ∈ job.status.allowedTransitions)
    : Unharmed (do recordRetry; modify f; transitionTo .queued) job := by
  intro e job' h
  simp only [EStateM.run, bind, EStateM.bind] at h
  have hrecord := recordRetry_run job
  simp only [EStateM.run] at hrecord
  rw [hrecord] at h
  split at h
  . next job1 hrecorded =>
    split at hrecorded
    . injection hrecorded with _ hrecorded
      have htransition := transitionTo_run .queued (f job1)
      rw [hstatus, ← hrecorded, if_pos hallowed, hrecorded] at htransition
      have := htransition.symm.trans h
      contradiction
    . contradiction
  . next hrecorded =>
    split at hrecorded
    . contradiction
    . injection hrecorded with _ hrecorded
      injection h with _ h
      rw [← h, hrecorded]

theorem unharmed_retry (job : Job) : Unharmed retry job := by
  intro e job' h
  unfold retry at h
  simp only [EStateM.run, bind, EStateM.bind, get, getThe, MonadStateOf.get, EStateM.get] at h
  cases hfailed : job.isFailed with
  | false =>
    simp only [hfailed] at h
    injection h with _ h
    exact h.symm
  | true =>
    simp only [hfailed] at h
    simp only [isFailed, decide_eq_true_eq] at hfailed
    refine unharmed_retryTransition (fun _ => ?_) ?_ e job' h
    . rfl
    . simp [hfailed, JobStatus.allowedTransitions]

theorem unharmed_reclaim (now : Time) (job : Job) : Unharmed (reclaim now) job := by
  intro e job' h
  have ⟨hinactive, _⟩ := reclaim_error h
  have hcancelling : job.isCancelling = false := by
    cases hstatus : job.status <;> simp_all [isCancelling, JobStatus.isActive]
  have hneither : (job.isScheduled || job.isRunning) = false := by
    cases hstatus : job.status <;> simp_all [isScheduled, isRunning, JobStatus.isActive]
  rw [reclaim_run, hcancelling, hneither] at h
  injection h with _ h
  exact h.symm

theorem command_unharmed_iff (command : Command) (job : Job)
    : (∀ e job', command.run.run job = .error e job' → job' = job) ↔ command.Harmless job := by
  cases command with
  | queue => exact iff_true_intro (unharmed_transitionTo .queued job)
  | cancel => exact iff_true_intro (unharmed_transitionTo .cancelled job)
  | unschedule => exact iff_true_intro (unharmed_unschedule job)
  | recordRetry => exact iff_true_intro (unharmed_recordRetry job)
  | retry => exact iff_true_intro (unharmed_retry job)
  | reclaim now => exact iff_true_intro (unharmed_reclaim now job)
  | assignTo nodeId =>
    refine (unharmed_modify_iff rfl).trans (or_congr_right ?_)
    cases job
    simp [eq_comm]
  | start now =>
    refine (unharmed_modify_iff rfl).trans (or_congr_right ?_)
    cases job
    simp [eq_comm]
  | complete now exitCode =>
    refine (unharmed_modify_iff rfl).trans (or_congr_right ?_)
    cases job
    simp [eq_comm]
  | fail now exitCode =>
    refine (unharmed_modify_iff rfl).trans (or_congr_right ?_)
    cases job
    simp [eq_comm]
  | requestCancellation now =>
    refine (unharmed_modify_iff rfl).trans (or_congr_right ?_)
    cases job
    simp [eq_comm]
  | confirmCancelled now exitCode =>
    refine (unharmed_modify_iff rfl).trans (or_congr_right ?_)
    cases job
    simp [eq_comm]

def cancelledJob : Job where
  id := ⟨1⟩
  resources := ⟨1, 1, 0⟩
  tenantId := ⟨0⟩
  status := .cancelled
  submittedAt := 0
  hcpu := Nat.one_pos
  hmemory := Nat.one_pos

theorem start_leavesTrace
    : ∃ e job', (Command.start 5).run.run cancelledJob = .error e job' ∧ job' ≠ cancelledJob := by
  exact ⟨_, _, rfl, by decide⟩

end Job

end AetherGrid
