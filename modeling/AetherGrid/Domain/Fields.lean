import AetherGrid.Domain.Commands

/-!
This module relates the fields of a `Job` to its status: what every sequence of commands that return
normally leaves in the node, the exit code and the timestamps, however often the job goes back to the
queue.
-/

namespace AetherGrid

namespace Job

structure IsNew (job : Job) : Prop where
  status : job.status = .submitted
  assignedNodeId : job.assignedNodeId = none
  startedAt : job.startedAt = none
  completedAt : job.completedAt = none
  exitCode : job.exitCode = none
  cancellationRequestedAt : job.cancellationRequestedAt = none

def Command.Called (command : Command) (job : Job) : Prop :=
  match command with
  | .queue => job.status = .submitted
  | .recordRetry => False
  | _ => True

def Command.reading (command : Command) : Option Time :=
  match command with
  | .start now | .complete now _ | .fail now _ | .requestCancellation now | .confirmCancelled now _
  | .reclaim now => some now
  | _ => none

inductive Lives : Job → List Command → Job → Prop
  | nil (job : Job) : Lives job [] job
  | cons {job job' job'' : Job} {command : Command} {commands : List Command}
      (hcalled : command.Called job) (hrun : command.run.run job = .ok () job')
      (hlives : Lives job' commands job'') : Lives job (command :: commands) job''

structure FieldsMatch (job : Job) : Prop where
  queued : job.status = .queued →
    job.assignedNodeId = none ∧ job.startedAt = none ∧ job.completedAt = none ∧ job.exitCode = none
      ∧ job.cancellationRequestedAt = none
  scheduled : job.status = .scheduled → job.assignedNodeId.isSome ∧ job.startedAt = none
  running : job.status = .running ∨ job.status = .cancelling →
    job.assignedNodeId.isSome ∧ job.startedAt.isSome ∧ job.completedAt = none
  cancelling : job.status = .cancelling → job.cancellationRequestedAt.isSome
  completed : job.status = .completed →
    job.startedAt.isSome ∧ job.completedAt.isSome ∧ job.assignedNodeId.isSome
  failed : job.status = .failed → job.completedAt.isSome

structure TimesOrdered (job : Job) : Prop where
  started : ∀ started ∈ job.startedAt, job.submittedAt ≤ started
  requested : ∀ requested ∈ job.cancellationRequestedAt,
    job.submittedAt ≤ requested ∧ ∀ started ∈ job.startedAt, started ≤ requested
  completed : ∀ completed ∈ job.completedAt,
    job.submittedAt ≤ completed ∧ ∀ started ∈ job.startedAt, started ≤ completed

inductive Effect (job : Job) : Command → Job → Prop
  | queue (h : job.status = .submitted) : Effect job .queue { job with status := .queued }
  | assignTo (nodeId : NodeId) (h : job.status = .queued)
    : Effect job (.assignTo nodeId) { job with assignedNodeId := some nodeId, status := .scheduled }
  | unschedule (h : job.status = .scheduled)
    : Effect job .unschedule { job with assignedNodeId := none, status := .queued }
  | start (now : Time) (h : job.status = .scheduled)
    : Effect job (.start now) { job with startedAt := some now, status := .running }
  | complete (now : Time) (exitCode : Option Int) (h : job.status = .running ∨ job.status = .cancelling)
    : Effect job (.complete now exitCode)
        { job with completedAt := some now, exitCode := exitCode, status := .completed }
  | fail (now : Time) (exitCode : Option Int)
      (h : job.status = .scheduled ∨ job.status = .running ∨ job.status = .cancelling)
    : Effect job (.fail now exitCode)
        { job with completedAt := some now, exitCode := exitCode, status := .failed }
  | cancel : Effect job .cancel { job with status := .cancelled }
  | requestCancellation (now : Time) (h : job.status = .running)
    : Effect job (.requestCancellation now)
        { job with cancellationRequestedAt := some now, status := .cancelling }
  | confirmCancelled (now : Time) (exitCode : Option Int)
    : Effect job (.confirmCancelled now exitCode)
        { job with completedAt := some now, exitCode := exitCode, status := .cancelled }
  | retry
    : Effect job .retry
        { job with
          retryCount := job.retryCount + 1
          assignedNodeId := none
          startedAt := none
          completedAt := none
          exitCode := none
          cancellationRequestedAt := none
          status := .queued }
  | finalize (now : Time)
    : Effect job (.reclaim now)
        { job with assignedNodeId := none, completedAt := some now, status := .cancelled }
  | exhaust (now : Time)
    : Effect job (.reclaim now)
        { job with assignedNodeId := none, completedAt := some now, status := .failed }
  | requeue (now : Time) (h : job.status = .scheduled ∨ job.status = .running)
    : Effect job (.reclaim now)
        { job with
          retryCount := job.retryCount + 1
          assignedNodeId := none
          startedAt := none
          completedAt := none
          exitCode := none
          status := .queued }

variable {job job' : Job}

theorem transitionTo_ok {status : JobStatus} (h : (transitionTo status).run job = .ok () job')
    : status ∈ job.status.allowedTransitions ∧ job' = { job with status := status } := by
  rw [transitionTo_run] at h
  split at h
  . next hallowed =>
    injection h with _ h
    exact ⟨hallowed, h.symm⟩
  . contradiction

theorem modify_transitionTo_ok {f : Job → Job} {status : JobStatus}
    (h : (do modify f; transitionTo status : EStateM Err Job Unit).run job = .ok () job')
    : status ∈ (f job).status.allowedTransitions ∧ job' = { f job with status := status } :=
  transitionTo_ok h

theorem recordRetry_transitionTo_ok {f : Job → Job}
    (h : (do recordRetry; modify f; transitionTo .queued : EStateM Err Job Unit).run job = .ok () job')
    : job' = { f { job with retryCount := job.retryCount + 1 } with status := .queued } := by
  simp only [EStateM.run, bind, EStateM.bind] at h
  have hrecord := recordRetry_run job
  simp only [EStateM.run] at hrecord
  rw [hrecord] at h
  cases hretry : job.canRetry with
  | true =>
    simp only [hretry, if_true] at h
    exact (modify_transitionTo_ok h).right
  | false =>
    simp only [hretry, Bool.false_eq_true, if_false] at h
    contradiction

theorem effect_unschedule (h : unschedule.run job = .ok () job') : Effect job .unschedule job' := by
  have hscheduled : job.status = .scheduled := by
    unfold unschedule at h
    simp only [EStateM.run, bind, EStateM.bind, get, getThe, MonadStateOf.get, EStateM.get] at h
    cases hscheduled : job.isScheduled with
    | true => simpa [isScheduled] using hscheduled
    | false =>
      simp only [hscheduled] at h
      contradiction
  rw [unschedule_run hscheduled] at h
  injection h with _ h
  subst h
  exact .unschedule hscheduled

theorem effect_retry (h : retry.run job = .ok () job') : Effect job .retry job' := by
  unfold retry at h
  simp only [EStateM.run, bind, EStateM.bind, get, getThe, MonadStateOf.get, EStateM.get] at h
  cases hfailed : job.isFailed with
  | true =>
    simp only [hfailed] at h
    have := recordRetry_transitionTo_ok h
    subst this
    exact .retry
  | false =>
    simp only [hfailed] at h
    contradiction

theorem effect_reclaim {now : Time} (h : (reclaim now).run job = .ok () job')
    : Effect job (.reclaim now) job' := by
  rw [reclaim_run] at h
  split at h
  . obtain ⟨_, heq⟩ := modify_transitionTo_ok h
    subst heq
    exact .finalize now
  . split at h
    . contradiction
    . next hheld =>
      split at h
      . obtain ⟨_, heq⟩ := modify_transitionTo_ok h
        subst heq
        exact .exhaust now
      . have heq := recordRetry_transitionTo_ok h
        subst heq
        apply Effect.requeue now
        simpa [isScheduled, isRunning, or_iff_not_imp_left] using hheld

theorem effect_of_run {command : Command} (hcalled : command.Called job)
    (h : command.run.run job = .ok () job') : Effect job command job' := by
  cases command with
  | queue =>
    obtain ⟨_, heq⟩ := transitionTo_ok h
    subst heq
    exact .queue hcalled
  | assignTo nodeId =>
    obtain ⟨hallowed, heq⟩ := modify_transitionTo_ok h
    subst heq
    apply Effect.assignTo
    cases hstatus : job.status <;> simp_all [JobStatus.allowedTransitions]
  | unschedule => exact effect_unschedule h
  | start now =>
    obtain ⟨hallowed, heq⟩ := modify_transitionTo_ok h
    subst heq
    apply Effect.start
    cases hstatus : job.status <;> simp_all [JobStatus.allowedTransitions]
  | complete now exitCode =>
    obtain ⟨hallowed, heq⟩ := modify_transitionTo_ok h
    subst heq
    apply Effect.complete
    cases hstatus : job.status <;> simp_all [JobStatus.allowedTransitions]
  | fail now exitCode =>
    obtain ⟨hallowed, heq⟩ := modify_transitionTo_ok h
    subst heq
    apply Effect.fail
    cases hstatus : job.status <;> simp_all [JobStatus.allowedTransitions]
  | cancel =>
    obtain ⟨_, heq⟩ := transitionTo_ok h
    subst heq
    exact .cancel
  | requestCancellation now =>
    obtain ⟨hallowed, heq⟩ := modify_transitionTo_ok h
    subst heq
    apply Effect.requestCancellation
    cases hstatus : job.status <;> simp_all [JobStatus.allowedTransitions]
  | confirmCancelled now exitCode =>
    obtain ⟨_, heq⟩ := modify_transitionTo_ok h
    subst heq
    exact .confirmCancelled now exitCode
  | recordRetry => contradiction
  | retry => exact effect_retry h
  | reclaim now => exact effect_reclaim h

def Consistent (job : Job) : Prop :=
  match job.status with
  | .submitted | .queued =>
    job.assignedNodeId = none ∧ job.startedAt = none ∧ job.completedAt = none ∧ job.exitCode = none
      ∧ job.cancellationRequestedAt = none
  | .scheduled =>
    job.assignedNodeId.isSome ∧ job.startedAt = none ∧ job.completedAt = none ∧ job.exitCode = none
      ∧ job.cancellationRequestedAt = none
  | .running =>
    job.assignedNodeId.isSome ∧ job.startedAt.isSome ∧ job.completedAt = none
      ∧ job.cancellationRequestedAt = none
  | .cancelling =>
    job.assignedNodeId.isSome ∧ job.startedAt.isSome ∧ job.completedAt = none
      ∧ job.cancellationRequestedAt.isSome
  | .completed => job.startedAt.isSome ∧ job.completedAt.isSome ∧ job.assignedNodeId.isSome
  | .failed => job.completedAt.isSome
  | .cancelled => True

theorem IsNew.consistent (h : job.IsNew) : job.Consistent := by
  simp [Consistent, h.status, h.assignedNodeId, h.startedAt, h.completedAt, h.exitCode,
    h.cancellationRequestedAt]

theorem Consistent.fieldsMatch (h : job.Consistent) : job.FieldsMatch := by
  unfold Consistent at h
  constructor <;> intro hstatus
  case running =>
    rcases hstatus with hstatus | hstatus <;> simp_all
  all_goals simp_all

theorem Consistent.step {command : Command} (h : job.Consistent) (heffect : Effect job command job')
    : job'.Consistent := by
  unfold Consistent at h
  cases heffect with
  | queue hstatus => simpa [Consistent, hstatus] using h
  | assignTo nodeId hstatus =>
    simp only [hstatus] at h
    simp [Consistent, h]
  | unschedule hstatus =>
    simp only [hstatus] at h
    simp [Consistent, h]
  | start now hstatus =>
    simp only [hstatus] at h
    simp [Consistent, h]
  | complete now exitCode hstatus =>
    rcases hstatus with hstatus | hstatus <;> simp only [hstatus] at h <;> simp [Consistent, h]
  | requestCancellation now hstatus =>
    simp only [hstatus] at h
    simp [Consistent, h]
  -- the cancellation was not requested, or `reclaim` would have finalized the job
  | requeue now hstatus =>
    rcases hstatus with hstatus | hstatus <;> simp only [hstatus] at h <;> simp [Consistent, h]
  | _ => simp [Consistent]

structure Chronological (latest : Time) (job : Job) : Prop where
  submitted : job.submittedAt ≤ latest
  started : ∀ started ∈ job.startedAt, job.submittedAt ≤ started ∧ started ≤ latest
  requested : ∀ requested ∈ job.cancellationRequestedAt,
    job.submittedAt ≤ requested ∧ ∀ started ∈ job.startedAt, started ≤ requested
  completed : ∀ completed ∈ job.completedAt,
    job.submittedAt ≤ completed ∧ ∀ started ∈ job.startedAt, started ≤ completed

variable {latest now : Time}

theorem IsNew.chronological (h : job.IsNew) : job.Chronological job.submittedAt := by
  constructor <;> simp [h.startedAt, h.completedAt, h.cancellationRequestedAt]

theorem Chronological.timesOrdered (h : job.Chronological latest) : job.TimesOrdered :=
  ⟨fun started hstarted => (h.started started hstarted).left, h.requested, h.completed⟩

theorem Chronological.mono (h : job.Chronological latest) (hle : latest ≤ now)
    : job.Chronological now := by
  refine ⟨h.submitted.trans hle, ?_, h.requested, h.completed⟩
  intro started hstarted
  have ⟨hafter, hbefore⟩ := h.started started hstarted
  exact ⟨hafter, hbefore.trans hle⟩

theorem Chronological.stamped (h : job.Chronological now)
    : job.submittedAt ≤ now ∧ ∀ started ∈ job.startedAt, started ≤ now :=
  ⟨h.submitted, fun started hstarted => (h.started started hstarted).right⟩

theorem Chronological.step {command : Command} (h : job.Chronological latest)
    (hconsistent : job.Consistent) (heffect : Effect job command job')
    (hreading : ∀ now ∈ command.reading, latest ≤ now)
    : job'.Chronological (command.reading.getD latest) := by
  have hlater : ∀ now ∈ command.reading, job.Chronological now := by
    intro now hnow
    exact h.mono (hreading now hnow)
  unfold Consistent at hconsistent
  cases heffect with
  | queue => exact ⟨h.submitted, h.started, h.requested, h.completed⟩
  | assignTo => exact ⟨h.submitted, h.started, h.requested, h.completed⟩
  | unschedule => exact ⟨h.submitted, h.started, h.requested, h.completed⟩
  | cancel => exact ⟨h.submitted, h.started, h.requested, h.completed⟩
  | start now hstatus =>
    simp only [hstatus] at hconsistent
    have h := hlater now rfl
    refine ⟨h.submitted, ?_, ?_, ?_⟩
    . simpa [Command.reading] using h.submitted
    . simp [hconsistent]
    . simp [hconsistent]
  | requestCancellation now =>
    have h := hlater now rfl
    refine ⟨h.submitted, h.started, ?_, h.completed⟩
    rintro _ ⟨⟩
    exact h.stamped
  | retry =>
    refine ⟨h.submitted, ?_, ?_, ?_⟩ <;> simp
  | requeue now hstatus =>
    have h := hlater now rfl
    refine ⟨h.submitted, ?_, ?_, ?_⟩
    . simp
    . rcases hstatus with hstatus | hstatus <;> simp only [hstatus] at hconsistent <;> simp [hconsistent]
    . simp
  | complete now | fail now | confirmCancelled now | finalize now | exhaust now =>
    have h := hlater now rfl
    refine ⟨h.submitted, h.started, h.requested, ?_⟩
    rintro _ ⟨⟩
    exact h.stamped

theorem Lives.consistent {commands : List Command} (hlives : Lives job commands job')
    (h : job.Consistent) : job'.Consistent := by
  induction hlives with
  | nil => exact h
  | cons hcalled hrun _ ih => exact ih (h.step (effect_of_run hcalled hrun))

theorem Lives.chronological {commands : List Command} (hlives : Lives job commands job')
    (hconsistent : job.Consistent) (h : job.Chronological latest)
    (hclock : (latest :: commands.filterMap Command.reading).Pairwise (· ≤ ·))
    : ∃ latest', job'.Chronological latest' := by
  induction hlives generalizing latest with
  | nil => exact ⟨latest, h⟩
  | @cons _ _ _ command commands hcalled hrun _ ih =>
    have heffect := effect_of_run hcalled hrun
    cases hreading : command.reading with
    | none =>
      have hstep := h.step hconsistent heffect (by simp [hreading])
      rw [List.filterMap_cons_none hreading] at hclock
      rw [hreading] at hstep
      exact ih (hconsistent.step heffect) hstep hclock
    | some now =>
      rw [List.filterMap_cons_some hreading] at hclock
      have ⟨hle, hrest⟩ := List.pairwise_cons.mp hclock
      have hstep := h.step hconsistent heffect (by simpa [hreading] using hle now List.mem_cons_self)
      rw [hreading] at hstep
      exact ih (hconsistent.step heffect) hstep hrest

theorem fields_match_status {commands : List Command} (hnew : job.IsNew)
    (hlives : Lives job commands job')
    : job'.FieldsMatch
        ∧ ((job.submittedAt :: commands.filterMap Command.reading).Pairwise (· ≤ ·) →
            job'.TimesOrdered) := by
  constructor
  . exact (hlives.consistent hnew.consistent).fieldsMatch
  . intro hclock
    have ⟨_, h⟩ := hlives.chronological hnew.consistent hnew.chronological hclock
    exact h.timesOrdered

def submittedJob : Job where
  id := ⟨1⟩
  resources := ⟨1, 1, 0⟩
  tenantId := ⟨0⟩
  maxRetries := 1
  submittedAt := 0
  hcpu := Nat.one_pos
  hmemory := Nat.one_pos

theorem fields_match_status_failed
    : ∃ job', Lives submittedJob
          [.queue, .assignTo ⟨1⟩, .start 1, .reclaim 2, .assignTo ⟨2⟩, .start 3, .fail 4 (some 1)] job'
        ∧ job'.status = .failed ∧ job'.FieldsMatch ∧ job'.TimesOrdered := by
  have hsecond : Lives { submittedJob with status := .queued, retryCount := 1 }
      [.assignTo ⟨2⟩, .start 3, .fail 4 (some 1)]
      { submittedJob with
        status := .failed
        retryCount := 1
        assignedNodeId := some ⟨2⟩
        startedAt := some 3
        completedAt := some 4
        exitCode := some 1 } :=
    .cons trivial rfl (.cons trivial rfl (.cons trivial rfl (.nil _)))
  have hlives : Lives submittedJob
      [.queue, .assignTo ⟨1⟩, .start 1, .reclaim 2, .assignTo ⟨2⟩, .start 3, .fail 4 (some 1)] _ :=
    .cons rfl rfl (.cons trivial rfl (.cons trivial rfl (.cons trivial rfl hsecond)))
  have ⟨hfields, htimes⟩ := fields_match_status ⟨rfl, rfl, rfl, rfl, rfl, rfl⟩ hlives
  exact ⟨_, hlives, rfl, hfields, htimes (by decide)⟩

end Job

end AetherGrid
