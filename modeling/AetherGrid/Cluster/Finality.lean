import AetherGrid.Cluster.Concurrent
import AetherGrid.Store.Reads

/-!
This module contains the final statuses of jobs while requests are served at the same time.
-/

namespace AetherGrid

open Prog Pool

def JobStatus.isFinal (status : JobStatus) : Bool :=
  match status with
  | .completed | .cancelled => true
  | _ => false

theorem JobStatus.isFinal_of_allowed {status next : JobStatus} (h : next ∈ status.allowedTransitions)
    : status.isFinal = false := by
  cases status with
  | completed => contradiction
  | cancelled => contradiction
  | _ => rfl

theorem Job.reclaim_status {job job' : Job} {now : Time} (h : (reclaim now).run job = .ok () job')
    : job'.status
        =
      if job.isCancelling then .cancelled else if job.canRetry then .queued else .failed := by
  rw [reclaim_run] at h
  split at h
  . next hcancelling =>
    rw [if_pos hcancelling]
    exact (modify_transitionTo_moves h rfl rfl rfl rfl rfl rfl (by decide)).status
  . next hcancelling =>
    rw [if_neg hcancelling]
    split at h
    . contradiction
    . split at h
      . next hretry =>
        simp only [Bool.not_eq_eq_eq_not, Bool.not_true] at hretry
        rw [hretry]
        exact (modify_transitionTo_moves h rfl rfl rfl rfl rfl rfl (by decide)).status
      . next hretry =>
        simp only [Bool.not_eq_eq_eq_not, Bool.not_true, Bool.not_eq_false] at hretry
        rw [if_pos hretry]
        refine (recordRetry_moves h ?_ ?_ ?_ ?_ ?_ ?_ ?_).status
        all_goals
          intro job
          rfl

namespace Finality

def jobsRead (env : Env) (db : DB) (c : Call) : List Job :=
  match c with
  | .getJob id tenant => (PostgresJobRepository.getById db id tenant).toList
  | .listJobs => PostgresJobRepository.listAcrossTenants env db
  | .getWorker id tenant =>
    ((PostgresWorkerRepository.getById env db id tenant).bind (·.runningJob)).toList
  | .getWorkerAcrossTenants id =>
    ((PostgresWorkerRepository.getByIdAcrossTenants env db id).bind (·.runningJob)).toList
  | .getWorkerByNode node tenant =>
    ((PostgresWorkerRepository.getByNodeId env db node tenant).bind (·.runningJob)).toList
  | .listWorkers => (PostgresWorkerRepository.listAcrossTenants env db).filterMap (·.runningJob)
  | _ => []

abbrev Seen := List (JobId × JobStatus)

def watching : Watched signature DB Env Seen where
  exec := Call.exec
  note c env db seen :=
    match c with
    | .saveJob job => (job.id, job.status) :: seen.filter (·.1 ≠ job.id)
    | c => (jobsRead env db c).map (fun job => (job.id, job.status)) ++ seen

variable {ι : Type}

def finalWhenRead (db : DB) (seen : ι → Seen) (i : ι) (c : Call) : Prop :=
  ∀ job ∈ c.savedJob, ∀ stored ∈ db.jobs.get? job.id, stored.status.isFinal →
    ∀ entry ∈ seen i, entry.1 = job.id → entry.2 = stored.status

instance (db : DB) (seen : ι → Seen) (i : ι) (c : Call) : Decidable (finalWhenRead db seen i c) :=
  inferInstanceAs (Decidable (∀ job ∈ c.savedJob, ∀ stored ∈ db.jobs.get? job.id,
    stored.status.isFinal → ∀ entry ∈ seen i, entry.1 = job.id → entry.2 = stored.status))

def Backed (seen : Seen) (job : Job) : Prop :=
  ∃ status, (job.id, status) ∈ seen ∧ (status.isFinal → job.status = status)

def backs (seen : Seen) (c : Call) : Prop :=
  ∀ job ∈ c.savedJob, Backed seen job

theorem final_of_exec {db : DB} {seen : ι → Seen} {i : ι} {c : Call} {env : Env}
    (hbacks : backs (seen i) c) (hcall : finalWhenRead db seen i c) {id : JobId} {job : Job}
    (hjob : db.jobs.get? id = some job) (hfinal : job.status.isFinal)
    : ∃ job', (c.exec env db).2.jobs.get? id = some job' ∧ job'.status = job.status := by
  rcases (Call.writes_exec env db c).get?_job hjob with ⟨saved, rfl, rfl, hsaved⟩ | hsame | hcleared
  . have ⟨status, hstatus, hkept⟩ := hbacks saved rfl
    have heq : status = job.status := hcall saved rfl job hjob hfinal _ hstatus rfl
    refine ⟨saved, hsaved, ?_⟩
    rw [← heq]
    apply hkept
    rw [heq]
    exact hfinal
  . exact ⟨job, hsame, rfl⟩
  . exact ⟨_, hcleared, rfl⟩

variable [DecidableEq ι]

def protocol : Protocol watching (finalWhenRead (ι := ι)) where
  inv _ _ := True
  met _ := True
  guard _ := backs
  hmet _ _ _ _ := trivial
  hstep _ _ _ _ _ _ _ _ := trivial

section programs

variable {H : DB × Env → Prop} {seen : Seen} {job job' : Job}

theorem backed_of_moves {next : JobStatus} {assigned : Option NodeId}
    (hseen : (job.id, job.status) ∈ seen) (hmoves : job.Moves job' next assigned)
    : Backed seen job' := by
  refine ⟨job.status, ?_, ?_⟩
  . rw [hmoves.id]
    exact hseen
  . rw [JobStatus.isFinal_of_allowed hmoves.allowed]
    intro h
    contradiction

theorem Backed.mono {seen' : Seen} (h : Backed seen job) (hsub : seen ⊆ seen') : Backed seen' job := by
  have ⟨status, hstatus, hkept⟩ := h
  exact ⟨status, hsub hstatus, hkept⟩

theorem wp_saveJob {Q : Except Err Unit → Seen → Prop} (h : Backed seen job)
    (hQ : ∀ r, Q r ((job.id, job.status) :: seen.filter (·.1 ≠ job.id)))
    : wp watching.view H backs (JobRepository.save job) Q seen := by
  refine ⟨?_, ?_⟩
  . intro saved hsaved
    injection hsaved with hsaved
    rw [← hsaved]
    exact h
  . intro x _
    rw [wp_ofExcept]
    apply hQ

abbrev savesNoJob (c : Call) : Prop :=
  c.savedJob = none

theorem backs_of_none {c : Call} (h : savesNoJob c) : backs seen c := by
  intro job hjob
  rw [h] at hjob
  contradiction

theorem note_of_none {c : Call} (h : savesNoJob c) (env : Env) (db : DB) (seen : Seen)
    : watching.note c env db seen
        =
      (jobsRead env db c).map (fun job => (job.id, job.status)) ++ seen := by
  cases c with
  | saveJob job => contradiction
  | _ => rfl

theorem wp_savesNone {α : Type} {p : Service α} {Q : Except Err α → Seen → Prop}
    (hp : Makes savesNoJob p) (hQ : ∀ r seen', seen ⊆ seen' → Q r seen')
    : wp watching.view H backs p Q seen := by
  apply wp_of_makes (seen ⊆ ·) ?_ ?_ hp hQ (List.Subset.refl _)
  . intro _ _ _ hc
    exact backs_of_none hc
  . intro seen' c x hsub hc _
    have hnote : (watching.view.exec c x seen').2
        = (jobsRead x.2 x.1 c).map (fun job => (job.id, job.status)) ++ seen' :=
      note_of_none hc x.2 x.1 seen'
    rw [hnote]
    exact List.Subset.trans hsub (List.subset_append_right _ _)

theorem wp_read {α : Type} {c : Call} {f : c.Res → Service α} {Q : Except Err α → Seen → Prop}
    (hc : savesNoJob c)
    (h : ∀ env db seen', seen ⊆ seen' → (∀ job ∈ jobsRead env db c, (job.id, job.status) ∈ seen') →
      wp watching.view H backs (f (c.exec env db).1) Q seen')
    : wp watching.view H backs (perform c >>= f) Q seen := by
  refine ⟨backs_of_none hc, ?_⟩
  intro x _
  have hnote : (watching.view.exec c x seen).2
      = (jobsRead x.2 x.1 c).map (fun job => (job.id, job.status)) ++ seen :=
    note_of_none hc x.2 x.1 seen
  apply h x.2 x.1
  . rw [hnote]
    exact List.subset_append_right _ _
  . intro job hjob
    rw [hnote]
    apply List.mem_append_left
    exact List.mem_map.mpr ⟨job, hjob, rfl⟩

theorem savesNoJob_of_isRead (c : Call) (hc : c.isRead) : savesNoJob c := by
  cases c with
  | saveJob job => contradiction
  | _ => rfl

theorem wp_getOwningWorker {workerId : WorkerId} {jobId : JobId} {tenantId : TenantId}
    {Q : Except Err (Worker × Job) → Seen → Prop} (herror : ∀ e seen', Q (.error e) seen')
    (hok : ∀ worker job seen', worker.runningJob = some job → job.id = jobId →
      (job.id, job.status) ∈ seen' → Q (.ok (worker, job)) seen')
    : wp watching.view H backs (getOwningWorker workerId jobId tenantId) Q seen := by
  apply view_getOwningWorker (backs_of_none rfl) (fun _ _ _ => herror _ _)
  intro db env _ worker job hrunning hid hanswer
  apply hok worker job _ hrunning hid
  apply List.mem_append_left
  apply List.mem_map.mpr
  refine ⟨job, ?_, rfl⟩
  have hanswer : PostgresWorkerRepository.getById env db workerId tenantId = some worker := hanswer
  simp [jobsRead, hanswer, hrunning]

theorem always_startJob (workerId : WorkerId) (jobId : JobId) (tenantId : TenantId)
    : Always watching.view H backs (startJob workerId jobId tenantId) := by
  intro seen
  unfold startJob
  rw [wp_bind]
  apply wp_getOwningWorker
  . exact fun _ _ => trivial
  . intro worker job seen hrunning _ hseen
    apply wp_read (by rfl)
    intro env db seen' hsub _
    rw [wp_bind, wp_runCommand]
    cases hrun : (Worker.start (Call.utcNow.exec env db).1).run worker with
    | error e _ => trivial
    | ok job' worker' =>
      have ⟨job0, hjob0, hstart, _⟩ := Worker.onRunningJob_ok hrun
      rw [hrunning] at hjob0
      injection hjob0 with hjob0
      subst hjob0
      have hbacked := backed_of_moves (hsub hseen) (Job.start_moves hstart)
      apply wp_seq (fun _ _ => trivial)
      apply wp_savesNone (.call (by rfl))
      rintro r seen'' hsub' a rfl
      apply wp_seq (fun _ _ => trivial)
      apply wp_saveJob (hbacked.mono hsub')
      exact fun _ _ _ => trivial

theorem wp_getJob {α : Type} {id : JobId} {tenant : TenantId} {f : Option Job → Service α}
    {Q : Except Err α → Seen → Prop}
    (hnone : ∀ seen', wp watching.view H backs (f none) Q seen')
    (hsome : ∀ job seen', job.id = id → seen ⊆ seen' → (job.id, job.status) ∈ seen' →
      wp watching.view H backs (f (some job)) Q seen')
    : wp watching.view H backs (JobRepository.getById id tenant >>= f) Q seen := by
  apply wp_read (by rfl)
  intro env db seen' hsub hread
  have hexec : ((Call.getJob id tenant).exec env db).1 = PostgresJobRepository.getById db id tenant := rfl
  rw [hexec]
  cases hjob : PostgresJobRepository.getById db id tenant with
  | none => exact hnone seen'
  | some job =>
    apply hsome job seen' _ hsub
    . apply hread
      simp [jobsRead, hjob]
    . exact Table.key_of_get? (PostgresJobRepository.getById_eq_some hjob).left

theorem always_cancelJob (jobId : JobId) (tenantId : TenantId)
    : Always watching.view H backs (cancelJob jobId tenantId) := by
  intro seen
  unfold cancelJob
  apply wp_getJob
  . exact fun _ => trivial
  . intro job seen _ _ hseen
    have hsave : ∀ job' seen', Backed seen' job' → wp watching.view H backs
        (do
          JobRepository.save job'
          return some job') (fun _ _ => True) seen' := by
      intro job' seen' hbacked
      apply wp_seq (fun _ _ => trivial)
      apply wp_saveJob hbacked
      exact fun _ _ _ => trivial
    dsimp only
    split
    . apply wp_read (by rfl)
      intro env db seen' hsub _
      rw [wp_bind, wp_runCommand]
      cases hrun : (Job.requestCancellation (Call.utcNow.exec env db).1).run job with
      | error e _ => trivial
      | ok _ job' =>
        apply hsave
        exact backed_of_moves (hsub hseen) (Job.requestCancellation_moves hrun)
    . split
      . rw [wp_bind, wp_runCommand]
        cases hrun : Job.cancel.run job with
        | error e _ => trivial
        | ok _ job' =>
          apply hsave
          exact backed_of_moves hseen (Job.cancel_moves hrun)
      . apply hsave
        exact ⟨job.status, hseen, fun _ => rfl⟩

theorem always_retryJob (jobId : JobId) (tenantId : TenantId)
    : Always watching.view H backs (retryJob jobId tenantId) := by
  intro seen
  unfold retryJob
  apply wp_getJob
  . exact fun _ => trivial
  . intro job seen _ _ hseen
    dsimp only
    split
    . trivial
    . split
      . trivial
      . rw [wp_bind, wp_runCommand]
        cases hrun : Job.retry.run job with
        | error e _ => trivial
        | ok _ job' =>
          apply wp_seq (fun _ _ => trivial)
          apply wp_saveJob (backed_of_moves hseen (Job.retry_moves hrun))
          exact fun _ _ _ => trivial

theorem always_report (outcome : ReportJobOutcome.Outcome) (workerId : WorkerId) (jobId : JobId)
    (tenantId : TenantId) (leaseId : LeaseId) (exitCode : Option Int)
    : Always watching.view H backs
        (ReportJobOutcome.report outcome workerId jobId tenantId leaseId exitCode) := by
  intro seen
  have herror : ∀ (e : Err) (seen' : Seen), True := fun _ _ => trivial
  apply view_report (backs_of_none rfl) (fun _ => backs_of_none rfl) (fun _ _ _ => rfl)
    (fun _ _ _ => trivial)
  intro db env _ worker job job' next hanswer hrunning hid hmoves _ _
  have hseen : (job.id, job.status)
      ∈ watching.note (.getWorker workerId tenantId) env db seen := by
    apply List.mem_append_left
    apply List.mem_map.mpr
    refine ⟨job, ?_, rfl⟩
    have hanswer : PostgresWorkerRepository.getById env db workerId tenantId = some worker := hanswer
    simp [jobsRead, hanswer, hrunning]
  have hbacked := backed_of_moves hseen hmoves
  unfold ReportJobOutcome.finish
  apply wp_seq herror
  apply wp_savesNone (makes_releaseLease savesNoJob_of_isRead (fun _ _ _ => rfl) (fun _ _ => rfl) _ _ _)
  rintro r seen1 hsub1 a rfl
  apply wp_seq herror
  apply wp_savesNone (.call (by rfl))
  rintro r seen2 hsub2 a rfl
  apply wp_seq herror
  apply wp_savesNone (makes_releaseNode savesNoJob_of_isRead (fun _ => rfl) _ _)
  rintro r seen3 hsub3 a rfl
  apply wp_seq herror
  apply wp_saveJob (hbacked.mono (List.Subset.trans hsub1 (List.Subset.trans hsub2 hsub3)))
  rintro r a rfl
  apply wp_seq herror
  apply wp_savesNone (.call (by rfl))
  exact fun _ _ _ _ _ => trivial

def Open (seen : Seen) (id : JobId) : Prop :=
  ∃ status, (id, status) ∈ seen ∧ status.isFinal = false

theorem Open.mono {seen' : Seen} {id : JobId} (h : Open seen id) (hsub : seen ⊆ seen')
    : Open seen' id := by
  have ⟨status, hstatus, hopen⟩ := h
  exact ⟨status, hsub hstatus, hopen⟩

theorem Open.backed (h : Open seen job.id) : Backed seen job := by
  have ⟨status, hstatus, hopen⟩ := h
  refine ⟨status, hstatus, ?_⟩
  rw [hopen]
  intro hfinal
  contradiction

theorem wp_begin (workerId : WorkerId)
    : wp watching.view H backs (WorkerExecutionLoop.begin workerId)
        (fun r seen' => ∀ execution, r = .ok (some execution) → Open seen' execution.job.id) seen := by
  unfold WorkerExecutionLoop.begin
  apply wp_read (by rfl)
  intro env db seen hsub hread
  have hexec : ((Call.getWorkerAcrossTenants workerId).exec env db).1
      = PostgresWorkerRepository.getByIdAcrossTenants env db workerId := rfl
  rw [hexec]
  cases hworker : PostgresWorkerRepository.getByIdAcrossTenants env db workerId with
  | none =>
    intro execution h
    contradiction
  | some worker =>
    dsimp only
    cases hrunning : worker.runningJob with
    | none =>
      intro execution h
      injection h with h
      contradiction
    | some job =>
      have hseen : (job.id, job.status) ∈ seen := by
        apply hread
        simp [jobsRead, hworker, hrunning]
      apply wp_read (by rfl)
      intro env db seen' hsub' _
      split
      . intro execution h
        contradiction
      . split
        . next hisRunning =>
          intro execution h
          injection h with h
          injection h with h
          rw [← h]
          simp only [Job.isRunning, decide_eq_true_eq] at hisRunning
          refine ⟨job.status, hsub' hseen, ?_⟩
          rw [hisRunning]
          rfl
        . apply wp_read (by rfl)
          intro env db seen'' hsub'' _
          rw [wp_bind, wp_runCommand]
          cases hrun : (Worker.start (Call.utcNow.exec env db).1).run worker with
          | error e _ =>
            intro execution h
            contradiction
          | ok job' worker' =>
            obtain ⟨job0, hjob0, hstart, _⟩ := Worker.onRunningJob_ok hrun
            rw [hrunning] at hjob0
            injection hjob0 with hjob0
            subst hjob0
            have hmoves := Job.start_moves hstart
            have hbacked := backed_of_moves (hsub'' (hsub' hseen)) hmoves
            dsimp only
            rw [wp_bind]
            apply wp_saveJob hbacked
            intro r
            cases r with
            | error e =>
              intro execution h
              contradiction
            | ok _ =>
              intro execution h
              injection h with h
              injection h with h
              rw [← h]
              refine ⟨job'.status, List.mem_cons_self, ?_⟩
              rw [hmoves.status]
              rfl

def Continues (seen : Seen) (execution : Execution) (r : Except Err Execution) (seen' : Seen) : Prop :=
  seen ⊆ seen' ∧ ∀ execution', r = .ok execution' → execution'.job.id = execution.job.id

theorem continues_of_ok {execution execution' : Execution} {seen' : Seen} (hsub : seen ⊆ seen')
    (hid : execution'.job.id = execution.job.id) : Continues seen execution (.ok execution') seen' := by
  refine ⟨hsub, ?_⟩
  intro other h
  injection h with h
  rw [← h]
  exact hid

theorem wp_keepLeaseAlive (execution : Execution)
    : wp watching.view H backs (WorkerExecutionLoop.keepLeaseAlive execution)
        (Continues seen execution) seen := by
  apply WorkerExecutionLoop.wp_keepLeaseAlive_of (seen ⊆ ·) (List.Subset.refl _)
  . intro c seen' hc hsub
    have hnone : savesNoJob c := by
      cases c <;> first | rfl | contradiction
    refine ⟨backs_of_none hnone, fun x _ => ?_⟩
    have hnote : (watching.view.exec c x seen').2
        = (jobsRead x.2 x.1 c).map (fun job => (job.id, job.status)) ++ seen' :=
      note_of_none hnone x.2 x.1 seen'
    rw [hnote]
    exact List.Subset.trans hsub (List.subset_append_right _ _)
  . exact wp_savesNone (makes_renewLease savesNoJob_of_isRead (fun _ _ _ => rfl) _ _ _ _)
      (fun _ _ hsub => hsub)
  . intro execution' seen' hsub hsame
    exact continues_of_ok hsub hsame.jobId

theorem wp_renewals (n : Nat) (execution : Execution)
    : wp watching.view H backs (WorkerExecutionLoop.renewals n execution)
        (Continues seen execution) seen := by
  induction n generalizing seen execution with
  | zero => exact continues_of_ok (List.Subset.refl _) rfl
  | succ n ih =>
    unfold WorkerExecutionLoop.renewals
    rw [wp_bind]
    apply wp_mono (wp_keepLeaseAlive execution)
    intro r seen' ⟨hsub, hid⟩
    cases r with
    | error e =>
      refine ⟨hsub, ?_⟩
      intro execution' h
      contradiction
    | ok execution' =>
      apply wp_mono (ih execution')
      intro r seen'' ⟨hsub', hid'⟩
      refine ⟨List.Subset.trans hsub hsub', ?_⟩
      intro execution'' h
      rw [hid' execution'' h, hid execution' rfl]

theorem wp_recordOutcome {execution : Execution} {result : JobExecutionResult} {now : Time}
    {Q : Except Err (Job × Worker) → Seen → Prop} (herror : ∀ e seen', Q (.error e) seen')
    (hok : ∀ job worker seen', seen ⊆ seen' → job.id = execution.job.id → Q (.ok (job, worker)) seen')
    : wp watching.view H backs (WorkerExecutionLoop.recordOutcome execution result now) Q seen := by
  apply WorkerExecutionLoop.wp_recordOutcome_of (fun e => herror e seen)
  intro job' hmoves
  apply wp_savesNone (.call (by rfl))
  intro r seen' hsub
  cases r with
  | error e => exact herror e seen'
  | ok _ => exact hok job' _ seen' hsub hmoves.id

theorem keepCancellationRequest_id (job : Job) (current : Option Job)
    : (WorkerExecutionLoop.keepCancellationRequest job current).id = job.id := by
  unfold WorkerExecutionLoop.keepCancellationRequest
  cases current with
  | none => rfl
  | some current =>
    dsimp only
    split <;> rfl

theorem wp_finish {execution : Execution} (hopen : Open seen execution.job.id)
    (result : JobExecutionResult)
    : wp watching.view H backs (WorkerExecutionLoop.finish execution result) (fun _ _ => True) seen := by
  have herror : ∀ (e : Err) (seen' : Seen), True := fun _ _ => trivial
  unfold WorkerExecutionLoop.finish
  split
  . trivial
  . apply wp_read (by rfl)
    intro env db seen1 hsub1 _
    rw [wp_bind]
    apply wp_recordOutcome herror
    intro job worker seen2 hsub2 hid
    apply wp_seq herror
    apply wp_savesNone
      (makes_releaseLease savesNoJob_of_isRead (fun _ _ _ => rfl) (fun _ _ => rfl) _ _ _)
    rintro r seen3 hsub3 a rfl
    apply wp_seq herror
    apply wp_savesNone (.call (by rfl))
    rintro r seen4 hsub4 a rfl
    apply wp_seq herror
    apply wp_savesNone (makes_releaseNode savesNoJob_of_isRead (fun _ => rfl) _ _)
    rintro r seen5 hsub5 a rfl
    apply wp_read (by rfl)
    intro env db seen6 hsub6 _
    apply wp_saveJob
    . apply Open.backed
      rw [keepCancellationRequest_id, hid]
      exact (((((hopen.mono hsub1).mono hsub2).mono hsub3).mono hsub4).mono hsub5).mono hsub6
    . exact fun _ => trivial

theorem always_execution (workerId : WorkerId) (n : Nat) (result : JobExecutionResult)
    : Always watching.view H backs (WorkerExecutionLoop.execute workerId n result) := by
  intro seen
  unfold WorkerExecutionLoop.execute
  rw [wp_bind]
  apply wp_mono (wp_begin workerId)
  intro r seen' hopen
  cases r with
  | error e => trivial
  | ok started =>
    cases started with
    | none => trivial
    | some execution =>
      dsimp only
      rw [wp_bind]
      apply wp_mono (wp_renewals n execution)
      intro r seen'' ⟨hsub, hid⟩
      cases r with
      | error e => trivial
      | ok execution' =>
        apply wp_finish
        rw [hid execution' rfl]
        exact (hopen execution rfl).mono hsub

def KeepsOthers (seen : Seen) (id : JobId) (seen' : Seen) : Prop :=
  ∀ entry ∈ seen, entry.1 ≠ id → entry ∈ seen'

theorem KeepsOthers.trans {seen' seen'' : Seen} {id : JobId} (h : KeepsOthers seen id seen')
    (h' : KeepsOthers seen' id seen'') : KeepsOthers seen id seen'' :=
  fun entry hentry hne => h' entry (h entry hentry hne) hne

theorem keepsOthers_of_subset {seen' : Seen} {id : JobId} (h : seen ⊆ seen')
    : KeepsOthers seen id seen' :=
  fun _ hentry _ => h hentry

theorem keepsOthers_saved (seen : Seen) (job : Job)
    : KeepsOthers seen job.id ((job.id, job.status) :: seen.filter (·.1 ≠ job.id)) := by
  intro entry hentry hne
  apply List.mem_cons_of_mem
  rw [List.mem_filter]
  exact ⟨hentry, by simpa using hne⟩

theorem wp_unschedule {node : Node} {Q : Except Err Node → Seen → Prop}
    (hseen : (job.id, job.status) ∈ seen) (herror : ∀ e seen', Q (.error e) seen')
    (hok : ∀ node seen', KeepsOthers seen job.id seen' → Q (.ok node) seen')
    : wp watching.view H backs (SchedulerLoop.unschedule job node) Q seen := by
  unfold SchedulerLoop.unschedule
  simp only [plainRelease_bind]
  rw [wp_bind, wp_runCommand]
  cases hrun : Job.unschedule.run job with
  | error e _ => exact herror _ _
  | ok _ job' =>
    have hmoves : job.Moves job' .queued none := Job.unschedule_moves hrun
    dsimp only
    apply wp_seq herror
    apply wp_savesNone (.call (by rfl))
    rintro r seen1 hsub1 a rfl
    apply wp_seq herror
    apply wp_saveJob (backed_of_moves (hsub1 hseen) hmoves)
    rintro r a rfl
    apply wp_seq herror
    apply wp_savesNone (.call (by rfl))
    rintro r seen2 hsub2 a rfl
    apply hok
    rw [← hmoves.id]
    exact (keepsOthers_of_subset hsub1).trans
      ((keepsOthers_saved seen1 job').trans (keepsOthers_of_subset hsub2))

theorem wp_place {now : NodeId → Time} {nodes : List Node} {Q : Except Err (List Node) → Seen → Prop}
    (hseen : (job.id, job.status) ∈ seen) (herror : ∀ e seen', Q (.error e) seen')
    (hok : ∀ nodes seen', KeepsOthers seen job.id seen' → Q (.ok nodes) seen')
    : wp watching.view H backs (SchedulerLoop.place now nodes job) Q seen := by
  unfold SchedulerLoop.place
  cases Scheduler.selectNode now job nodes with
  | none => exact hok _ _ (fun _ hentry _ => hentry)
  | some node =>
    apply wp_seq herror
    rw [wp_ofExcept]
    intro allocated _
    rw [wp_bind, wp_runCommand]
    cases hrun : (Job.assignTo allocated.id).run job with
    | error e _ => exact herror _ _
    | ok _ job' =>
      have hmoves := Job.assignTo_moves hrun
      dsimp only
      apply wp_seq herror
      apply wp_savesNone (.call (by rfl))
      rintro r seen1 hsub1 a rfl
      apply wp_seq herror
      apply wp_saveJob (backed_of_moves (hsub1 hseen) hmoves)
      rintro r a rfl
      apply wp_seq herror
      apply wp_savesNone (.call (by rfl))
      rintro r seen2 hsub2 a rfl
      have hothers : KeepsOthers seen job.id seen2 := by
        rw [← hmoves.id]
        exact (keepsOthers_of_subset hsub1).trans
          ((keepsOthers_saved seen1 job').trans (keepsOthers_of_subset hsub2))
      rw [wp_bind, wp_catching, wp_bind]
      apply wp_savesNone
        (makes_assignWorker savesNoJob_of_isRead (fun _ _ _ => rfl) rfl (fun _ => rfl) (fun _ => rfl) _)
      intro r seen3 hsub3
      cases r with
      | ok _ => exact hok _ _ (hothers.trans (keepsOthers_of_subset hsub3))
      | error e =>
        dsimp only
        split
        . apply wp_unschedule (hsub3 (hsub2 List.mem_cons_self))
          . exact herror
          . intro node seen4 hothers'
            rw [hmoves.id] at hothers'
            exact hok _ _ ((hothers.trans (keepsOthers_of_subset hsub3)).trans hothers')
        . exact herror _ _

theorem always_schedulerTick : Always watching.view H backs SchedulerLoop.execute := by
  intro seen
  unfold SchedulerLoop.execute
  apply wp_read (by rfl)
  intro env db seen1 _ _
  apply wp_read (by rfl)
  intro env db seen2 _ hread
  have hpending := SchedulerLoop.pending_inPriorityOrder env db
  rw [wp_bind]
  -- the jobs still to be visited were read with the list, and no visit saves another job
  apply wp_foldlM (fun jobs _ seen => (jobs.map (·.id)).Nodup
    ∧ ∀ job ∈ jobs, (job.id, job.status) ∈ seen)
  . refine ⟨hpending.nodup, ?_⟩
    intro job hjob
    apply hread
    have := Table.mem_of_get? (hpending.stored job hjob)
    exact (env.jobOrder.hperm _).mem_iff.mpr this
  . intro job jobs nodes seen ⟨hnodup, hseen⟩
    rw [List.map_cons, List.nodup_cons] at hnodup
    unfold SchedulerLoop.visit
    apply wp_read (by rfl)
    intro env db seen' hsub _
    apply wp_place (hsub (hseen job List.mem_cons_self))
    . exact fun _ _ => trivial
    . intro nodes' seen'' hothers
      refine ⟨hnodup.right, ?_⟩
      intro other hother
      apply hothers _ (hsub (hseen other (List.mem_cons_of_mem _ hother)))
      intro heq
      apply hnodup.left
      rw [← heq]
      exact List.mem_map_of_mem hother
  . exact fun _ _ _ => trivial

theorem wp_reclaimJob {node : Option Node} {deleted : Bool} {Q : Except Err Bool → Seen → Prop}
    (hbacked : ∀ now job', (Job.reclaim now).run job = .ok () job' → Backed seen job')
    (hleft : ∀ seen', seen ⊆ seen' → Q (.ok false) seen')
    (hsaved : ∀ now job' seen', (Job.reclaim now).run job = .ok () job' → seen ⊆ seen' →
      Q (.ok true) ((job'.id, job'.status) :: seen'.filter (·.1 ≠ job'.id)))
    (herror : ∀ e seen', Q (.error e) seen')
    : wp watching.view H backs (reclaimJob job node deleted) Q seen := by
  apply view_reclaimJob (seen ⊆ ·) (seen ⊆ ·)
  . exact fun _ => List.Subset.refl _
  . intro _
    exact ⟨backs_of_none rfl, fun _ _ => List.Subset.refl _⟩
  . exact fun _ hsub => hsub
  . intro seen' node hsub
    exact ⟨backs_of_none rfl, fun _ _ => hsub⟩
  . exact fun _ => backs_of_none rfl
  . exact fun _ _ _ => rfl
  . intro seen' now job' hsub hrun
    refine ⟨?_, ?_⟩
    . intro saved hsaved
      injection hsaved with hsaved
      rw [← hsaved]
      exact (hbacked now job' hrun).mono hsub
    . intro db env
      exact hsaved now job' seen' hrun hsub
  . exact hleft
  . exact herror

theorem backed_of_reclaim (hseen : (job.id, job.status) ∈ seen) (now : Time) (job' : Job)
    (h : (Job.reclaim now).run job = .ok () job') : Backed seen job' := by
  have ⟨_, _, hmoves⟩ := Job.reclaim_moves h
  exact backed_of_moves hseen hmoves

theorem always_createWorker (node : Node) (managedBy : WorkerManagement)
    : Always watching.view H backs (createWorker node managedBy) := by
  intro seen
  have herror : ∀ (e : Err) (seen' : Seen), True := fun _ _ => trivial
  unfold createWorker
  apply wp_read (by rfl)
  intro env db seen _ hread
  have hexec : ((Call.getWorkerByNode node.id node.tenantId).exec env db).1
      = PostgresWorkerRepository.getByNodeId env db node.id node.tenantId := rfl
  rw [hexec]
  cases hworker : PostgresWorkerRepository.getByNodeId env db node.id node.tenantId with
  | none =>
    apply wp_savesNone
    . apply Makes.bind (.perform (by rfl))
      intro id
      apply Makes.bind (.perform (by rfl))
      intro now
      exact .bind (.call (by rfl)) (fun _ => .pure _)
    . exact fun _ _ _ => trivial
  | some existing =>
    have hsave : ∀ (existing : Worker) seen, wp watching.view H backs
        (do
          WorkerRepository.save existing
          return existing) (fun _ _ => True) seen := by
      intro existing seen
      apply wp_savesNone (.bind (.call (by rfl)) (fun _ => .pure _))
      exact fun _ _ _ => trivial
    dsimp only
    cases hrunning : existing.runningJob with
    | none => exact hsave _ seen
    | some job =>
      have hseen : (job.id, job.status) ∈ seen := by
        apply hread
        simp [jobsRead, hworker, hrunning]
      dsimp only
      rw [wp_bind]
      apply wp_reclaimJob (backed_of_reclaim hseen)
      . exact fun seen' _ => hsave _ seen'
      . exact fun _ _ seen' _ _ => hsave _ _
      . exact herror

theorem always_postWorkers (nodeId : NodeId) (tenantId : TenantId) (managedBy : WorkerManagement)
    : Always watching.view H backs (postWorkers nodeId tenantId managedBy) := by
  unfold postWorkers
  apply Always.bind (.perform (fun _ => backs_of_none rfl))
  intro node
  cases node with
  | none => exact .raise _
  | some node =>
    apply Always.bind (always_createWorker node managedBy)
    intro worker seen
    unfold registerWorker
    apply wp_savesNone
    . apply Makes.bind (.call (by rfl))
      intro _
      apply Makes.bind (.perform (by rfl))
      intro stored
      cases stored <;> trivial
    . exact fun _ _ _ => trivial

theorem wp_reclaimRecord {node : Option Node} {deleted : Bool} {type : EventType}
    {Q : Except Err PUnit → Seen → Prop}
    (hbacked : ∀ now job', (Job.reclaim now).run job = .ok () job' → Backed seen job')
    (hleft : ∀ seen', seen ⊆ seen' → Q (.ok ⟨⟩) seen')
    (hsaved : ∀ now job' seen' seen'', (Job.reclaim now).run job = .ok () job' → seen ⊆ seen' →
      (job'.id, job'.status) :: seen'.filter (·.1 ≠ job'.id) ⊆ seen'' → Q (.ok ⟨⟩) seen'')
    (herror : ∀ e seen', Q (.error e) seen')
    : wp watching.view H backs
        (do
          let reclaimed ← reclaimJob job node deleted
          if reclaimed then
            RecordJobEventsService.recordForJob job type) Q seen := by
  rw [wp_bind]
  apply wp_reclaimJob hbacked
  . intro seen' hsub
    exact hleft seen' hsub
  . intro now job' seen' hrun hsub
    apply wp_savesNone (.call (by rfl))
    intro r seen'' hsub'
    cases r with
    | ok _ => exact hsaved now job' seen' seen'' hrun hsub hsub'
    | error e => exact herror _ _
  . exact herror

theorem always_recoverExpired (lease : Lease)
    : Always watching.view H backs (RecoverExpiredLease.recover lease) := by
  intro seen
  have herror : ∀ (e : Err) (seen' : Seen), True := fun _ _ => trivial
  have hworker : ∀ worker, Makes savesNoJob (RecoverExpiredLease.recoverWorker worker) := by
    intro worker
    unfold RecoverExpiredLease.recoverWorker
    cases worker with
    | none => trivial
    | some worker => exact .call (by rfl)
  unfold RecoverExpiredLease.recover
  apply wp_read (by rfl)
  intro env db seen _ _
  split
  . trivial
  . apply wp_read (by rfl)
    intro env db seen _ _
    split
    . trivial
    . apply wp_read (by rfl)
      intro env db seen _ _
      apply wp_getJob
      . intro seen
        apply wp_savesNone (hworker _)
        exact fun _ _ _ => trivial
      . intro job seen _ _ hseen
        apply wp_seq herror
        apply wp_savesNone (hworker _)
        rintro r seen1 hsub1 a rfl
        unfold RecoverExpiredLease.reclaim RecoverExpiredLease.findNode
        have hrecord : ∀ node seen2, seen1 ⊆ seen2 → wp watching.view H backs
            (do
              let reclaimed ← reclaimJob job node true
              if reclaimed then
                RecordJobEventsService.recordForJob job
                  (if job.isCancelling then .jobCancelled else .jobReclaimed))
            (fun _ _ => True) seen2 := by
          intro node seen2 hsub2
          apply wp_reclaimRecord (backed_of_reclaim (hsub2 (hsub1 hseen)))
          . exact fun _ _ => trivial
          . exact fun _ _ _ _ _ _ _ => trivial
          . exact herror
        cases job.assignedNodeId with
        | none => exact hrecord none seen1 (List.Subset.refl _)
        | some nodeId =>
          apply wp_read (by rfl)
          intro env db seen2 hsub2 _
          exact hrecord _ seen2 hsub2

structure Snapshot (jobs : Table JobId Job Job.id) (workers : List Worker) (seen : Seen) : Prop where
  row : ∀ worker ∈ workers, ∀ job, worker.runningJob = some job → jobs.get? job.id = some job
  backed : ∀ worker ∈ workers, ∀ job, worker.runningJob = some job →
    ∀ now job', (Job.reclaim now).run job = .ok () job' → Backed seen job'

variable {jobs : Table JobId Job Job.id} {worker : Worker} {workers : List Worker}

theorem Snapshot.tail (h : Snapshot jobs (worker :: workers) seen) : Snapshot jobs workers seen where
  row other hother := h.row other (List.mem_cons_of_mem _ hother)
  backed other hother := h.backed other (List.mem_cons_of_mem _ hother)

theorem Snapshot.mono {seen' : Seen} (h : Snapshot jobs workers seen) (hsub : seen ⊆ seen')
    : Snapshot jobs workers seen' where
  row := h.row
  backed other hother job hjob now job' hrun := (h.backed other hother job hjob now job' hrun).mono hsub

theorem Snapshot.saved {now : Time} (h : Snapshot jobs workers seen)
    (hjob : jobs.get? job.id = some job) (hrun : (Job.reclaim now).run job = .ok () job')
    : Snapshot jobs workers ((job'.id, job'.status) :: seen.filter (·.1 ≠ job'.id)) := by
  have ⟨_, _, hmoves⟩ := Job.reclaim_moves hrun
  refine ⟨h.row, ?_⟩
  intro other hother otherJob hotherJob otherNow saved hsaved
  have ⟨_, _, hmoves'⟩ := Job.reclaim_moves hsaved
  by_cases hid : otherJob.id = job.id
  . have hsame := h.row other hother otherJob hotherJob
    rw [hid, hjob] at hsame
    injection hsame with hsame
    subst hsame
    refine ⟨job'.status, ?_, ?_⟩
    . rw [hmoves'.id, hmoves.id]
      exact List.mem_cons_self
    . intro _
      rw [Job.reclaim_status hsaved, Job.reclaim_status hrun]
  . have ⟨status, hstatus, hkept⟩ := h.backed other hother otherJob hotherJob otherNow saved hsaved
    refine ⟨status, ?_, hkept⟩
    apply keepsOthers_saved seen job' _ hstatus
    rw [hmoves'.id, hmoves.id]
    exact hid

theorem wp_reclaimOffline {deleted : Bool} {Q : Except Err PUnit → Seen → Prop}
    (h : Snapshot jobs (worker :: workers) seen) (hrunning : worker.runningJob = some job)
    (hok : ∀ seen', Snapshot jobs workers seen' → Q (.ok ⟨⟩) seen')
    (herror : ∀ e seen', Q (.error e) seen')
    : wp watching.view H backs (RecoverOfflineNode.reclaim worker job deleted) Q seen := by
  unfold RecoverOfflineNode.reclaim
  apply wp_seq herror
  apply wp_savesNone (.call (by rfl))
  rintro r seen1 hsub1 a rfl
  have h1 := h.mono hsub1
  apply wp_reclaimRecord
  . exact h1.backed worker List.mem_cons_self job hrunning
  . intro seen2 hsub2
    exact hok _ (h1.tail.mono hsub2)
  . intro now job' seen2 seen3 hrun hsub2 hsub3
    have hjob := h1.row worker List.mem_cons_self job hrunning
    exact hok _ (((h1.tail.mono hsub2).saved hjob hrun).mono hsub3)
  . exact herror

theorem wp_recoverOffline {offlineNodeIds : List NodeId} {Q : Except Err PUnit → Seen → Prop}
    (h : Snapshot jobs (worker :: workers) seen)
    (hok : ∀ seen', Snapshot jobs workers seen' → Q (.ok ⟨⟩) seen')
    (herror : ∀ e seen', Q (.error e) seen')
    : wp watching.view H backs (RecoverOfflineNode.recover offlineNodeIds worker) Q seen := by
  unfold RecoverOfflineNode.recover
  split
  . exact hok _ h.tail
  . cases hrunning : worker.runningJob with
    | none => exact hok _ h.tail
    | some job =>
      apply wp_read (by rfl)
      intro env db seen1 hsub1 _
      have h1 := h.mono hsub1
      split
      . exact wp_reclaimOffline h1 hrunning hok herror
      . apply wp_read (by rfl)
        intro env db seen2 hsub2 _
        have h2 := h1.mono hsub2
        split
        . exact hok _ h2.tail
        . apply wp_read (by rfl)
          intro env db seen3 hsub3 _
          have h3 := h2.mono hsub3
          split
          . exact hok _ h3.tail
          . exact wp_reclaimOffline h3 hrunning hok herror

theorem always_recoverOffline : Always watching.view H backs RecoverOfflineNode.execute := by
  intro seen
  unfold RecoverOfflineNode.execute
  apply wp_read (by rfl)
  intro env db seen _ _
  apply wp_read (by rfl)
  intro env db seen _ _
  dsimp only
  split
  . trivial
  . apply wp_read (by rfl)
    intro env db seen _ hread
    apply wp_forM (Snapshot db.jobs)
    . have hrow : ∀ worker ∈ PostgresWorkerRepository.listAcrossTenants env db, ∀ job,
          worker.runningJob = some job → db.jobs.get? job.id = some job := by
        intro worker hworker job hjob
        have ⟨row, _, hentity⟩ := List.mem_filterMap.mp hworker
        exact PostgresWorkerRepository.toEntity_runningJob hentity hjob
      refine ⟨hrow, ?_⟩
      intro worker hworker job hjob
      apply backed_of_reclaim
      exact hread job (List.mem_filterMap.mpr ⟨worker, hworker, hjob⟩)
    . intro worker workers seen h
      exact wp_recoverOffline h (fun _ h => h) (fun _ _ => trivial)
    . exact fun _ _ => trivial

end programs

def createsNoJob (request : Request) : Bool :=
  match request with
  | .service (.createJob _ _ _) => false
  | _ => true

theorem always_run {H : DB × Env → Prop} {request : Request} (hrequest : createsNoJob request)
    : Always watching.view H backs request.run := by
  have hmakes : ∀ {p : Service Unit}, Makes savesNoJob p → Always watching.view H backs p := by
    intro p hp seen
    exact wp_savesNone hp (fun _ _ _ => trivial)
  cases request with
  | releaseLease worker lease tenant =>
    apply hmakes
    exact makes_releaseLease savesNoJob_of_isRead (fun _ _ _ => rfl) (fun _ _ => rfl) _ _ _
  | execution worker renewals result => exact always_execution worker renewals result
  | service served =>
    cases served with
    | createJob resources tenant command => contradiction
    | postWorkers node tenant managedBy => exact .map _ (always_postWorkers node tenant managedBy)
    | schedulerTick => exact always_schedulerTick
    | startJob worker job tenant => exact .map _ (always_startJob worker job tenant)
    | report outcome worker job tenant lease exitCode =>
      exact .map _ (always_report outcome worker job tenant lease exitCode)
    | cancelJob job tenant => exact .map _ (always_cancelJob job tenant)
    | retryJob job tenant => exact .map _ (always_retryJob job tenant)
    | recoverExpiredLeases =>
      exact .bind (.perform (fun _ => backs_of_none rfl)) (fun leases => .forM always_recoverExpired leases)
    | recoverOfflineNodes => exact always_recoverOffline
    | createNode capacity tenant name =>
      apply hmakes
      exact .map _ (makes_createNode savesNoJob_of_isRead (fun _ => rfl) rfl _ _ _)
    | renewLease worker lease tenant duration =>
      apply hmakes
      exact makes_renewLease savesNoJob_of_isRead (fun _ _ _ => rfl) _ _ _ _
    | workerHeartbeat worker tenant =>
      apply hmakes
      exact .map _ (makes_workerHeartbeat savesNoJob_of_isRead (fun _ => rfl) _ _)
    | heartbeatNode node tenant =>
      apply hmakes
      exact .map _ (makes_heartbeatNode savesNoJob_of_isRead (fun _ => rfl) _ _)
    | drainNode node tenant =>
      apply hmakes
      exact .map _ (makes_drainNode savesNoJob_of_isRead (fun _ => rfl) _ _)
    | removeOfflineNode node tenant =>
      apply hmakes
      exact makes_removeOfflineNode savesNoJob_of_isRead (fun _ _ => rfl) _ _
    | markDeadWorkers =>
      apply hmakes
      exact makes_markDeadWorkers savesNoJob_of_isRead (fun _ => rfl)

variable {requests : ι → Request} {db : DB}

theorem holds_pending (hrequests : ∀ i, createsNoJob (requests i))
    : protocol.Holds (fun _ _ _ => True) (pending requests db []) :=
  ⟨trivial, fun i => always_run (hrequests i) []⟩

theorem final_forever {pool pool' : Pool signature Err Unit DB Seen ι}
    (hrequests : ∀ i, createsNoJob (requests i))
    (hreaches : Reaches watching finalWhenRead (pending requests db []) pool)
    (hreaches' : Reaches watching finalWhenRead pool pool') {id : JobId} {job : Job}
    (hjob : pool.state.jobs.get? id = some job) (hfinal : job.status.isFinal)
    : ∃ job', pool'.state.jobs.get? id = some job' ∧ job'.status = job.status := by
  have hholds := (holds_pending hrequests).reaches hreaches
  induction hreaches' with
  | refl => exact ⟨job, hjob, rfl⟩
  | @tail pool1 pool2 hreaches1 hstep ih =>
    have ⟨job1, hjob1, hstatus⟩ := ih
    rw [← hstatus] at hfinal ⊢
    have ⟨i, hstep⟩ := hstep
    cases hstep with
    | call env hthread hcall =>
      exact final_of_exec ((hholds.reaches hreaches1).guard hthread) hcall hjob1 hfinal

def cancelledWhileReporting (i : Fin 2) : Request :=
  match i with
  | 0 => .service (.cancelJob ⟨1⟩ ⟨0⟩)
  | 1 => .service (.report .complete ⟨3⟩ ⟨1⟩ ⟨0⟩ ⟨5⟩ (some 0))

def completedBeforeCancel {ι : Type} (cancel report : ι) : List (ι × Env) :=
  (cancel, { now := 0 }) :: List.replicate 11 (report, { now := 0 })

theorem completed_overwritten
    : Reachable anyCall ⟨replay oneRunningJob DB.empty, []⟩
        ∧ ∃ pool pool', Reaches watching anyTime
            (pending cancelledWhileReporting (replay oneRunningJob DB.empty) []) pool
          ∧ Reaches watching anyTime pool pool'
          ∧ (pool.state.jobs.get? ⟨1⟩).map (·.status) = some .completed
          ∧ (pool'.state.jobs.get? ⟨1⟩).map (·.status) = some .cancelling := by
  refine ⟨reachable_oneRunningJob, ?_⟩
  have ⟨pool, hreaches, hcompleted, hplay⟩ := exists_reaches_of_play (W := watching) (C := anyTime)
    (pending cancelledWhileReporting (replay oneRunningJob DB.empty) []) (completedBeforeCancel 0 1)
    (fun pool => (pool.state.jobs.get? ⟨1⟩).map (·.status) = some .completed
      ∧ (play watching anyTime (List.replicate 2 (0, { now := 0 })) pool).any
        (fun pool' => (pool'.state.jobs.get? ⟨1⟩).map (·.status) = some .cancelling))
    (by decide +kernel)
  have ⟨pool', hreaches', hcancelling⟩ := exists_reaches_of_play _ _ _ hplay
  exact ⟨pool, pool', hreaches, hreaches', hcompleted, hcancelling⟩

theorem final_forever_cancelledAfterwards
    : ∃ pool pool', Reaches watching finalWhenRead
          (pending cancelledWhileReporting (replay oneRunningJob DB.empty) []) pool
        ∧ Reaches watching finalWhenRead pool pool'
        ∧ (pool'.threads 0).isDone
        ∧ ∃ job job', pool.state.jobs.get? ⟨1⟩ = some job
          ∧ pool'.state.jobs.get? ⟨1⟩ = some job'
          ∧ job.status = .completed
          ∧ job'.status = job.status := by
  -- the cancellation only reads the job after it was completed
  obtain ⟨pool, hreaches, hcompleted, hplay⟩ := exists_reaches_of_play
    (W := watching) (C := finalWhenRead)
    (pending cancelledWhileReporting (replay oneRunningJob DB.empty) [])
    (List.replicate 11 (1, { now := 0 }))
    (fun pool => (pool.state.jobs.get? ⟨1⟩).map (·.status) = some .completed
      ∧ (play watching finalWhenRead [(0, { now := 0 })] pool).any
        (fun pool' => (pool'.threads 0).isDone))
    (by decide +kernel)
  obtain ⟨pool', hreaches', hdone⟩ := exists_reaches_of_play (W := watching) (C := finalWhenRead)
    pool [(0, { now := 0 })] (fun pool' => (pool'.threads 0).isDone) (by simpa using hplay)
  rw [Option.map_eq_some_iff] at hcompleted
  obtain ⟨job, hjob, hstatus⟩ := hcompleted
  obtain ⟨job', hjob', hsame⟩ := final_forever (fun i => by fin_cases i <;> rfl) hreaches hreaches' hjob
    (by rw [hstatus]; rfl)
  exact ⟨pool, pool', hreaches, hreaches', hdone, job, job', hjob, hjob', hstatus, hsame⟩

end Finality

end AetherGrid
