import AetherGrid.Store.Rules
import AetherGrid.Wiring.Objects

/-!
This module contains what a refused outcome report leaves behind.
-/

namespace AetherGrid

open Prog

def Refused (e : Err) : Bool :=
  match e with
  | .workerNotFound _ | .workerJobMismatch _ _ | .invalidJobTransition _ | .noActiveLease _
  | .leaseNotFound _ | .jobNotFound _ => true
  | _ => false

namespace ReportJobOutcome

section postgres

variable {α : Type} {db : DB} {H : Env → Prop}

def Overlooks (r : Except Err α) : Prop :=
  ∀ e, r = .error e → Refused e = false

theorem wp_commit {r : Except Err DB} (h : ∀ e, r = .error e → Refused e = false)
    : wp postgres H noGuard (Prog.ofExcept (commit db r).1) (fun r _ => Overlooks r) (commit db r).2 := by
  rw [wp_ofExcept]
  cases r with
  | ok db' => exact nofun
  | error e =>
    intro e' he'
    injection he' with he'
    rw [← he']
    exact h e rfl

theorem wp_saveWorker (worker : Worker)
    : wp postgres H noGuard (WorkerRepository.save worker) (fun r _ => Overlooks r) db := by
  refine ⟨trivial, ?_⟩
  intro env _
  apply wp_commit
  intro e he
  unfold PostgresWorkerRepository.save at he
  split at he
  . injection he with he
    rw [← he]
    rfl
  . split at he
    . injection he with he
      rw [← he]
      rfl
    . split at he
      . injection he with he
        rw [← he]
        rfl
      . contradiction

theorem wp_saveNode (node : Node)
    : wp postgres H noGuard (NodeRepository.save node) (fun r _ => Overlooks r) db := by
  refine ⟨trivial, ?_⟩
  intro env _
  apply wp_commit
  intro e he
  unfold PostgresNodeRepository.save at he
  split at he
  . contradiction
  . split at he
    . contradiction
    . injection he with he
      rw [← he]
      rfl

theorem wp_saveJob (job : Job)
    : wp postgres H noGuard (JobRepository.save job) (fun r _ => Overlooks r) db := by
  refine ⟨trivial, ?_⟩
  intro env _
  apply wp_commit
  intro e he
  unfold PostgresJobRepository.save at he
  split at he
  . injection he with he
    rw [← he]
    rfl
  . split at he
    . contradiction
    . injection he with he
      rw [← he]
      rfl

theorem wp_recordForJob (job : Job) (type : EventType)
    : wp postgres H noGuard (RecordJobEventsService.recordForJob job type) (fun r _ => Overlooks r) db := by
  refine ⟨trivial, ?_⟩
  intro env _
  dsimp only [Call.exec]
  rw [wp_ofExcept]
  unfold PostgresEventRepository.save
  dsimp only
  split
  . exact nofun
  . intro e he
    injection he with he
    rw [← he]
    rfl

theorem wp_overlooks_bind {β : Type} {p : Service α} {f : α → Service β}
    (hp : wp postgres H noGuard p (fun r _ => Overlooks r) db)
    (hf : ∀ a db', wp postgres H noGuard (f a) (fun r _ => Overlooks r) db')
    : wp postgres H noGuard (p >>= f) (fun r _ => Overlooks r) db := by
  rw [wp_bind]
  apply wp_mono hp
  intro r db' hr
  cases r with
  | ok a => exact hf a db'
  | error e =>
    intro e' he'
    injection he' with he'
    rw [← he']
    exact hr e rfl

theorem wp_releaseNode (job : Job) (tenantId : TenantId)
    : wp postgres H noGuard (releaseNode job tenantId) (fun r _ => Overlooks r) db := by
  unfold releaseNode
  split
  . exact nofun
  . refine wp_perform_bind rfl ?_
    intro env _
    split
    . exact nofun
    . exact wp_saveNode _

theorem wp_finish_released (worker : Worker) (job : Job) (type : EventType) (tenantId : TenantId)
    : wp postgres H noGuard
        (do
          WorkerRepository.save worker
          releaseNode job tenantId
          JobRepository.save job
          RecordJobEventsService.recordForJob job type
          return worker) (fun r _ => Overlooks r) db := by
  apply wp_overlooks_bind (wp_saveWorker worker)
  intro _ _
  apply wp_overlooks_bind (wp_releaseNode job tenantId)
  intro _ _
  apply wp_overlooks_bind (wp_saveJob job)
  intro _ _
  apply wp_overlooks_bind (wp_recordForJob job type)
  intro _ _
  exact nofun

def Unchanged (db : DB) (r : Except Err α) (db' : DB) : Prop :=
  ∀ e, r = .error e → Refused e = true → db' = db

theorem wp_finish (worker : Worker) (workerId : WorkerId) (job : Job) (type : EventType)
    (expectedLeaseId : LeaseId) (tenantId : TenantId)
    : wp postgres H noGuard (finish worker workerId job type expectedLeaseId tenantId) (Unchanged db)
        db := by
  have hsame : ∀ r : Except Err Worker, Unchanged db r db := fun _ _ _ _ => rfl
  have hreleased : ∀ (r : Except Err Worker) db', Overlooks r → Unchanged db r db' := by
    intro r db' hr e he hrefused
    rw [hr e he] at hrefused
    contradiction
  unfold finish releaseLease
  rw [wp_bind]
  refine wp_perform_bind rfl ?_
  intro env _
  split
  . exact hsame _
  . split
    . exact hsame _
    . refine wp_perform_bind rfl ?_
      intro env _
      split
      . exact hsame _
      . refine wp_perform_bind rfl ?_
        intro env _
        split
        . exact hsame _
        . refine wp_perform_bind rfl ?_
          intro env _
          apply wp_mono (wp_recordForJob _ _)
          intro r db' hr
          cases r with
          | ok _ =>
            apply wp_mono (wp_finish_released worker job type tenantId)
            intro r db'' hr
            exact hreleased r db'' hr
          | error e =>
            apply hreleased
            intro e' he'
            injection he' with he'
            rw [← he']
            exact hr e rfl

theorem wp_report_unchanged (outcome : Outcome) (workerId : WorkerId) (jobId : JobId)
    (tenantId : TenantId) (leaseId : LeaseId) (exitCode : Option Int)
    : wp postgres H noGuard (report outcome workerId jobId tenantId leaseId exitCode) (Unchanged db)
        db := by
  have hsame : ∀ r : Except Err Worker, Unchanged db r db := fun _ _ _ _ => rfl
  unfold report getOwningWorker
  rw [wp_bind]
  refine wp_perform_bind rfl ?_
  intro env _
  split
  . exact hsame _
  . split
    . exact hsame _
    . split
      . exact hsame _
      . split
        . exact hsame _
        . dsimp only [Call.exec]
          refine wp_perform_bind rfl ?_
          intro env _
          rw [wp_bind, wp_runCommand]
          split
          . exact wp_finish ..
          . exact hsame _

end postgres

end ReportJobOutcome

namespace Objects

open ReportJobOutcome (Outcome)

section live

variable {α β : Type} {s s' : Site}

theorem run_bind (p : Live α) (f : α → Live β) (s : Site)
    : (p >>= f).run s
        =
      match p.run s with
      | .ok a s' => (f a).run s'
      | .error e s' => .error e s' := by
  have hbind : (p >>= f).run s = EStateM.bind p f s := rfl
  rw [hbind]
  unfold EStateM.bind EStateM.run
  cases p s <;> rfl

theorem run_get (f : Site → Live α) (s : Site) : (get >>= f).run s = (f s).run s := rfl

def Overlooking (p : Live α) : Prop :=
  ∀ s e s', p.run s = .error e s' → Refused e = false

theorem overlooking_bind {p : Live α} {f : α → Live β} (hp : Overlooking p) (hf : ∀ a, Overlooking (f a))
    : Overlooking (p >>= f) := by
  intro s e s' h
  rw [run_bind] at h
  cases hrun : p.run s with
  | ok a s1 =>
    rw [hrun] at h
    exact hf a s1 e s' h
  | error e1 s1 =>
    rw [hrun] at h
    injection h with he
    rw [← he]
    exact hp s e1 s1 hrun

theorem overlooking_pure (a : α) : Overlooking (pure a) := nofun

theorem overlooking_modify (f : Site → Site) : Overlooking (modify f : Live PUnit) := nofun

theorem overlooking_throw {e : Err} (h : Refused e = false) : Overlooking (throw e : Live α) := by
  intro s e' s' hrun
  injection hrun with he
  rw [← he]
  exact h

theorem overlooking_get : Overlooking (get : Live Site) := nofun

theorem overlooking_getNode (nodeId : NodeId) (tenantId : TenantId)
    : Overlooking (NodeRepository.getById nodeId tenantId) := by
  apply overlooking_bind overlooking_get
  intro s
  split
  . split
    . exact overlooking_pure none
    . exact nofun
  . split
    . exact overlooking_pure none
    . split
      . exact overlooking_pure none
      . exact overlooking_pure _

theorem overlooking_saveNode (ref : NodeRef) : Overlooking (NodeRepository.save ref) := by
  apply overlooking_bind overlooking_get
  intro s
  dsimp only
  split
  . split
    . exact overlooking_throw rfl
    . exact nofun
  . split
    . exact overlooking_throw rfl
    . exact nofun

theorem overlooking_saveJob (ref : JobRef) : Overlooking (JobRepository.save ref) := by
  apply overlooking_bind overlooking_get
  intro s
  dsimp only
  split
  . split
    . exact overlooking_throw rfl
    . exact nofun
  . split
    . exact overlooking_throw rfl
    . exact nofun

theorem overlooking_releaseNode (job : JobRef) (tenantId : TenantId)
    : Overlooking (releaseNode job tenantId) := by
  apply overlooking_bind overlooking_get
  intro s
  dsimp only
  split
  . exact overlooking_pure _
  . apply overlooking_bind (overlooking_getNode _ tenantId)
    intro node
    cases node with
    | none => exact overlooking_pure _
    | some node =>
      apply overlooking_bind (overlooking_modify _)
      intro _
      exact overlooking_saveNode node

theorem overlooking_finish_released (worker : WorkerRef) (job : JobRef) (type : EventType)
    (tenantId : TenantId) (now : Time)
    : Overlooking
        (do
          WorkerRepository.save worker
          releaseNode job tenantId
          JobRepository.save job
          recordForJob job type now
          return worker) := by
  apply overlooking_bind (overlooking_modify _)
  intro _
  apply overlooking_bind (overlooking_releaseNode job tenantId)
  intro _
  apply overlooking_bind (overlooking_saveJob job)
  intro _
  apply overlooking_bind (overlooking_modify _)
  intro _
  exact overlooking_pure worker

end live

section report

variable {s : Site} {outcome : Outcome} {workerId : WorkerId} {jobId : JobId} {tenantId : TenantId}
variable {leaseId : LeaseId} {exitCode : Option Int} {clock : Nat → Time} {now : Time}

structure Owns (s : Site) (workerId : WorkerId) (jobId : JobId) (tenantId : TenantId) (ref : WorkerRef)
    (job : JobRef) : Prop where
  stored : s.workers.get? workerId = some ref
  tenant : (s.heap.worker ref).tenantId = tenantId
  running : (s.heap.workers ref).runningJob = some job
  id : (s.heap.jobs job).id = jobId

def findJob (s : Site) (jobId : JobId) (tenantId : TenantId) : Option Job :=
  match s.records with
  | .sqlite jobs _ => (jobs.get? jobId).filter (·.tenantId = tenantId)
  | .memory jobs _ => ((jobs.get? jobId).map s.heap.jobs).filter (·.tenantId = tenantId)

def finalStatus (outcome : Outcome) : JobStatus :=
  match outcome with
  | .complete => .completed
  | .fail => .failed
  | .cancel => .cancelled

theorem getWorker_run (s : Site) (workerId : WorkerId) (tenantId : TenantId)
    : (WorkerRepository.getById workerId tenantId).run s
        = .ok ((s.workers.get? workerId).filter (fun ref => (s.heap.worker ref).tenantId = tenantId))
            s := by
  unfold WorkerRepository.getById
  rw [run_get]
  cases s.workers.get? workerId with
  | none => rfl
  | some ref =>
    dsimp only
    rw [Option.filter_some]
    by_cases htenant : (s.heap.worker ref).tenantId = tenantId
    . rw [if_neg (not_not.mpr htenant), if_pos (decide_eq_true htenant)]
      rfl
    . rw [if_pos htenant, if_neg (by simpa using htenant)]
      rfl

theorem getOwningWorker_run (s : Site) (workerId : WorkerId) (jobId : JobId) (tenantId : TenantId)
    : (∃ ref job, Owns s workerId jobId tenantId ref job
          ∧ (getOwningWorker workerId jobId tenantId).run s = .ok (ref, job) s)
        ∨ ((∀ ref job, ¬Owns s workerId jobId tenantId ref job)
          ∧ ∃ e, (getOwningWorker workerId jobId tenantId).run s = .error e s) := by
  unfold getOwningWorker
  rw [run_bind, getWorker_run]
  dsimp only
  cases hstored : (s.workers.get? workerId).filter
      (fun ref => (s.heap.worker ref).tenantId = tenantId) with
  | none =>
    right
    refine ⟨?_, _, rfl⟩
    intro ref job howns
    rw [howns.stored, Option.filter_some, if_pos (decide_eq_true howns.tenant)] at hstored
    contradiction
  | some ref =>
    rw [Option.filter_eq_some_iff] at hstored
    have htenant := of_decide_eq_true hstored.right
    dsimp only
    have htenant' : (s.heap.worker ref).node.tenantId = tenantId := htenant
    rw [run_get, if_neg (not_not.mpr htenant')]
    cases hrunning : (s.heap.workers ref).runningJob with
    | none =>
      right
      refine ⟨?_, _, rfl⟩
      intro ref' job howns
      have := hstored.left.symm.trans howns.stored
      injection this with this
      rw [this, howns.running] at hrunning
      contradiction
    | some job =>
      dsimp only
      split
      . next hid =>
        right
        refine ⟨?_, _, rfl⟩
        intro ref' job' howns
        have := hstored.left.symm.trans howns.stored
        injection this with this
        rw [this, howns.running] at hrunning
        injection hrunning with hrunning
        rw [← hrunning] at hid
        exact hid howns.id
      . next hid =>
        left
        exact ⟨ref, job, ⟨hstored.left, htenant, hrunning, not_not.mp hid⟩, rfl⟩

theorem jobCommand_run (outcome : Outcome) (now : Time) (exitCode : Option Int) (job : Job)
    : (jobCommand outcome now exitCode).run job
        =
      let job := { job with completedAt := some now, exitCode := exitCode }
      if finalStatus outcome ∈ job.status.allowedTransitions then
        .ok () { job with status := finalStatus outcome }
      else
        .error
          (.invalidJobTransition
            ("Cannot transition from " ++ job.status.name ++ " to " ++ (finalStatus outcome).name ++ "."))
          job := by
  cases outcome with
  | complete => exact Job.transitionTo_run _ _
  | fail => exact Job.transitionTo_run _ _
  | cancel => exact Job.transitionTo_run _ _

def ended (outcome : Outcome) (now : Time) (exitCode : Option Int) (s : Site) (ref : WorkerRef)
    (job : JobRef) : Site :=
  let worker := s.heap.workers ref
  { s with
    heap.jobs := Function.update s.heap.jobs job
      { s.heap.jobs job with
        completedAt := some now, exitCode := exitCode, status := finalStatus outcome }
    heap.workers := Function.update s.heap.workers ref
      { worker with runningJob := none, status := .idle } }

def stamped (now : Time) (exitCode : Option Int) (s : Site) (job : JobRef) : Site :=
  { s with
    heap.jobs := Function.update s.heap.jobs job
      { s.heap.jobs job with completedAt := some now, exitCode := exitCode } }

theorem onJob_run {α : Type} (ref : JobRef) (command : EStateM Err Job α) (s : Site)
    : (onJob ref command).run s
        =
      match command.run (s.heap.jobs ref) with
      | .ok a job => .ok a { s with heap.jobs := Function.update s.heap.jobs ref job }
      | .error e job => .error e { s with heap.jobs := Function.update s.heap.jobs ref job } :=
  rfl

theorem finishJob_run (outcome : Outcome) (now : Time) (exitCode : Option Int) {ref : WorkerRef}
    {job : JobRef}
    (hrunning : (s.heap.workers ref).runningJob = some job)
    : (finalStatus outcome ∈ (s.heap.jobs job).status.allowedTransitions
          ∧ (finishJob ref outcome now exitCode).run s
            = .ok () (ended outcome now exitCode s ref job))
        ∨ (finalStatus outcome ∉ (s.heap.jobs job).status.allowedTransitions
          ∧ ∃ message, (finishJob ref outcome now exitCode).run s
            = .error (.invalidJobTransition message) (stamped now exitCode s job)) := by
  have hcommand := jobCommand_run outcome now exitCode (s.heap.jobs job)
  unfold finishJob
  rw [run_get, hrunning]
  dsimp only
  rw [run_bind, onJob_run]
  by_cases hallowed : finalStatus outcome ∈ (s.heap.jobs job).status.allowedTransitions
  . left
    refine ⟨hallowed, ?_⟩
    rw [hcommand]
    dsimp only
    rw [if_pos hallowed]
    rfl
  . right
    rw [hcommand]
    dsimp only
    rw [if_neg hallowed]
    exact ⟨hallowed, _, rfl⟩

def Releasable (s : Site) (workerId : WorkerId) (leaseId : LeaseId) (tenantId : TenantId) : Prop :=
  ∃ lease, InMemoryLeaseRepository.getByWorkerId s.leases workerId tenantId = some lease
    ∧ lease.id = leaseId ∧ (findJob s lease.jobId tenantId).isSome = true

theorem getJob_run (s : Site) (jobId : JobId) (tenantId : TenantId)
    : ((findJob s jobId tenantId).isSome = true
          ∧ ∃ ref s', (JobRepository.getById jobId tenantId).run s = .ok (some ref) s')
        ∨ ((findJob s jobId tenantId).isSome = false
          ∧ (JobRepository.getById jobId tenantId).run s = .ok none s) := by
  unfold findJob JobRepository.getById
  rw [run_get]
  cases s.records with
  | sqlite jobs nodes =>
    dsimp only
    cases hfind : (jobs.get? jobId).filter (·.tenantId = tenantId) with
    | none => exact .inr ⟨rfl, rfl⟩
    | some job => exact .inl ⟨rfl, _, _, rfl⟩
  | memory jobs nodes =>
    dsimp only
    cases hfind : jobs.get? jobId with
    | none => exact .inr ⟨rfl, rfl⟩
    | some ref =>
      dsimp only
      rw [Option.map_some, Option.filter_some]
      by_cases htenant : (s.heap.jobs ref).tenantId = tenantId
      . rw [if_neg (not_not.mpr htenant), if_pos (decide_eq_true htenant)]
        exact .inl ⟨rfl, _, _, rfl⟩
      . rw [if_pos htenant, if_neg (by simpa using htenant)]
        exact .inr ⟨rfl, rfl⟩

theorem releaseLease_run (leaseId : LeaseId) (now : Time) {ref : WorkerRef}
    (hstored : s.workers.get? workerId = some ref) (htenant : (s.heap.worker ref).tenantId = tenantId)
    : (Releasable s workerId leaseId tenantId
          ∧ ∃ s', (releaseLease workerId leaseId tenantId now).run s = .ok () s')
        ∨ (¬Releasable s workerId leaseId tenantId
          ∧ ∃ e, Refused e = true ∧ (releaseLease workerId leaseId tenantId now).run s = .error e s) := by
  unfold releaseLease Releasable
  rw [run_get]
  cases hlease : InMemoryLeaseRepository.getByWorkerId s.leases workerId tenantId with
  | none =>
    right
    refine ⟨?_, _, ?_, rfl⟩
    . intro ⟨_, hsome, _⟩
      contradiction
    . rfl
  | some lease =>
    dsimp only
    by_cases hid : lease.id = leaseId
    . rw [if_neg (not_not.mpr hid), run_bind, getWorker_run, hstored, Option.filter_some,
        if_pos (decide_eq_true htenant)]
      dsimp only
      rw [run_bind]
      cases getJob_run s lease.jobId tenantId with
      | inl hfound =>
        have ⟨hsome, job, s', hrun⟩ := hfound
        left
        refine ⟨⟨lease, rfl, hid, hsome⟩, ?_⟩
        rw [hrun]
        exact ⟨_, rfl⟩
      | inr hmissing =>
        have ⟨hnone, hrun⟩ := hmissing
        right
        refine ⟨?_, .jobNotFound lease.jobId, rfl, ?_⟩
        . intro ⟨lease', hlease', _, hsome⟩
          injection hlease' with hlease'
          rw [← hlease', hnone] at hsome
          contradiction
        . rw [hrun]
          rfl
    . rw [if_pos hid]
      right
      refine ⟨?_, _, ?_, rfl⟩
      . intro ⟨lease', hlease', hid', _⟩
        injection hlease' with hlease'
        rw [hlease'] at hid
        exact hid hid'
      . rfl

def Harmless (outcome : Outcome) (workerId : WorkerId) (jobId : JobId) (tenantId : TenantId)
    (leaseId : LeaseId) (exitCode : Option Int) (now : Time) (s : Site) : Prop :=
  ∀ ref job, Owns s workerId jobId tenantId ref job →
    if finalStatus outcome ∈ (s.heap.jobs job).status.allowedTransitions then
      Releasable s workerId leaseId tenantId
    else
      (s.heap.jobs job).completedAt = some now ∧ (s.heap.jobs job).exitCode = exitCode

theorem worker_eq_of_view {s' : Site} {ref : WorkerRef} (hstored : s.workers.get? workerId = some ref)
    (hview : s'.view = s.view) (hworkers : s'.workers = s.workers)
    : s'.heap.worker ref = s.heap.worker ref := by
  have hmap : s'.view.workers = s.view.workers := congrArg View.workers hview
  unfold Site.view at hmap
  dsimp only at hmap
  rw [hworkers, List.map_inj_left] at hmap
  unfold Dict.get? at hstored
  rw [Option.map_eq_some_iff] at hstored
  have ⟨entry, hfind, href⟩ := hstored
  have := hmap entry (List.mem_of_find?_eq_some hfind)
  injection this with _ hworker
  rw [href] at hworker
  exact hworker

theorem not_view_ended {ref : WorkerRef} {job : JobRef} (howns : Owns s workerId jobId tenantId ref job)
    : (ended outcome now exitCode s ref job).view ≠ s.view := by
  intro hview
  have hworker := worker_eq_of_view howns.stored hview rfl
  have hjob := congrArg Worker.runningJob hworker
  unfold Heap.worker ended at hjob
  dsimp only at hjob
  rw [Function.update_self, howns.running] at hjob
  contradiction

theorem view_stamped_iff {ref : WorkerRef} {job : JobRef} (howns : Owns s workerId jobId tenantId ref job)
    : (stamped now exitCode s job).view = s.view
        ↔
      (s.heap.jobs job).completedAt = some now ∧ (s.heap.jobs job).exitCode = exitCode := by
  constructor
  . intro hview
    have hworker := worker_eq_of_view howns.stored hview rfl
    have hjob := congrArg Worker.runningJob hworker
    unfold Heap.worker stamped at hjob
    dsimp only at hjob
    rw [howns.running, Option.map_some, Option.map_some, Function.update_self] at hjob
    injection hjob with hjob
    rw [← hjob]
    exact ⟨rfl, rfl⟩
  . intro ⟨hcompleted, hexit⟩
    have hsame : stamped now exitCode s job = s := by
      unfold stamped
      rw [← hcompleted, ← hexit, Function.update_eq_self]
    rw [hsame]

theorem Owns.unique {ref ref' : WorkerRef} {job job' : JobRef} (h : Owns s workerId jobId tenantId ref job)
    (h' : Owns s workerId jobId tenantId ref' job') : ref = ref' ∧ job = job' := by
  have href := h.stored.symm.trans h'.stored
  injection href with href
  have hjob := h'.running
  rw [← href, h.running] at hjob
  injection hjob with hjob
  exact ⟨href, hjob⟩

theorem findJob_ended (ref : WorkerRef) (job : JobRef) (id : JobId) (tenantId : TenantId)
    : (findJob (ended outcome now exitCode s ref job) id tenantId).isSome
        = (findJob s id tenantId).isSome := by
  have htenant : ∀ other, ((ended outcome now exitCode s ref job).heap.jobs other).tenantId
      = (s.heap.jobs other).tenantId := by
    intro other
    unfold ended
    dsimp only
    by_cases heq : other = job
    . rw [heq, Function.update_self]
    . rw [Function.update_of_ne heq]
  unfold findJob
  have hrecords : (ended outcome now exitCode s ref job).records = s.records := rfl
  rw [hrecords]
  cases s.records with
  | sqlite jobs nodes => rfl
  | memory jobs nodes =>
    dsimp only
    cases jobs.get? id with
    | none => rfl
    | some other =>
      rw [Option.map_some, Option.map_some, Option.filter_some, Option.filter_some, htenant]
      split <;> rfl

theorem releasable_ended (outcome : Outcome) (now : Time) (exitCode : Option Int) (ref : WorkerRef)
    (job : JobRef)
    : Releasable (ended outcome now exitCode s ref job) workerId leaseId tenantId
        ↔ Releasable s workerId leaseId tenantId := by
  unfold Releasable
  simp only [findJob_ended]
  rfl

theorem finish_refused_iff {ref : WorkerRef} {job : JobRef}
    (howns : Owns s workerId jobId tenantId ref job)
    : (∀ e s', (finish ref workerId job outcome.eventType leaseId tenantId clock).run
          (ended outcome now exitCode s ref job) = .error e s' →
        Refused e = true → s'.view = s.view)
        ↔
      Releasable s workerId leaseId tenantId := by
  have hstored : (ended outcome now exitCode s ref job).workers.get? workerId = some ref := howns.stored
  have htenant : ((ended outcome now exitCode s ref job).heap.worker ref).tenantId = tenantId := by
    rw [← howns.tenant]
    unfold ended Heap.worker Worker.tenantId
    dsimp only
    rw [Function.update_self]
  unfold finish
  rw [run_bind, ← releasable_ended outcome now exitCode ref job]
  cases releaseLease_run leaseId (clock 1) hstored htenant with
  | inl hreleased =>
    have ⟨hreleasable, s1, hrun⟩ := hreleased
    rw [hrun]
    constructor
    . intro _
      exact hreleasable
    . intro _ e s' h hrefused
      rw [overlooking_finish_released ref job _ tenantId _ s1 e s' h] at hrefused
      contradiction
  | inr hrefused =>
    have ⟨hnot, e, he, hrun⟩ := hrefused
    rw [hrun]
    constructor
    . intro h
      exact absurd (h e _ rfl he) (not_view_ended howns)
    . intro hreleasable
      exact absurd hreleasable hnot

theorem report_run {ref : WorkerRef} {job : JobRef}
    (howner : (getOwningWorker workerId jobId tenantId).run s = .ok (ref, job) s)
    : (report outcome workerId jobId tenantId leaseId exitCode clock).run s
        =
      match (finishJob ref outcome (clock 0) exitCode).run s with
      | .ok _ s' => (finish ref workerId job outcome.eventType leaseId tenantId clock).run s'
      | .error e s' => .error e s' := by
  unfold report
  rw [run_bind, howner]
  dsimp only
  rw [run_bind]
  cases (finishJob ref outcome (clock 0) exitCode).run s <;> rfl

theorem report_refused_iff
    : (∀ e s', (report outcome workerId jobId tenantId leaseId exitCode clock).run s = .error e s' →
        Refused e = true → s'.view = s.view)
        ↔
      Harmless outcome workerId jobId tenantId leaseId exitCode (clock 0) s := by
  cases getOwningWorker_run s workerId jobId tenantId with
  | inr hnobody =>
    have ⟨hnone, e, herror⟩ := hnobody
    have hrun : (report outcome workerId jobId tenantId leaseId exitCode clock).run s = .error e s := by
      unfold report
      rw [run_bind, herror]
    constructor
    . intro _ ref job howns
      exact absurd howns (hnone ref job)
    . intro _ e' s' h _
      rw [hrun] at h
      injection h with _ h
      rw [← h]
  | inl howner =>
    have ⟨ref, job, howns, hrun⟩ := howner
    rw [report_run hrun]
    have hharmless : Harmless outcome workerId jobId tenantId leaseId exitCode (clock 0) s
        ↔
      if finalStatus outcome ∈ (s.heap.jobs job).status.allowedTransitions then
        Releasable s workerId leaseId tenantId
      else
        (s.heap.jobs job).completedAt = some (clock 0) ∧ (s.heap.jobs job).exitCode = exitCode := by
      constructor
      . intro h
        exact h ref job howns
      . intro h ref' job' howns'
        have ⟨href, hjob⟩ := howns.unique howns'
        rw [← hjob]
        exact h
    rw [hharmless]
    cases finishJob_run outcome (clock 0) exitCode howns.running with
    | inl hallowed =>
      have ⟨hmem, hfinished⟩ := hallowed
      rw [hfinished, if_pos hmem]
      exact finish_refused_iff howns
    | inr hforbidden =>
      have ⟨hmem, message, hfinished⟩ := hforbidden
      rw [hfinished, if_neg hmem, ← view_stamped_iff howns]
      constructor
      . intro h
        exact h _ _ rfl rfl
      . intro hview e s' h _
        injection h with _ h
        rw [← h]
        exact hview

end report

end Objects

open ReportJobOutcome (Outcome)

theorem refused_report_iff (outcome : Outcome) (workerId : WorkerId) (jobId : JobId) (tenantId : TenantId)
    (leaseId : LeaseId) (exitCode : Option Int)
    : (∀ db e db', Runs postgres (fun _ => True)
          (ReportJobOutcome.report outcome workerId jobId tenantId leaseId exitCode) db (.error e) db' →
        Refused e = true → db' = db)
      ∧ ∀ (clock : Nat → Time) (site : Objects.Site),
        (∀ e site',
            (Objects.report outcome workerId jobId tenantId leaseId exitCode clock).run site
              = .error e site' →
            Refused e = true → site'.view = site.view)
          ↔
        Objects.Harmless outcome workerId jobId tenantId leaseId exitCode (clock 0) site := by
  refine ⟨?_, ?_⟩
  . intro db e db' hruns hrefused
    exact hruns.of_wp (ReportJobOutcome.wp_report_unchanged ..) e rfl hrefused
  . intro clock site
    exact Objects.report_refused_iff

namespace Objects

def sampleNode : Node :=
  Node.register ⟨0⟩ ⟨4, 4096, 0⟩ ⟨0⟩ none "node" 0

def sampleJob : Job :=
  { id := ⟨1⟩
    resources := ⟨1, 1, 0⟩
    tenantId := ⟨0⟩
    status := .running
    assignedNodeId := some ⟨0⟩
    submittedAt := 0
    hcpu := Nat.one_pos
    hmemory := Nat.one_pos }

def oneWorker (records : Records) (leases : LeaseDict) : Site where
  heap :=
    { jobs := fun _ => sampleJob
      nodes := fun _ => sampleNode
      workers := fun _ => ⟨⟨3⟩, ⟨0⟩, .busy, .agent, some ⟨1⟩, 0⟩
      next := 3 }
  records := records
  workers := [(⟨3⟩, ⟨2⟩)]
  leases := leases
  events := []
  nextId := 6

def sqliteRecords : Records :=
  .sqlite (Table.empty.upsert sampleJob) (Table.empty.upsert sampleNode)

def memoryRecords : Records :=
  .memory [(⟨1⟩, ⟨1⟩)] [(⟨0⟩, ⟨0⟩)]

def reported : Live WorkerRef :=
  report .complete ⟨3⟩ ⟨1⟩ ⟨0⟩ ⟨5⟩ (some 0) (fun _ => 7)

def EndsRefusedJob (records : Records) : Prop :=
  ∃ site', reported.run (oneWorker records .empty) = .error (.noActiveLease ⟨3⟩) site'
    ∧ (oneWorker records .empty).view.workers.map (fun entry => entry.2.runningJob.map (·.id)) = [some ⟨1⟩]
    ∧ site'.view.workers.map (fun entry => entry.2.runningJob.map (·.id)) = [none]

theorem refused_report_ends_job : EndsRefusedJob sqliteRecords ∧ EndsRefusedJob memoryRecords := by
  constructor
  . exact ⟨_, rfl, by decide, by decide⟩
  . exact ⟨_, rfl, by decide, by decide⟩

theorem refused_report_iff_leased
    : (∀ e site', reported.run
          (oneWorker memoryRecords (Table.empty.upsert ⟨⟨5⟩, ⟨3⟩, ⟨1⟩, ⟨0⟩, 0, 30⟩)) = .error e site' →
        Refused e = true →
        site'.view = (oneWorker memoryRecords (Table.empty.upsert ⟨⟨5⟩, ⟨3⟩, ⟨1⟩, ⟨0⟩, 0, 30⟩)).view)
      ∧ ∃ site', (report .complete ⟨3⟩ ⟨2⟩ ⟨0⟩ ⟨5⟩ (some 0) (fun _ => 7)).run
            (oneWorker memoryRecords .empty) = .error (.workerJobMismatch ⟨3⟩ ⟨2⟩) site'
          ∧ site'.view = (oneWorker memoryRecords .empty).view := by
  constructor
  . apply ((refused_report_iff .complete ⟨3⟩ ⟨1⟩ ⟨0⟩ ⟨5⟩ (some 0)).right _ _).mpr
    intro ref job howns
    have hallowed : finalStatus .complete ∈ sampleJob.status.allowedTransitions := by decide
    change if finalStatus .complete ∈ sampleJob.status.allowedTransitions then _ else _
    rw [if_pos hallowed]
    exact ⟨_, rfl, rfl, by decide⟩
  . refine ⟨_, rfl, ?_⟩
    apply ((refused_report_iff .complete ⟨3⟩ ⟨2⟩ ⟨0⟩ ⟨5⟩ (some 0)).right (fun _ => 7) _).mpr
    . intro ref job howns
      -- the one job there is has another id
      exact absurd howns.id (by decide : sampleJob.id ≠ ⟨2⟩)
    . rfl
    . rfl

end Objects

end AetherGrid
