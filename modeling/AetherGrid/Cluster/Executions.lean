import AetherGrid.Cluster.Concurrent
import AetherGrid.Service.Lemmas.Execution
import AetherGrid.Prog.Trace

/-!
This module contains how often the command of a job is executed.
-/

namespace AetherGrid

open Prog

namespace ClusterTick

def drive (outcome : WorkerId → Nat × JobExecutionResult) (worker : Worker) : Service Unit := do
  if worker.runningJob = none then
    return
  else if worker.managedBy = .agent then
    return
  else
    Prog.catching (WorkerExecutionLoop.execute worker.id (outcome worker.id).1 (outcome worker.id).2)
      fun _ => return

def execute (outcome : WorkerId → Nat × JobExecutionResult) : Service Unit := do
  SchedulerLoop.execute
  let workers ← WorkerRepository.listAcrossTenants
  forM workers (drive outcome)

end ClusterTick

namespace Executions

inductive Renews : Execution → DB → Execution → DB → Prop where
  | done (execution : Execution) (db : DB) : Renews execution db execution db
  | renewed {execution execution' execution'' : Execution} {db db' db'' : DB}
    (hruns : Runs postgres anyClock (WorkerExecutionLoop.keepLeaseAlive execution) db (.ok execution') db')
    (hrest : Renews execution' db' execution'' db'')
    : Renews execution db execution'' db''
  | failed {execution execution' : Execution} {db db' db'' : DB}
    (hbreaks : Breaks postgres anyClock (WorkerExecutionLoop.keepLeaseAlive execution) db db')
    (hrest : Renews { execution with renewing := false } db' execution' db'')
    : Renews execution db execution' db''

/--
One iteration of the loop of a worker that is entered in a state that meets `P`, with the jobs whose
command it executes.
-/
inductive Iterates (P : DB → WorkerId → Prop) (workerId : WorkerId) (db : DB)
    : List JobId → DB → Prop where
  | nothing {r : Except Err (Option Execution)} {db' : DB} (hstart : P db workerId)
    (hruns : Runs postgres anyClock (WorkerExecutionLoop.begin workerId) db r db')
    (hnothing : ∀ execution, r ≠ .ok (some execution))
    : Iterates P workerId db [] db'
  | notStarted {db' : DB} (hstart : P db workerId)
    (hbreaks : Breaks postgres anyClock (WorkerExecutionLoop.begin workerId) db db')
    : Iterates P workerId db [] db'
  | notRun {execution execution' : Execution} {db1 db' : DB} (hstart : P db workerId)
    (hruns : Runs postgres anyClock (WorkerExecutionLoop.begin workerId) db (.ok (some execution)) db1)
    (hrenews : Renews execution db1 execution' db')
    : Iterates P workerId db [execution.job.id] db'
  | finished {execution execution' : Execution} {db1 db2 db' : DB} (result : JobExecutionResult)
    {r : Except Err Unit} (hstart : P db workerId)
    (hruns : Runs postgres anyClock (WorkerExecutionLoop.begin workerId) db (.ok (some execution)) db1)
    (hrenews : Renews execution db1 execution' db2)
    (hfinish : Runs postgres anyClock (WorkerExecutionLoop.finish execution' result) db2 r db')
    : Iterates P workerId db [execution.job.id] db'
  | notFinished {execution execution' : Execution} {db1 db2 db' : DB} (result : JobExecutionResult)
    (hstart : P db workerId)
    (hruns : Runs postgres anyClock (WorkerExecutionLoop.begin workerId) db (.ok (some execution)) db1)
    (hrenews : Renews execution db1 execution' db2)
    (hbreaks : Breaks postgres anyClock (WorkerExecutionLoop.finish execution' result) db2 db')
    : Iterates P workerId db [execution.job.id] db'

inductive Drives (P : DB → WorkerId → Prop) : List Worker → DB → List JobId → DB → Prop where
  -- the last worker has been driven, or the process has stopped
  | done (workers : List Worker) (db : DB) : Drives P workers db [] db
  | skip {worker : Worker} {workers : List Worker} {db db' : DB} {executed : List JobId}
    (hskip : worker.runningJob = none ∨ worker.managedBy = .agent)
    (hrest : Drives P workers db executed db')
    : Drives P (worker :: workers) db executed db'
  | drive {worker : Worker} {workers : List Worker} {db db1 db' : DB} {executed executed' : List JobId}
    (hiterates : Iterates P worker.id db executed db1) (hrest : Drives P workers db1 executed' db')
    : Drives P (worker :: workers) db (executed' ++ executed) db'

def inBackground (call : ServiceCall) : Bool :=
  match call with
  | .schedulerTick => true
  | .markDeadWorkers => true
  | .recoverExpiredLeases => true
  | .recoverOfflineNodes => true
  | _ => false

inductive Turn (P : DB → WorkerId → Prop) (db : DB) : List JobId → DB → Prop where
  | tick {env : Env} {db1 db' : DB} {executed : List JobId}
    (hscheduler : Runs postgres anyClock SchedulerLoop.execute db (.ok ()) db1)
    (hdrives : Drives P (PostgresWorkerRepository.listAcrossTenants env db1) db1 executed db')
    : Turn P db executed db'
  | service (call : ServiceCall) {r : Except Err Unit} {db' : DB} (hcall : inBackground call)
    (hruns : Runs postgres anyClock call.run db r db')
    : Turn P db [] db'
  | stopped (call : ServiceCall) {db' : DB} (hcall : inBackground call)
    (hbreaks : Breaks postgres anyClock call.run db db')
    : Turn P db [] db'

/--
What the background loop does from `origin` on, over any number of restarts of its process, with the
jobs whose command has been executed.
-/
inductive Activity (P : DB → WorkerId → Prop) (origin : DB) : List JobId → DB → Prop where
  | start : Activity P origin [] origin
  | turn {executed executed' : List JobId} {db db' : DB} (h : Activity P origin executed db)
    (hturn : Turn P db executed' db')
    : Activity P origin (executed' ++ executed) db'

def anyStart : DB → WorkerId → Prop :=
  fun _ _ => True

instance (db : DB) (workerId : WorkerId) : Decidable (anyStart db workerId) :=
  inferInstanceAs (Decidable True)

def notRunning (db : DB) (workerId : WorkerId) : Prop :=
  ∀ row ∈ db.workers.get? workerId, ∀ jobId ∈ row.runningJobId, ∀ job ∈ db.jobs.get? jobId,
    job.status ≠ .running

instance (db : DB) (workerId : WorkerId) : Decidable (notRunning db workerId) :=
  inferInstanceAs (Decidable (∀ row ∈ db.workers.get? workerId, ∀ jobId ∈ row.runningJobId,
    ∀ job ∈ db.jobs.get? jobId, job.status ≠ .running))

end Executions

structure Job.Spends (job job' : Job) : Prop where
  maxRetries : job'.maxRetries = job.maxRetries
  budget : job'.retryCount ≤ max job.retryCount job.maxRetries
  attempts : job.retryCount + job.status.attempts ≤ job'.retryCount + job'.status.attempts

namespace Job

variable {job job' job'' : Job}

theorem spends_of_eq (hmax : job'.maxRetries = job.maxRetries) (hcount : job'.retryCount = job.retryCount)
    (hstatus : job'.status = job.status) : job.Spends job' := by
  refine ⟨hmax, ?_, ?_⟩
  . rw [hcount]
    exact Nat.le_max_left _ _
  . rw [hcount, hstatus]

theorem Spends.trans (h : job.Spends job') (h' : job'.Spends job'') : job.Spends job'' := by
  refine ⟨h'.maxRetries.trans h.maxRetries, ?_, Nat.le_trans h.attempts h'.attempts⟩
  have hbudget := h'.budget
  rw [h.maxRetries] at hbudget
  exact Nat.le_trans hbudget (Nat.max_le.mpr ⟨h.budget, Nat.le_max_right _ _⟩)

theorem Moves.spends {next : JobStatus} {assigned : Option NodeId} (h : job.Moves job' next assigned)
    : job.Spends job' := by
  refine ⟨h.maxRetries, ?_, h.becomes.attempts⟩
  rcases h.retries with ⟨hcount, _⟩ | ⟨_, hretry, hcount⟩
  . rw [hcount]
    exact Nat.le_max_left _ _
  . have hlt : job.retryCount < job.maxRetries := of_decide_eq_true hretry
    rw [hcount]
    exact Nat.le_trans hlt (Nat.le_max_right _ _)

theorem Moves.retryCount_eq {next : JobStatus} {assigned : Option NodeId}
    (h : job.Moves job' next assigned) (hnext : next ≠ .queued) : job'.retryCount = job.retryCount := by
  rcases h.retries with ⟨heq, _⟩ | ⟨heq, _⟩
  . exact heq
  . contradiction

theorem reclaim_spends {now now' : Time} (h : (reclaim now).run job = .ok () job')
    (h' : (reclaim now').run job = .ok () job'') : job'.Spends job'' := by
  have hend : ∀ next, next ≠ .queued →
      job.Moves job' next none → job.Moves job'' next none → job'.Spends job'' := by
    intro next hnext hmoves hmoves'
    apply spends_of_eq
    . rw [hmoves.maxRetries, hmoves'.maxRetries]
    . rw [hmoves.retryCount_eq hnext, hmoves'.retryCount_eq hnext]
    . rw [hmoves.status, hmoves'.status]
  rw [reclaim_run] at h h'
  split at h
  . next hcancelling =>
    rw [if_pos hcancelling] at h'
    exact hend .cancelled (by decide) (modify_transitionTo_moves h rfl rfl rfl rfl rfl rfl (by decide))
      (modify_transitionTo_moves h' rfl rfl rfl rfl rfl rfl (by decide))
  . next hcancelling =>
    rw [if_neg hcancelling] at h'
    split at h
    . contradiction
    . next hneither =>
      rw [if_neg hneither] at h'
      split at h
      . next hretry =>
        rw [if_pos hretry] at h'
        exact hend .failed (by decide) (modify_transitionTo_moves h rfl rfl rfl rfl rfl rfl (by decide))
          (modify_transitionTo_moves h' rfl rfl rfl rfl rfl rfl (by decide))
      . next hretry =>
        rw [if_neg hretry] at h'
        have := h.symm.trans h'
        injection this with _ this
        rw [this]
        exact spends_of_eq rfl rfl rfl

end Job

namespace Executions

def spends (db : DB) (c : Call) : Prop :=
  ∀ job ∈ c.savedJob, ∃ stored, db.jobs.get? job.id = some stored ∧ stored.Spends job

def Paid (origin : DB) (executed : List JobId) (db : DB) : Prop :=
  ∀ id job, origin.jobs.get? id = some job →
    ∃ job', db.jobs.get? id = some job'
      ∧ job.Spends job'
      ∧ executed.count id + job.retryCount ≤ job'.retryCount + job'.status.attempts

theorem Paid.exec {origin db : DB} {executed : List JobId} {c : Call} (env : Env)
    (h : Paid origin executed db) (hc : spends db c) : Paid origin executed (c.exec env db).2 := by
  intro id job hjob
  have ⟨stored, hstored, hspends, hpaid⟩ := h id job hjob
  have hnext : ∀ job', (c.exec env db).2.jobs.get? id = some job' → stored.Spends job' →
      ∃ job', (c.exec env db).2.jobs.get? id = some job'
        ∧ job.Spends job'
        ∧ executed.count id + job.retryCount ≤ job'.retryCount + job'.status.attempts := by
    intro job' hget hspends'
    exact ⟨job', hget, hspends.trans hspends', Nat.le_trans hpaid hspends'.attempts⟩
  rcases (Call.writes_exec env db c).get?_job hstored with ⟨saved, rfl, rfl, hsaved⟩ | hsame | hcleared
  . have ⟨stored', hstored', hspends'⟩ := hc saved rfl
    rw [hstored] at hstored'
    injection hstored' with heq
    rw [← heq] at hspends'
    exact hnext saved hsaved hspends'
  . exact hnext stored hsame (Job.spends_of_eq rfl rfl rfl)
  . exact hnext _ hcleared (Job.spends_of_eq rfl rfl rfl)

section programs

variable {H : Env → Prop} {db : DB}

def keepsJobs (c : Call) : Prop :=
  match c with
  | .saveJob _ | .deleteNode _ _ => False
  | _ => True

theorem jobs_exec {c : Call} (hc : keepsJobs c) (env : Env) : (c.exec env db).2.jobs = db.jobs := by
  generalize hdb : (c.exec env db).2 = db'
  have hwrites := Call.writes_exec env db c
  rw [hdb] at hwrites
  cases hwrites with
  | job _ _ _ | nodeGone _ _ => exact hc.elim
  | _ => rfl

theorem keepsJobs_of_isRead (c : Call) (hc : c.isRead) : keepsJobs c := by
  cases c with
  | saveJob job => contradiction
  | deleteNode id tenant => contradiction
  | _ => trivial

theorem spends_of_keepsJobs {c : Call} (hc : keepsJobs c) : spends db c := by
  intro job hjob
  cases c with
  | saveJob saved => exact hc.elim
  | _ => contradiction

theorem wp_keepsJobs {α : Type} {p : Service α} {Q : Except Err α → DB → Prop} (hp : Makes keepsJobs p)
    (hQ : ∀ r db', db'.jobs = db.jobs → Q r db') : wp postgres H spends p Q db := by
  apply wp_of_makes (fun db' => db'.jobs = db.jobs) ?_ ?_ hp hQ rfl
  . intro _ c _ hc
    exact spends_of_keepsJobs hc
  . intro db' c env hjobs hc _
    rw [← hjobs]
    exact jobs_exec hc env

theorem wp_read {α : Type} {c : Call} {f : c.Res → Service α} {Q : Except Err α → DB → Prop}
    (hc : c.isRead) (h : ∀ env, wp postgres H spends (f (c.exec env db).1) Q db)
    : wp postgres H spends (perform c >>= f) Q db := by
  refine ⟨spends_of_keepsJobs (keepsJobs_of_isRead c hc), ?_⟩
  intro env _
  have hdb : (postgres.exec c env db).2 = db := by
    cases c with
    | utcNow | utcNowFor | generateNodeName _ | getNode _ _ | listNodes | listAvailableNodes
    | getJob _ _ | listJobs | getWorker _ _ | getWorkerAcrossTenants _ | getWorkerByNode _ _
    | listWorkers | getLeaseByJob _ _ | getLeaseByWorker _ _ | listLeases => rfl
    | _ => contradiction
  rw [hdb]
  exact h env

theorem wp_saveJob {job : Job} (stored : Job) {Q : Except Err Unit → DB → Prop}
    (hstored : db.jobs.get? job.id = some stored) (hspends : stored.Spends job)
    (hok : ∀ db', db'.jobs = db.jobs.upsert job → Q (.ok ()) db') (herror : ∀ e, Q (.error e) db)
    : wp postgres H spends (JobRepository.save job) Q db := by
  refine ⟨?_, ?_⟩
  . intro saved hsaved
    injection hsaved with hsaved
    rw [← hsaved]
    exact ⟨stored, hstored, hspends⟩
  . intro env _
    rw [wp_ofExcept]
    rcases Call.exec_saveJob env db job with ⟨e, heq⟩ | ⟨heq, _, _⟩
    . dsimp only
      rw [heq]
      exact herror e
    . dsimp only
      rw [heq]
      exact hok _ rfl

theorem wp_reclaimJob {job : Job} (stored : Job) {node : Option Node} {deleted : Bool}
    {Q : Except Err Bool → DB → Prop} (hstored : db.jobs.get? job.id = some stored)
    (hspends : ∀ now job', (Job.reclaim now).run job = .ok () job' → stored.Spends job')
    (hkept : ∀ r db', db'.jobs = db.jobs → Q r db')
    (hsaved : ∀ now job' db', (Job.reclaim now).run job = .ok () job' →
      db'.jobs = db.jobs.upsert job' → Q (.ok true) db')
    : wp postgres H spends (reclaimJob job node deleted) Q db := by
  have hmove : ∀ db1, db1.jobs = db.jobs → wp postgres H spends (reclaimJob job none true) Q db1 := by
    intro db1 hdb1
    apply wp_reclaimJob_move
    . intro f hf
      apply wp_read (by rfl)
      intro env
      exact hf env.now
    . intro now job' hrun
      obtain ⟨_, _, hmoves⟩ := Job.reclaim_moves hrun
      apply wp_saveJob stored
      . rw [hmoves.id, hdb1]
        exact hstored
      . exact hspends _ job' hrun
      . intro db' hdb'
        rw [hdb1] at hdb'
        exact hsaved _ job' db' hrun hdb'
      . exact fun e => hkept _ db1 hdb1
    . intro _
      exact hkept _ db1 hdb1
  have hrelease : ∀ db1, db1.jobs = db.jobs → wp postgres H spends (reclaimJob job node true) Q db1 := by
    intro db1 hdb1
    cases node with
    | none => exact hmove db1 hdb1
    | some node =>
      rw [reclaimJob_release, wp_bind]
      apply wp_keepsJobs (.call (by trivial))
      intro r db2 hdb2
      cases r with
      | error e => exact hkept _ db2 (hdb2.trans hdb1)
      | ok _ => exact hmove db2 (hdb2.trans hdb1)
  cases deleted with
  | true => exact hrelease db rfl
  | false =>
    have hdelete : keepsJobs (.deleteLease job.id job.tenantId) := trivial
    rw [reclaimJob_delete]
    exact ⟨spends_of_keepsJobs hdelete, fun env _ => hrelease _ (jobs_exec hdelete env)⟩

theorem makes_recoverWorker (worker : Option Worker)
    : Makes keepsJobs (RecoverExpiredLease.recoverWorker worker) := by
  cases worker with
  | none => trivial
  | some worker => exact .call (by trivial)

theorem wp_recoverExpired (lease : Lease)
    : wp postgres H spends (RecoverExpiredLease.recover lease) (fun _ _ => True) db := by
  unfold RecoverExpiredLease.recover
  apply wp_read (by rfl)
  intro env
  split
  . trivial
  . apply wp_seq (fun _ _ => trivial)
    apply wp_keepsJobs (.perform (by trivial))
    rintro _ db1 _ deleted _
    split
    . trivial
    . apply wp_read (by rfl)
      intro env
      apply wp_read (by rfl)
      intro env'
      split
      . apply wp_keepsJobs (makes_recoverWorker _)
        exact fun _ _ _ => trivial
      . next job hjob =>
        have ⟨hstored, _⟩ := PostgresJobRepository.getById_eq_some hjob
        apply wp_seq (fun _ _ => trivial)
        apply wp_keepsJobs (makes_recoverWorker _)
        rintro _ db2 hdb2 _ _
        unfold RecoverExpiredLease.reclaim
        have hfind : Makes keepsJobs (RecoverExpiredLease.findNode job lease.tenantId) := by
          unfold RecoverExpiredLease.findNode
          cases job.assignedNodeId with
          | none => trivial
          | some nodeId => exact .perform (by trivial)
        apply wp_seq (fun _ _ => trivial)
        apply wp_keepsJobs hfind
        rintro _ db3 hdb3 node _
        apply wp_seq (fun _ _ => trivial)
        have hget : db3.jobs.get? job.id = some job := by
          rw [hdb3, hdb2, Table.key_of_get? hstored]
          exact hstored
        have hrecord : ∀ (db' : DB) (reclaimed : Bool), wp postgres H spends
            (if reclaimed then
              RecordJobEventsService.recordForJob job
                (if job.isCancelling then .jobCancelled else .jobReclaimed)
            else
              pure ()) (fun _ _ => True) db' := by
          intro db' reclaimed
          split
          . apply wp_keepsJobs (.call (by trivial))
            exact fun _ _ _ => trivial
          . trivial
        apply wp_reclaimJob job hget
        . intro now job' hrun
          have ⟨_, _, hmoves⟩ := Job.reclaim_moves hrun
          exact hmoves.spends
        . intro _ db' _ reclaimed _
          exact hrecord db' reclaimed
        . intro _ _ db' _ _ reclaimed _
          exact hrecord db' reclaimed

structure Reclaimable (origin db : DB) (job : Job) : Prop where
  copy : origin.jobs.get? job.id = some job
  stored : ∃ stored, db.jobs.get? job.id = some stored
    ∧ (stored = job ∨ ∃ now, (Job.reclaim now).run job = .ok () stored)

theorem Reclaimable.reclaimed {origin db' : DB} {job other job' : Job} {now : Time}
    (h : Reclaimable origin db other) (hcopy : origin.jobs.get? job.id = some job)
    (hrun : (Job.reclaim now).run job = .ok () job') (hdb' : db'.jobs = db.jobs.upsert job')
    : Reclaimable origin db' other := by
  have ⟨_, _, hmoves⟩ := Job.reclaim_moves hrun
  refine ⟨h.copy, ?_⟩
  rw [hdb', Table.get?_upsert]
  split
  . next hid =>
    have heq := h.copy
    rw [← hid, hmoves.id, hcopy] at heq
    injection heq with heq
    rw [← heq]
    exact ⟨job', rfl, .inr ⟨now, hrun⟩⟩
  . exact h.stored

theorem wp_recoverOffline {origin : DB} {offline : List NodeId} {worker : Worker} {workers : List Worker}
    (h : ∀ other ∈ worker :: workers, ∀ job, other.runningJob = some job → Reclaimable origin db job)
    : wp postgres H spends (RecoverOfflineNode.recover offline worker)
        (fun _ db' => ∀ other ∈ workers, ∀ job, other.runningJob = some job →
          Reclaimable origin db' job) db := by
  have hkept : ∀ db', db'.jobs = db.jobs → ∀ other ∈ workers, ∀ job, other.runningJob = some job →
      Reclaimable origin db' job := by
    intro db' hdb' other hother job hjob
    have ⟨hcopy, hstored⟩ := h other (List.mem_cons_of_mem _ hother) job hjob
    rw [← hdb'] at hstored
    exact ⟨hcopy, hstored⟩
  unfold RecoverOfflineNode.recover
  split
  . exact hkept db rfl
  . cases hrunning : worker.runningJob with
    | none => exact hkept db rfl
    | some job =>
      have ⟨hcopy, stored, hstored, hor⟩ := h worker List.mem_cons_self job hrunning
      have hreclaim : ∀ deleted db1, db1.jobs = db.jobs → wp postgres H spends
          (RecoverOfflineNode.reclaim worker job deleted)
          (fun _ db' => ∀ other ∈ workers, ∀ job, other.runningJob = some job →
            Reclaimable origin db' job) db1 := by
        intro deleted db1 hdb1
        have hrecord : ∀ (db2 : DB), (∀ other ∈ workers, ∀ job, other.runningJob = some job →
            Reclaimable origin db2 job) → ∀ reclaimed : Bool, wp postgres H spends
            (if reclaimed then RecordJobEventsService.recordForJob job .jobReclaimed else pure ())
            (fun _ db' => ∀ other ∈ workers, ∀ job, other.runningJob = some job →
              Reclaimable origin db' job) db2 := by
          intro db2 hdb2 reclaimed
          split
          . apply wp_keepsJobs (.call (by trivial))
            intro _ db' hdb' other hother job hjob
            have ⟨hcopy, hstored⟩ := hdb2 other hother job hjob
            rw [← hdb'] at hstored
            exact ⟨hcopy, hstored⟩
          . exact hdb2
        unfold RecoverOfflineNode.reclaim
        rw [wp_bind]
        apply wp_keepsJobs (.call (by trivial))
        intro r db2 hdb2
        have hdb2 := hdb2.trans hdb1
        cases r with
        | error e => exact hkept db2 hdb2
        | ok _ =>
          dsimp only
          rw [wp_bind]
          apply wp_reclaimJob stored
          . rw [hdb2]
            exact hstored
          . intro now job' hrun
            rcases hor with rfl | ⟨now', hrun'⟩
            . have ⟨_, _, hmoves⟩ := Job.reclaim_moves hrun
              exact hmoves.spends
            . exact Job.reclaim_spends hrun' hrun
          . intro r db3 hdb3
            have hdb3 := hkept db3 (hdb3.trans hdb2)
            cases r with
            | error e => exact hdb3
            | ok reclaimed => exact hrecord db3 hdb3 reclaimed
          . intro now job' db3 hrun hdb3
            rw [hdb2] at hdb3
            apply hrecord
            intro other hother job₂ hjob₂
            exact (h other (List.mem_cons_of_mem _ hother) job₂ hjob₂).reclaimed hcopy hrun hdb3
      apply wp_read (by rfl)
      intro env
      split
      . exact hreclaim false db rfl
      . apply wp_read (by rfl)
        intro env'
        split
        . exact hkept db rfl
        . rw [wp_bind]
          apply wp_keepsJobs (.perform (by trivial))
          intro r db1 hdb1
          cases r with
          | error e => exact hkept db1 hdb1
          | ok deleted =>
            dsimp only
            split
            . exact hkept db1 hdb1
            . exact hreclaim true db1 hdb1

theorem wp_recoverOfflineNodes
    : wp postgres H spends RecoverOfflineNode.execute (fun _ _ => True) db := by
  unfold RecoverOfflineNode.execute
  apply wp_read (by rfl)
  intro env
  apply wp_read (by rfl)
  intro env'
  dsimp only
  split
  . trivial
  . apply wp_read (by rfl)
    intro env''
    apply wp_forM (fun workers db' => ∀ worker ∈ workers, ∀ job, worker.runningJob = some job →
      Reclaimable db db' job)
    . intro worker hworker job hjob
      have ⟨row, _, hentity⟩ := List.mem_filterMap.mp hworker
      have hget := PostgresWorkerRepository.toEntity_runningJob hentity hjob
      exact ⟨hget, job, hget, .inl rfl⟩
    . intro worker workers db' h
      apply wp_mono (wp_recoverOffline h)
      intro r db'' h''
      cases r with
      | ok _ => exact h''
      | error e => trivial
    . exact fun _ _ => trivial

theorem wp_unschedule {job : Job} {node : Node} {Q : Except Err Node → DB → Prop}
    (hstored : db.jobs.get? job.id = some job)
    (hQ : ∀ r db', (∀ id ≠ job.id, db'.jobs.get? id = db.jobs.get? id) → Q r db')
    : wp postgres H spends (SchedulerLoop.unschedule job node) Q db := by
  unfold SchedulerLoop.unschedule
  simp only [plainRelease_bind]
  rw [wp_bind, wp_runCommand]
  cases hrun : Job.unschedule.run job with
  | error e _ => exact hQ _ db (fun _ _ => rfl)
  | ok _ job' =>
    have hmoves := Job.unschedule_moves hrun
    dsimp only
    rw [wp_bind]
    apply wp_keepsJobs (.call (by trivial))
    intro r db1 hdb1
    cases r with
    | error e =>
      apply hQ
      intro id _
      rw [hdb1]
    | ok _ =>
      dsimp only
      rw [wp_bind]
      apply wp_saveJob job
      . rw [hmoves.id, hdb1]
        exact hstored
      . exact hmoves.spends
      . intro db2 hdb2
        rw [wp_bind]
        have hothers : ∀ db' : DB, db'.jobs = db2.jobs →
            ∀ id ≠ job.id, db'.jobs.get? id = db.jobs.get? id := by
          intro db' hdb' id hid
          rw [hdb', hdb2, hdb1]
          apply Table.get?_upsert_of_ne
          rw [hmoves.id]
          exact hid.symm
        apply wp_keepsJobs (.call (by trivial))
        intro r db3 hdb3
        cases r with
        | error e => exact hQ _ db3 (hothers db3 hdb3)
        | ok _ => exact hQ _ db3 (hothers db3 hdb3)
      . intro e
        apply hQ
        intro id _
        rw [hdb1]

theorem makes_assign (job : Job) : Makes keepsJobs (assignWorker job) := by
  apply makes_assignWorker keepsJobs_of_isRead
  all_goals intros; trivial

theorem wp_place {now : NodeId → Time} {nodes : List Node} {job : Job}
    (hstored : db.jobs.get? job.id = some job)
    : wp postgres H spends (SchedulerLoop.place now nodes job)
        (fun _ db' => ∀ id ≠ job.id, db'.jobs.get? id = db.jobs.get? id) db := by
  have hkept : ∀ db' : DB, db'.jobs = db.jobs → ∀ id ≠ job.id, db'.jobs.get? id = db.jobs.get? id := by
    intro db' hdb' id _
    rw [hdb']
  unfold SchedulerLoop.place
  cases Scheduler.selectNode now job nodes with
  | none => exact hkept db rfl
  | some node =>
    dsimp only
    rw [wp_bind, wp_ofExcept]
    cases node.allocate job.resources with
    | error e => exact hkept db rfl
    | ok allocated =>
      dsimp only
      rw [wp_bind, wp_runCommand]
      cases hrun : (Job.assignTo allocated.id).run job with
      | error e _ => exact hkept db rfl
      | ok _ job' =>
        have hmoves := Job.assignTo_moves hrun
        dsimp only
        rw [wp_bind]
        apply wp_keepsJobs (.call (by trivial))
        intro r db1 hdb1
        cases r with
        | error e => exact hkept db1 hdb1
        | ok _ =>
          dsimp only
          rw [wp_bind]
          apply wp_saveJob job
          . rw [hmoves.id, hdb1]
            exact hstored
          . exact hmoves.spends
          . intro db2 hdb2
            rw [hdb1] at hdb2
            have hothers : ∀ db' : DB, db'.jobs = db2.jobs →
                ∀ id ≠ job.id, db'.jobs.get? id = db.jobs.get? id := by
              intro db' hdb' id hid
              rw [hdb', hdb2]
              apply Table.get?_upsert_of_ne
              rw [hmoves.id]
              exact hid.symm
            dsimp only
            rw [wp_bind]
            apply wp_keepsJobs (.call (by trivial))
            intro r db3 hdb3
            cases r with
            | error e => exact hothers db3 hdb3
            | ok _ =>
              dsimp only
              rw [wp_bind, wp_catching]
              apply wp_keepsJobs (.bind (makes_assign job') (fun _ => .pure _))
              intro r db4 hdb4
              have hdb4 := hdb4.trans hdb3
              cases r with
              | ok _ => exact hothers db4 hdb4
              | error e =>
                dsimp only
                split
                . apply wp_unschedule
                  . rw [hdb4, hdb2]
                    exact Table.get?_upsert_self _ _
                  . intro r db5 hdb5
                    have hdb5 : ∀ id ≠ job.id, db5.jobs.get? id = db.jobs.get? id := by
                      intro id hid
                      rw [hdb5 id (by rw [hmoves.id]; exact hid)]
                      exact hothers db4 hdb4 id hid
                    cases r with
                    | ok _ => exact hdb5
                    | error e => exact hdb5
                . exact hothers db4 hdb4
          . exact fun e => hkept db1 hdb1

theorem nodup_inPriorityOrder {jobs : List Job} (h : (jobs.map (·.id)).Nodup)
    : ((SchedulerLoop.inPriorityOrder jobs).map (·.id)).Nodup := by
  have hperm := (List.perm_insertionSort (fun a b : Job => b.priority ≤ a.priority)
    (jobs.filter (·.isQueued))).map (·.id)
  apply hperm.nodup_iff.mpr
  exact h.sublist (List.filter_sublist.map _)

theorem wp_schedulerTick : wp postgres H spends SchedulerLoop.execute (fun _ _ => True) db := by
  unfold SchedulerLoop.execute
  apply wp_read (by rfl)
  intro env
  apply wp_read (by rfl)
  intro env'
  apply wp_seq (fun _ _ => trivial)
  apply wp_foldlM (fun jobs _ db' => (jobs.map (·.id)).Nodup
    ∧ ∀ job ∈ jobs, db'.jobs.get? job.id = some job)
  . have hperm : ((Call.listJobs.exec env' db).1).Perm db.jobs.rows := env'.jobOrder.hperm _
    refine ⟨?_, ?_⟩
    . apply nodup_inPriorityOrder
      exact (hperm.map _).nodup_iff.mpr db.jobs.hnodup
    . intro job hjob
      have hmem := (List.perm_insertionSort _ _).mem_iff.mp hjob
      exact db.jobs.get?_key_of_mem (hperm.mem_iff.mp (List.mem_of_mem_filter hmem))
  . intro job jobs nodes db' ⟨hnodup, hstored⟩
    rw [List.map_cons, List.nodup_cons] at hnodup
    unfold SchedulerLoop.visit
    apply wp_read (by rfl)
    intro env
    apply wp_mono (wp_place (hstored job List.mem_cons_self))
    intro r db'' hothers
    cases r with
    | error e =>
      intro _ h
      contradiction
    | ok nodes' =>
      refine ⟨hnodup.right, ?_⟩
      intro other hother
      rw [hothers other.id]
      . exact hstored other (List.mem_cons_of_mem _ hother)
      . intro hid
        apply hnodup.left
        rw [← hid]
        exact List.mem_map_of_mem hother
  . exact fun _ _ _ _ _ => trivial

theorem wp_service {call : ServiceCall} (hcall : inBackground call)
    : wp postgres H spends call.run (fun _ _ => True) db := by
  cases call with
  | schedulerTick => exact wp_schedulerTick
  | markDeadWorkers =>
    apply wp_keepsJobs (makes_markDeadWorkers keepsJobs_of_isRead (fun _ => trivial))
    exact fun _ _ _ => trivial
  | recoverExpiredLeases =>
    unfold ServiceCall.run RecoverExpiredLease.execute
    apply wp_read (by rfl)
    intro env
    apply wp_forM (fun _ _ => True) trivial
    . intro lease leases db' _
      apply wp_mono (wp_recoverExpired lease)
      intro r db'' _
      cases r <;> trivial
    . exact fun _ _ => trivial
  | recoverOfflineNodes => exact wp_recoverOfflineNodes
  | _ => contradiction

theorem runningJob_getByIdAcrossTenants {env : Env} {workerId : WorkerId} {worker : Worker} {job : Job}
    (h : PostgresWorkerRepository.getByIdAcrossTenants env db workerId = some worker)
    (hjob : worker.runningJob = some job)
    : db.jobs.get? job.id = some job ∧ (notRunning db workerId → job.status ≠ .running) := by
  unfold PostgresWorkerRepository.getByIdAcrossTenants at h
  rw [Option.bind_eq_some_iff] at h
  have ⟨row, hrow, hentity⟩ := h
  have hget := PostgresWorkerRepository.toEntity_runningJob hentity hjob
  refine ⟨hget, ?_⟩
  intro hnot
  unfold PostgresWorkerRepository.toEntity at hentity
  split at hentity
  . contradiction
  . injection hentity with hentity
    rw [← hentity, Option.bind_eq_some_iff] at hjob
    have ⟨jobId, hjobId, hjobGet⟩ := hjob
    exact hnot row hrow jobId hjobId job hjobGet

structure Started (db : DB) (execution : Execution) (db' : DB) : Prop where
  moves : ∃ stored, db.jobs.get? execution.job.id = some stored
    ∧ stored.Moves execution.job .running stored.assignedNodeId
  jobs : db'.jobs = db.jobs.upsert execution.job

theorem wp_begin {workerId : WorkerId} (hstart : notRunning db workerId)
    : wp postgres H spends (WorkerExecutionLoop.begin workerId)
        (fun r db' => ∀ execution, r = .ok (some execution) → Started db execution db') db := by
  unfold WorkerExecutionLoop.begin
  apply wp_read (by rfl)
  intro env
  split
  . intro execution h
    contradiction
  . next worker hworker =>
    cases hrunning : worker.runningJob with
    | none =>
      intro execution h
      injection h with h
      contradiction
    | some job =>
      have ⟨hstored, hnot⟩ := runningJob_getByIdAcrossTenants hworker hrunning
      apply wp_read (by rfl)
      intro env'
      split
      . intro execution h
        contradiction
      . next lease _ =>
        split
        . next hisRunning => exact absurd (of_decide_eq_true hisRunning) (hnot hstart)
        . apply wp_read (by rfl)
          intro env''
          rw [wp_bind, wp_runCommand]
          cases hrun : (Worker.start (Call.utcNow.exec env'' db).1).run worker with
          | error e _ =>
            intro execution h
            contradiction
          | ok job' worker' =>
            have ⟨job0, hjob0, hcommand, _⟩ := Worker.onRunningJob_ok hrun
            rw [hrunning] at hjob0
            injection hjob0 with hjob0
            subst hjob0
            have hmoves := Job.start_moves hcommand
            have hget : db.jobs.get? job'.id = some job := by
              rw [hmoves.id]
              exact hstored
            dsimp only
            rw [wp_bind]
            apply wp_saveJob job hget hmoves.spends
            . intro db' hdb' execution h
              injection h with h
              injection h with h
              subst h
              exact ⟨⟨job, hget, hmoves⟩, hdb'⟩
            . intro e execution h
              contradiction

def Holds (db : DB) (execution : Execution) : Prop :=
  db.jobs.get? execution.job.id = some execution.job ∧ execution.job.status = .running

theorem wp_deliverCancellation {execution : Execution} (h : Holds db execution)
    : wp postgres H spends (WorkerExecutionLoop.deliverCancellation execution)
        (fun r db' => db'.jobs = db.jobs
          ∧ ∀ execution', r = .ok execution' → execution'.job = execution.job) db := by
  have hsame : db.jobs = db.jobs ∧ ∀ execution', (Except.ok execution : Except Err Execution)
      = .ok execution' → execution'.job = execution.job := by
    refine ⟨rfl, ?_⟩
    intro execution' heq
    injection heq with heq
    rw [heq]
  unfold WorkerExecutionLoop.deliverCancellation
  split
  . exact hsame
  . apply wp_read (by rfl)
    intro env
    split
    . exact hsame
    . next current hcurrent =>
      -- nobody asks for a cancellation while the background loop is at this worker
      have ⟨hstored, _⟩ := PostgresJobRepository.getById_eq_some hcurrent
      have heq := h.left.symm.trans hstored
      injection heq with heq
      have hnot : current.isCancelling = false := by
        rw [← heq]
        simp [Job.isCancelling, h.right]
      rw [hnot]
      exact hsame

theorem makes_renew (execution : Execution)
    : Makes keepsJobs (renewLease execution.worker.id execution.leaseId execution.tenantId) :=
  makes_renewLease keepsJobs_of_isRead (fun _ _ _ => trivial) _ _ _ _

theorem wp_keepLeaseAlive {execution : Execution} (h : Holds db execution)
    : wp postgres H spends (WorkerExecutionLoop.keepLeaseAlive execution)
        (fun r db' => db'.jobs = db.jobs
          ∧ ∀ execution', r = .ok execution' → execution'.job = execution.job) db := by
  have hok : ∀ (execution' : Execution) (db' : DB), execution'.job = execution.job →
      db'.jobs = db.jobs → wp postgres H spends
        (if execution'.renewing then WorkerExecutionLoop.deliverCancellation execution'
          else return execution')
        (fun r db' => db'.jobs = db.jobs
          ∧ ∀ execution', r = .ok execution' → execution'.job = execution.job) db' := by
    intro execution' db' hjob hdb'
    split
    . have hholds : Holds db' execution' := by
        unfold Holds
        rw [hjob, hdb']
        exact h
      apply wp_mono (wp_deliverCancellation hholds)
      intro r db'' ⟨hdb'', hsame⟩
      rw [hdb', hjob] at *
      exact ⟨hdb'', hsame⟩
    . refine ⟨hdb', ?_⟩
      intro execution'' heq
      injection heq with heq
      rw [← heq, hjob]
  unfold WorkerExecutionLoop.keepLeaseAlive
  split
  . refine ⟨rfl, ?_⟩
    intro execution' heq
    injection heq with heq
    rw [← heq]
  . rw [wp_bind, wp_catching, wp_bind]
    apply wp_keepsJobs (makes_renew execution)
    intro r db' hdb'
    cases r with
    | ok _ => exact hok execution db' rfl hdb'
    | error e =>
      cases e with
      | leaseNotFound id => exact hok _ db' rfl hdb'
      | _ => exact hok _ db' rfl hdb'

theorem wp_recordOutcome {execution : Execution} {result : JobExecutionResult} {now : Time}
    : wp postgres H spends (WorkerExecutionLoop.recordOutcome execution result now)
        (fun r db' => db'.jobs = db.jobs
          ∧ ∀ job' worker', r = .ok (job', worker') →
            ∃ next, execution.job.Moves job' next execution.job.assignedNodeId) db := by
  apply WorkerExecutionLoop.wp_recordOutcome_of
  . intro e
    refine ⟨rfl, ?_⟩
    intro _ _ h
    contradiction
  . intro job' hmoves
    apply wp_keepsJobs (.call (by trivial))
    intro r db' hdb'
    refine ⟨hdb', ?_⟩
    intro job'' worker'' h
    cases r with
    | error e => contradiction
    | ok _ =>
      injection h with h
      injection h with h _
      rw [← h]
      exact ⟨_, hmoves⟩

theorem wp_finish {execution : Execution} {result : JobExecutionResult} (h : Holds db execution)
    : wp postgres H spends (WorkerExecutionLoop.finish execution result) (fun _ _ => True) db := by
  unfold WorkerExecutionLoop.finish
  split
  . trivial
  . apply wp_read (by rfl)
    intro env
    apply wp_seq (fun _ _ => trivial)
    apply wp_mono wp_recordOutcome
    rintro r db1 ⟨hdb1, hmoves⟩ ⟨job', worker'⟩ rfl
    have ⟨next, hmoves⟩ := hmoves job' worker' rfl
    dsimp only
    have hrelease : Makes keepsJobs (releaseLease worker'.id execution.leaseId execution.tenantId) := by
      apply makes_releaseLease keepsJobs_of_isRead
      all_goals intros; trivial
    have hnode : Makes keepsJobs (releaseNode job' execution.tenantId) :=
      makes_releaseNode keepsJobs_of_isRead (fun _ => trivial) _ _
    apply wp_seq (fun _ _ => trivial)
    apply wp_keepsJobs hrelease
    rintro _ db2 hdb2 _ _
    apply wp_seq (fun _ _ => trivial)
    apply wp_keepsJobs (.call (by trivial))
    rintro _ db3 hdb3 _ _
    apply wp_seq (fun _ _ => trivial)
    apply wp_keepsJobs hnode
    rintro _ db4 hdb4 _ _
    apply wp_read (by rfl)
    intro env'
    generalize ((Call.getJob job'.id execution.tenantId).exec env' db4).1 = current
    have ⟨hid, _, _, _, hstatus⟩ := WorkerExecutionLoop.keepCancellationRequest_same job' current
    have ⟨hmax, hcount⟩ := WorkerExecutionLoop.keepCancellationRequest_retries job' current
    apply wp_saveJob execution.job
    . rw [hid, hmoves.id, hdb4, hdb3, hdb2, hdb1]
      exact h.left
    . exact hmoves.spends.trans (Job.spends_of_eq hmax hcount hstatus)
    . exact fun _ _ => trivial
    . exact fun _ => trivial

theorem wp_keepLeaseAlive_ok (execution : Execution) (db : DB)
    : wp postgres anyClock (fun _ => keepsJobs) (WorkerExecutionLoop.keepLeaseAlive execution)
        (fun r _ => ∃ execution', r = .ok execution') db := by
  apply WorkerExecutionLoop.wp_keepLeaseAlive_of (fun _ => True) trivial
  . intro c _ hc _
    refine ⟨?_, fun _ _ => trivial⟩
    cases c <;> trivial
  . exact wp_of_makes (fun _ => True) (fun _ _ _ hc => hc) (fun _ _ _ _ _ _ => trivial) (makes_renew execution)
      (fun _ _ _ => trivial) trivial
  . exact fun execution' _ _ _ => ⟨execution', rfl⟩

end programs

section

variable {origin db db' : DB} {executed : List JobId}

theorem Paid.runs {α : Type} {p : Service α} {Q : Except Err α → DB → Prop} {r : Except Err α}
    (h : Paid origin executed db) (hruns : Runs postgres anyClock p db r db')
    (hwp : wp postgres anyClock spends p Q db) : Paid origin executed db' := by
  have hkeep := wp_keep (Paid origin executed) (fun _ _ env hpaid hc _ => hpaid.exec env hc) hwp h
  exact (hruns.of_wp hkeep).right

theorem Paid.breaks {α : Type} {p : Service α} {Q : Except Err α → DB → Prop}
    (h : Paid origin executed db) (hbreaks : Breaks postgres anyClock p db db')
    (hwp : wp postgres anyClock spends p Q db) : Paid origin executed db' :=
  hbreaks.invariant (fun _ _ env hpaid hc _ => hpaid.exec env hc) hwp h

theorem Paid.congr (h : Paid origin executed db) (hjobs : db'.jobs = db.jobs)
    : Paid origin executed db' := by
  unfold Paid
  rw [hjobs]
  exact h

theorem Paid.started {execution : Execution} (h : Paid origin executed db)
    (hstarted : Started db execution db') : Paid origin (execution.job.id :: executed) db' := by
  have ⟨⟨stored, hstored, hmoves⟩, hjobs⟩ := hstarted
  intro id job hjob
  have ⟨job', hjob', hspends, hpaid⟩ := h id job hjob
  rw [hjobs]
  by_cases hid : execution.job.id = id
  . subst hid
    rw [hstored] at hjob'
    injection hjob' with heq
    subst heq
    refine ⟨execution.job, Table.get?_upsert_self _ _, hspends.trans hmoves.spends, ?_⟩
    have hscheduled : stored.status.attempts = 0 := by
      have hallowed := hmoves.allowed
      cases hstatus : stored.status <;> rw [hstatus] at hallowed <;> first | rfl | contradiction
    rw [List.count_cons_self, hmoves.retryCount_eq (by decide), hmoves.status]
    rw [hscheduled] at hpaid
    have hone : JobStatus.running.attempts = 1 := rfl
    omega
  . refine ⟨job', (Table.get?_upsert_of_ne _ hid).trans hjob', hspends, ?_⟩
    rw [List.count_cons_of_ne hid]
    exact hpaid

theorem holds_of_started {execution : Execution} (h : Started db execution db') : Holds db' execution := by
  have ⟨⟨stored, _, hmoves⟩, hjobs⟩ := h
  refine ⟨?_, hmoves.status⟩
  rw [hjobs]
  exact Table.get?_upsert_self _ _

theorem Renews.holds {execution execution' : Execution} (h : Renews execution db execution' db')
    (hholds : Holds db execution) : Holds db' execution' ∧ db'.jobs = db.jobs := by
  induction h with
  | done execution db => exact ⟨hholds, rfl⟩
  | renewed hruns _ ih =>
    have ⟨hjobs, hjob⟩ := hruns.of_wp (wp_keepLeaseAlive hholds)
    have ⟨hholds', hjobs'⟩ := ih (by
      unfold Holds
      rw [hjob _ rfl, hjobs]
      exact hholds)
    exact ⟨hholds', hjobs'.trans hjobs⟩
  | @failed execution execution' db1 db2 db3 hbreaks _ ih =>
    have hjobs : db2.jobs = db1.jobs := by
      refine hbreaks.invariant (I := fun db => db.jobs = db1.jobs) ?_ (wp_keepLeaseAlive_ok execution db1) rfl
      intro db c env hdb hc _
      rw [← hdb]
      exact jobs_exec hc env
    have ⟨hholds', hjobs'⟩ := ih (by
      unfold Holds
      rw [hjobs]
      exact hholds)
    exact ⟨hholds', hjobs'.trans hjobs⟩

theorem Paid.iterates {workerId : WorkerId} {executed' : List JobId} (h : Paid origin executed db)
    (hiterates : Iterates notRunning workerId db executed' db') : Paid origin (executed' ++ executed) db' := by
  have hrunning : ∀ {execution execution' : Execution} {db1 db2 : DB}, notRunning db workerId →
      Runs postgres anyClock (WorkerExecutionLoop.begin workerId) db (.ok (some execution)) db1 →
      Renews execution db1 execution' db2 →
      Paid origin (execution.job.id :: executed) db2 ∧ Holds db2 execution' := by
    intro execution execution' db1 db2 hstart hruns hrenews
    have hstarted := hruns.of_wp (wp_begin hstart) execution rfl
    have ⟨hholds, hjobs⟩ := hrenews.holds (holds_of_started hstarted)
    exact ⟨(h.started hstarted).congr hjobs, hholds⟩
  cases hiterates with
  | nothing hstart hruns _ => exact h.runs hruns (wp_begin hstart)
  | notStarted hstart hbreaks => exact h.breaks hbreaks (wp_begin hstart)
  | notRun hstart hruns hrenews => exact (hrunning hstart hruns hrenews).left
  | finished result hstart hruns hrenews hfinish =>
    have ⟨hpaid, hholds⟩ := hrunning hstart hruns hrenews
    exact hpaid.runs hfinish (wp_finish hholds)
  | notFinished result hstart hruns hrenews hbreaks =>
    have ⟨hpaid, hholds⟩ := hrunning hstart hruns hrenews
    exact hpaid.breaks hbreaks (wp_finish hholds)

theorem Paid.drives {workers : List Worker} {executed' : List JobId} (h : Paid origin executed db)
    (hdrives : Drives notRunning workers db executed' db') : Paid origin (executed' ++ executed) db' := by
  induction hdrives generalizing executed with
  | done _ _ => exact h
  | skip _ _ ih => exact ih h
  | drive hiterates _ ih =>
    rw [List.append_assoc]
    exact ih (h.iterates hiterates)

theorem Activity.paid (h : Activity notRunning origin executed db) : Paid origin executed db := by
  induction h with
  | start =>
    intro id job hjob
    refine ⟨job, hjob, Job.spends_of_eq rfl rfl rfl, ?_⟩
    rw [List.count_nil]
    omega
  | turn _ hturn ih =>
    cases hturn with
    | tick hscheduler hdrives => exact (ih.runs hscheduler wp_schedulerTick).drives hdrives
    | service _ hcall hruns => exact ih.runs hruns (wp_service hcall)
    | stopped _ hcall hbreaks => exact ih.breaks hbreaks (wp_service hcall)

end

theorem executions_bounded {origin db : DB} {executed : List JobId}
    (h : Activity notRunning origin executed db) (id : JobId) (job : Job)
    (hjob : origin.jobs.get? id = some job)
    : executed.count id ≤ job.maxRetries + 1
        ∧ ∃ job', db.jobs.get? id = some job'
          ∧ executed.count id + job.retryCount ≤ job'.retryCount + 1 := by
  have ⟨job', hjob', hspends, hpaid⟩ := h.paid id job hjob
  have hattempts : job'.status.attempts ≤ 1 := by
    cases job'.status <;> decide
  have hbudget := hspends.budget
  refine ⟨?_, job', hjob', ?_⟩
  . omega
  . omega

section

variable {db db' : DB}

theorem renews_of_runs {n : Nat} {execution : Execution} {r : Except Err Execution}
    (h : Runs postgres anyClock (WorkerExecutionLoop.renewals n execution) db r db')
    : ∃ execution', r = .ok execution' ∧ Renews execution db execution' db' := by
  induction n generalizing execution db with
  | zero =>
    obtain ⟨rfl, rfl⟩ := h
    exact ⟨execution, rfl, .done execution _⟩
  | succ n ih =>
    rcases (runs_bind_iff _ _ _ _ _).mp h with ⟨execution', db1, hruns, hrest⟩ | ⟨e, herror, _⟩
    . have ⟨execution'', hr, hrenews⟩ := ih hrest
      exact ⟨execution'', hr, .renewed hruns hrenews⟩
    . have ⟨_, hok⟩ := herror.of_wp (wp_keepLeaseAlive_ok execution db)
      contradiction

theorem iterates_of_runs {workerId : WorkerId} {n : Nat} {result : JobExecutionResult}
    {r : Except Err Unit}
    (h : Runs postgres anyClock (WorkerExecutionLoop.execute workerId n result) db r db')
    : ∃ executed, Iterates anyStart workerId db executed db' := by
  rcases (runs_bind_iff _ _ _ _ _).mp h with ⟨started, db1, hbegin, hrest⟩ | ⟨e, herror, _⟩
  . cases started with
    | none =>
      obtain ⟨_, rfl⟩ := hrest
      refine ⟨[], .nothing trivial hbegin ?_⟩
      intro execution heq
      injection heq with heq
      contradiction
    | some execution =>
      rcases (runs_bind_iff _ _ _ _ _).mp hrest with ⟨execution', db2, hrenewals, hfinish⟩ | ⟨e, herror, _⟩
      . have ⟨execution'', heq, hrenews⟩ := renews_of_runs hrenewals
        injection heq with heq
        subst heq
        exact ⟨_, .finished result trivial hbegin hrenews hfinish⟩
      . have ⟨_, heq, _⟩ := renews_of_runs herror
        contradiction
  . exact ⟨[], .nothing trivial herror (fun _ => by simp)⟩

theorem drives_of_runs {outcome : WorkerId → Nat × JobExecutionResult} {workers : List Worker}
    {r : Except Err Unit} (h : Runs postgres anyClock (forM workers (ClusterTick.drive outcome)) db r db')
    : ∃ executed, Drives anyStart workers db executed db' := by
  induction workers generalizing db with
  | nil =>
    obtain ⟨_, rfl⟩ := h
    exact ⟨[], .done [] _⟩
  | cons worker workers ih =>
    -- whatever the loop of the worker raises is caught, so the next worker gets its turn
    have hdrive : ∀ {r : Except Err Unit} {db1 : DB},
        Runs postgres anyClock (ClusterTick.drive outcome worker) db r db1 →
        r = .ok () ∧ ((worker.runningJob = none ∨ worker.managedBy = .agent) ∧ db1 = db
          ∨ ∃ executed, Iterates anyStart worker.id db executed db1) := by
      intro r db1 hruns
      unfold ClusterTick.drive at hruns
      split at hruns
      . next hnone => exact ⟨hruns.left, .inl ⟨.inl hnone, hruns.right⟩⟩
      . split at hruns
        . next hagent => exact ⟨hruns.left, .inl ⟨.inr hagent, hruns.right⟩⟩
        . rcases exists_of_runs_catching hruns with ⟨_, hruns, hr⟩ | ⟨e, db2, hruns, hhandler⟩
          . exact ⟨hr, .inr (iterates_of_runs hruns)⟩
          . obtain ⟨hr, rfl⟩ := hhandler
            exact ⟨hr, .inr (iterates_of_runs hruns)⟩
    rw [List.forM_cons] at h
    rcases (runs_bind_iff _ _ _ _ _).mp h with ⟨_, db1, hfirst, hrest⟩ | ⟨e, herror, _⟩
    . have ⟨executed', hdrives⟩ := ih hrest
      rcases (hdrive hfirst).right with ⟨hskip, rfl⟩ | ⟨executed, hiterates⟩
      . exact ⟨executed', .skip hskip hdrives⟩
      . exact ⟨executed' ++ executed, .drive hiterates hdrives⟩
    . have := (hdrive herror).left
      contradiction

theorem turn_of_runs {outcome : WorkerId → Nat × JobExecutionResult} {r : Except Err Unit}
    (h : Runs postgres anyClock (ClusterTick.execute outcome) db r db')
    : ∃ executed, Turn anyStart db executed db' := by
  rcases (runs_bind_iff _ _ _ _ _).mp h with ⟨_, db1, hscheduler, hrest⟩ | ⟨e, herror, _⟩
  . have ⟨env, _, hworkers⟩ := (runs_perform_bind_iff _ _ _ _ _).mp hrest
    have ⟨executed, hdrives⟩ := drives_of_runs hworkers
    exact ⟨executed, .tick hscheduler hdrives⟩
  . exact ⟨[], .service .schedulerTick rfl herror⟩

end

section faults

variable {P : DB → WorkerId → Prop} [∀ db workerId, Decidable (P db workerId)] {db db' : DB} {env : Env}

def faultyTick (P : DB → WorkerId → Prop) [∀ db workerId, Decidable (P db workerId)] (env : Env) (db : DB)
    : Option (JobId × DB) :=
  match eval postgres env SchedulerLoop.execute db with
  | (.error _, _) => none
  | (.ok _, db1) =>
    match PostgresWorkerRepository.listAcrossTenants env db1 with
    | [] => none
    | worker :: _ =>
      if P db1 worker.id then
        match eval postgres env (WorkerExecutionLoop.begin worker.id) db1 with
        | (.ok (some execution), db') => some (execution.job.id, db')
        | _ => none
      else
        none

theorem turn_of_faultyTick {id : JobId} (h : faultyTick P env db = some (id, db'))
    : Turn P db [id] db' := by
  unfold faultyTick at h
  have hscheduler := runs_eval (M := postgres) (H := anyClock) (x := env) trivial SchedulerLoop.execute db
  split at h
  . contradiction
  . next db1 heval =>
    rw [heval] at hscheduler
    split at h
    . contradiction
    . next worker workers hworkers =>
      split at h
      . next hstart =>
        have hbegin := runs_eval (M := postgres) (H := anyClock) (x := env) trivial
          (WorkerExecutionLoop.begin worker.id) db1
        split at h
        . next execution db2 hexecution =>
          rw [hexecution] at hbegin
          injection h with h
          injection h with hid hdb
          subst hid hdb
          have hdrives : Drives P (PostgresWorkerRepository.listAcrossTenants env db1) db1
              [execution.job.id] db2 := by
            rw [hworkers]
            exact .drive (.notRun hstart hbegin (.done _ _)) (.done _ _)
          exact .tick hscheduler hdrives
        . contradiction
      . contradiction

end faults

def oneJob (maxRetries : Nat) : DB :=
  replay
    [({ now := 0 }, .createNode ⟨4, 4096, 0⟩ ⟨0⟩ none), ({ now := 0 }, .postWorkers ⟨1⟩ ⟨0⟩ .dashboard)]
    { DB.empty with
      jobs := DB.empty.jobs.upsert
        { id := ⟨0⟩
          resources := ⟨1, 1, 0⟩
          tenantId := ⟨0⟩
          maxRetries := maxRetries
          status := .queued
          submittedAt := 0
          hcpu := Nat.one_pos
          hmemory := Nat.one_pos }
      nextId := 1 }

theorem executed_again
    : ((oneJob 0).jobs.get? ⟨0⟩).map (·.maxRetries) = some 0
        ∧ ∃ db, Activity anyStart (oneJob 0) [⟨0⟩, ⟨0⟩] db := by
  refine ⟨by decide +kernel, ?_⟩
  have hticks : (faultyTick anyStart { now := 0 } (oneJob 0)).any (fun first =>
      (faultyTick anyStart { now := seconds 1 } first.2).any (fun second =>
        first.1 = ⟨0⟩ ∧ second.1 = ⟨0⟩)) := by
    decide +kernel
  have ⟨⟨id, db⟩, hfirst, hrest⟩ := (Option.any_eq_true _ _).mp hticks
  have ⟨⟨id', db'⟩, hsecond, heq⟩ := (Option.any_eq_true _ _).mp hrest
  have ⟨hid, hid'⟩ := of_decide_eq_true heq
  dsimp only at hid hid'
  subst hid hid'
  exact ⟨db', .turn (.turn .start (turn_of_faultyTick hfirst)) (turn_of_faultyTick hsecond)⟩

def recover (env : Env) (db : DB) : DB :=
  (eval postgres env ServiceCall.recoverExpiredLeases.run db).2

theorem executions_bounded_afterRecovery
    : ∃ job db, (oneJob 1).jobs.get? ⟨0⟩ = some job
        ∧ Activity notRunning (oneJob 1) [⟨0⟩, ⟨0⟩] db
        ∧ [⟨0⟩, ⟨0⟩].count (⟨0⟩ : JobId) ≤ job.maxRetries + 1
        ∧ ∃ job', db.jobs.get? ⟨0⟩ = some job'
          ∧ [⟨0⟩, ⟨0⟩].count (⟨0⟩ : JobId) + job.retryCount ≤ job'.retryCount + 1 := by
  have hsome : ((oneJob 1).jobs.get? ⟨0⟩).isSome := by decide +kernel
  have ⟨job, hjob⟩ := Option.isSome_iff_exists.mp hsome
  have hticks : (faultyTick notRunning { now := 0 } (oneJob 1)).any (fun first =>
      (faultyTick notRunning { now := seconds 40 } (recover { now := seconds 40 } first.2)).any
        (fun second => first.1 = ⟨0⟩ ∧ second.1 = ⟨0⟩)) := by
    decide +kernel
  have ⟨⟨id, db⟩, hfirst, hrest⟩ := (Option.any_eq_true _ _).mp hticks
  have ⟨⟨id', db'⟩, hsecond, heq⟩ := (Option.any_eq_true _ _).mp hrest
  have ⟨hid, hid'⟩ := of_decide_eq_true heq
  dsimp only at hid hid'
  subst hid hid'
  have hrecover : Turn notRunning db [] (recover { now := seconds 40 } db) :=
    .service .recoverExpiredLeases rfl (runs_eval trivial _ _)
  have hactivity : Activity notRunning (oneJob 1) [⟨0⟩, ⟨0⟩] db' :=
    .turn (.turn (.turn .start (turn_of_faultyTick hfirst)) hrecover) (turn_of_faultyTick hsecond)
  exact ⟨job, db', hjob, hactivity, executions_bounded hactivity ⟨0⟩ job hjob⟩

end Executions

end AetherGrid
