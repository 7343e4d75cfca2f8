import AetherGrid.Service.Impl.Outcome
import AetherGrid.Service.Lemmas.Registry

/-!
This module contains the proof that the services which drive a job through its lifecycle leave the
stores in order.
-/

namespace AetherGrid

open Prog

variable {H : Env → Prop} {db : DB} {n : Nat} {G : DB → Call → Prop}

theorem wp_getOwningWorker [Tolerant G] (hschema : Schema db) {workerId : WorkerId} {jobId : JobId}
    {tenant : TenantId} {Q : Except Err (Worker × Job) → DB → Prop} (herror : ∀ e, Q (.error e) db)
    (hok : ∀ worker job, Current db worker → worker.id = workerId → worker.tenantId = tenant →
      worker.runningJob = some job → job.id = jobId → Q (.ok (worker, job)) db)
    : wp postgres H G (getOwningWorker workerId jobId tenant) Q db := by
  unfold getOwningWorker
  refine wp_perform_bind rfl ?_
  intro env henv
  dsimp only [Call.exec]
  split
  . exact herror _
  . next worker hworker =>
    have ⟨hcurrent, hid, htenant⟩ := PostgresWorkerRepository.getById_eq_some hschema hworker
    split
    . exact herror _
    . split
      . exact herror _
      . next job hjob =>
        split
        . exact herror _
        . next hjobId =>
          simp only [ne_eq, not_not] at hjobId
          exact hok worker job hcurrent hid htenant hjob hjobId

theorem wp_moveJob (hinv : Inv db) {job : Job} (job' : Job) (hjob : db.jobs.get? job.id = some job)
    (hid : job'.id = job.id) (hresources : job'.resources = job.resources)
    (htenant : job'.tenantId = job.tenantId)
    (hassigned : job'.assignedNodeId = job.assignedNodeId ∨ job'.assignedNodeId = none)
    (hheld : Leased db job.id → job'.assignedNodeId = job.assignedNodeId ∧ job'.status.isHeld)
    (hactive : job'.status.isActive → Leased db job.id ∨ job.status.isActive)
    (hbecomes : job.Becomes job') (hendures : Leased db job.id → job.Endures job')
    {Q : Except Err Unit → DB → Prop}
    (h : Good db { db with jobs := db.jobs.upsert job' }
      → Q (.ok ()) { db with jobs := db.jobs.upsert job' })
    : wp postgres H (lawful n) (JobRepository.save job') Q db := by
  have hmem := Table.mem_of_get? hjob
  apply wp_saveJob hinv.schema
  . intro stored hstored
    rw [hid, hjob] at hstored
    injection hstored with hstored
    rw [← hstored, htenant]
  . have := hinv.schema.jobNode job hmem
    unfold PostgresJobRepository.assignedNodeSameTenant at this ⊢
    cases hassigned with
    | inl heq =>
      rw [heq, htenant]
      exact this
    | inr hnone =>
      rw [hnone]
      rfl
  . apply lawful_saveJob _ hbecomes
    . rw [hid]
      exact hendures
    . rw [hid]
      exact hjob
  . intro hschema
    apply h
    apply hinv.putJob hschema rfl (Table.puts_upsert _ _) rfl rfl rfl
    . rw [hid]
      exact hinv.freshJob job hmem
    . intro stored hstored
      rw [hid, hjob] at hstored
      injection hstored with hstored
      subst hstored
      exact ⟨hresources, htenant⟩
    . intro hleased
      rw [hid] at hleased ⊢
      exact ⟨job, hjob, hheld hleased⟩
    . intro hstatus
      rw [hid]
      by_cases hleased : Leased db job.id
      . exact .inl hleased
      . refine .inr ⟨job, hjob, ?_, hleased⟩
        exact (hactive hstatus).resolve_left hleased

theorem wp_startJob (hinv : Inv db) (workerId : WorkerId) (jobId : JobId) (tenant : TenantId)
    : wp postgres H (lawful n) (startJob workerId jobId tenant)
        (fun _ db' => Good db db'
          ∧ (db'.jobs = db.jobs
            ∨ ∃ lease ∈ db.leases.rows, lease.workerId = workerId ∧ lease.jobId = jobId)) db := by
  have hrefused : Good db db ∧ (db.jobs = db.jobs
      ∨ ∃ lease ∈ db.leases.rows, lease.workerId = workerId ∧ lease.jobId = jobId) :=
    ⟨Good.refl hinv, .inl rfl⟩
  unfold startJob
  rw [wp_bind]
  apply wp_getOwningWorker hinv.schema
  . intro e
    exact hrefused
  . intro worker job hcurrent hid _ hjob hjobId
    dsimp only
    refine wp_perform_bind rfl ?_
    intro env henv
    dsimp only [Call.exec]
    rw [wp_bind, wp_runCommand]
    cases hrun : (Worker.start env.now).run worker with
    | error e _ => exact hrefused
    | ok job' worker' =>
      have ⟨job0, hjob0, hstart, hworker'⟩ := Worker.onRunningJob_ok hrun
      rw [hjob] at hjob0
      injection hjob0 with hjob0
      subst hjob0 hworker'
      have hmoves := Job.start_moves hstart
      have ⟨lease, hlease, hleaseWorker, hleaseJob, _, hheld⟩ := hinv.held_of_current hcurrent hjob
      have hleased : Leased db job.id := ⟨lease, hlease, hleaseJob⟩
      dsimp only
      rw [wp_bind]
      apply wp_touchWorker hinv { worker with runningJob := some job' } hcurrent.row rfl rfl
      . rw [hjob, Option.map_some, Option.map_some, hmoves.id]
      . intro hidle
        have := hinv.idle worker.toRow (Table.mem_of_get? hcurrent.row) hidle
        unfold Worker.toRow at this
        rw [hjob] at this
        contradiction
      . intro hgood
        dsimp only
        rw [wp_bind]
        apply wp_moveJob hgood.inv job' (hcurrent.job job hjob) hmoves.id hmoves.resources
          hmoves.tenantId (.inl hmoves.assignedNodeId)
        . intro _
          refine ⟨hmoves.assignedNodeId, ?_⟩
          rw [hmoves.status]
          rfl
        . intro _
          exact .inl hleased
        . exact hmoves.becomes
        . intro _
          exact Job.endures_of_start hmoves
        . intro hgood'
          exact ⟨hgood.trans hgood',
            .inr ⟨lease, hlease, hleaseWorker.trans hid, hleaseJob.trans hjobId⟩⟩

theorem wp_cancelJob (hinv : Inv db) (id : JobId) (tenant : TenantId)
    : wp postgres H (lawful n) (cancelJob id tenant) (fun _ db' => Good db db') db := by
  unfold cancelJob
  refine wp_perform_bind rfl ?_
  intro env henv
  dsimp only [Call.exec]
  split
  . exact Good.refl hinv
  . next job hget =>
    obtain ⟨hget', _⟩ := PostgresJobRepository.getById_eq_some hget
    have hjob := db.jobs.get?_key_of_mem (Table.mem_of_get? hget')
    split
    . next hrunning =>
      refine wp_perform_bind rfl ?_
      intro env henv
      dsimp only [Call.exec]
      rw [wp_bind, wp_runCommand]
      cases hrun : (Job.requestCancellation env.now).run job with
      | error e _ => exact Good.refl hinv
      | ok _ job' =>
        have hmoves := Job.requestCancellation_moves hrun
        dsimp only
        rw [wp_bind]
        apply wp_moveJob hinv job' hjob hmoves.id hmoves.resources hmoves.tenantId
          (.inl hmoves.assignedNodeId)
        . intro _
          refine ⟨hmoves.assignedNodeId, ?_⟩
          rw [hmoves.status]
          rfl
        . intro _
          refine .inr ?_
          simp only [Job.isRunning, decide_eq_true_eq] at hrunning
          rw [hrunning]
          rfl
        . exact hmoves.becomes
        . intro _
          exact hmoves.endures (by decide) (fun _ => .inr rfl) (fun _ => rfl)
        . exact fun h => h
    . next hrunning =>
      simp only [Job.isRunning, decide_eq_true_eq] at hrunning
      split
      . next hcancelling =>
        simp only [Job.isCancelling, Bool.not_eq_eq_eq_not, Bool.not_true,
          decide_eq_false_iff_not] at hcancelling
        rw [wp_bind, wp_runCommand]
        cases hrun : Job.cancel.run job with
        | error e _ => exact Good.refl hinv
        | ok _ job' =>
          have hmoves := Job.cancel_moves hrun
          dsimp only
          rw [wp_bind]
          apply wp_moveJob hinv job' hjob hmoves.id hmoves.resources hmoves.tenantId
            (.inl hmoves.assignedNodeId)
          . intro _
            refine ⟨hmoves.assignedNodeId, ?_⟩
            rw [hmoves.status]
            rfl
          . intro hactive
            rw [hmoves.status] at hactive
            contradiction
          . exact hmoves.becomes
          . intro _
            exact hmoves.endures (by decide) (fun h => absurd h hrunning) (fun h => absurd h hcancelling)
          . exact fun h => h
      . next hcancelling =>
        simp only [Job.isCancelling, Bool.not_eq_eq_eq_not, Bool.not_true, decide_eq_false_iff_not,
          not_not] at hcancelling
        rw [wp_bind, wp_pure]
        dsimp only
        rw [wp_bind]
        apply wp_moveJob hinv job hjob rfl rfl rfl (.inl rfl)
        . intro _
          rw [hcancelling]
          exact ⟨rfl, rfl⟩
        . exact .inr
        . exact .refl job
        . exact fun _ => .refl job
        . exact fun h => h

theorem wp_retryJob (hinv : Inv db) (id : JobId) (tenant : TenantId)
    : wp postgres H (lawful n) (retryJob id tenant) (fun _ db' => Good db db') db := by
  unfold retryJob
  refine wp_perform_bind rfl ?_
  intro env henv
  dsimp only [Call.exec]
  split
  . exact Good.refl hinv
  . next job hget =>
    have ⟨hget', _⟩ := PostgresJobRepository.getById_eq_some hget
    have hjob := db.jobs.get?_key_of_mem (Table.mem_of_get? hget')
    split
    . exact Good.refl hinv
    . next hfailed =>
      split
      . exact Good.refl hinv
      . rw [wp_bind, wp_runCommand]
        cases hrun : Job.retry.run job with
        | error e _ => exact Good.refl hinv
        | ok _ job' =>
          have hmoves := Job.retry_moves hrun
          simp only [ne_eq, not_not] at hfailed
          have hnot : ¬Leased db job.id := hinv.not_leased hjob (by rw [hfailed]; rfl)
          dsimp only
          rw [wp_bind]
          apply wp_moveJob hinv job' hjob hmoves.id hmoves.resources hmoves.tenantId
            (.inr hmoves.assignedNodeId)
          . intro hleased
            exact absurd hleased hnot
          . intro hactive
            rw [hmoves.status] at hactive
            contradiction
          . exact hmoves.becomes
          . intro hleased
            exact absurd hleased hnot
          . exact fun h => h

theorem wp_renewLease_good (hinv : Inv db) (workerId : WorkerId) (leaseId : LeaseId)
    (tenant : TenantId) (duration : Duration)
    : wp postgres H (lawful n) (renewLease workerId leaseId tenant duration)
        (fun _ db' => Good db db'
          ∧ db'.jobs = db.jobs
          ∧ ∀ id, db.leases.get? id = none → db'.leases.get? id = none) db := by
  apply wp_of_schema hinv.schema
  apply wp_renewLease
  . intro _ _
    exact ⟨Good.refl hinv, rfl, fun _ => id⟩
  . intro lease expiresAt hlease _ hschema
    have hget := db.leases.get?_key_of_mem hlease
    refine ⟨?_, rfl, ?_⟩
    . exact hinv.renewLease { lease with expiresAt := expiresAt } hschema rfl rfl rfl
        (Table.puts_upsert _ _) rfl hget rfl rfl rfl
    . intro id hnone
      rw [Table.get?_upsert_of_ne]
      . exact hnone
      . rintro rfl
        have := hget.symm.trans hnone
        contradiction

structure Settles (lease : Lease) (row : WorkerRow) (job : Job) (worker' : Worker) (job' : Job)
    : Prop where
  worker : worker'.id = lease.workerId
  node : worker'.node.id = row.nodeId
  tenant : worker'.tenantId = row.tenantId
  free : worker'.runningJob = none
  id : job'.id = lease.jobId
  resources : job'.resources = job.resources
  jobTenant : job'.tenantId = job.tenantId
  assigned : job'.assignedNodeId = job.assignedNodeId
  inactive : job'.status.isActive = false

structure Released (db db' : DB) (lease : Lease) (worker' : Worker) (node : Node) (job : Job)
    : Prop where
  schema : Schema db'
  nodes : db'.nodes = db.nodes.upsert (node.release job.resources)
  jobs : db'.jobs = db.jobs
  workers : db'.workers = db.workers.upsert worker'.toRow
  leases : ∀ other, other ∈ db'.leases.rows
    ↔ other ∈ db.leases.rows ∧ ¬(other.jobId = lease.jobId ∧ other.tenantId = lease.tenantId)
  nextId : db.nextId ≤ db'.nextId

section settle

variable {lease : Lease} {row : WorkerRow} {job job' : Job} {worker' : Worker} {node : Node}

theorem Released.not_leased {db' : DB} (h : Released db db' lease worker' node job)
    (hschema : Schema db) (hlease : lease ∈ db.leases.rows) : ¬Leased db' lease.jobId := by
  intro ⟨other, hother, hid⟩
  rw [h.leases] at hother
  have heq := hschema.uniqueJob other hother.left lease hlease hid
  subst heq
  exact hother.right ⟨rfl, rfl⟩

theorem wp_release [Releasing] [Tolerant G] {α : Type} {rest : Service α} {Q : Except Err α → DB → Prop}
    (db1 : DB) (hinv : Inv db) (hlease : lease ∈ db.leases.rows) (hheld : Held db lease row job)
    (hnode : db.nodes.get? row.nodeId = some node)
    (hsettles : Settles lease row job worker' job') (hnodes : db1.nodes = db.nodes)
    (hjobs : db1.jobs = db.jobs) (hworkers : db1.workers = db.workers)
    (hleases : ∀ other, other ∈ db1.leases.rows
      ↔ other ∈ db.leases.rows ∧ ¬(other.jobId = lease.jobId ∧ other.tenantId = lease.tenantId))
    (hnext : db.nextId ≤ db1.nextId) (hschema : Schema db1)
    (hrest : ∀ db', Released db db' lease worker' node job → wp postgres H G rest Q db')
    : wp postgres H G
        (do
          WorkerRepository.save worker'
          releaseNode job' row.tenantId
          rest) Q db1 := by
  have hrow := Table.mem_of_get? hheld.hrow
  have hnodeTenant : node.tenantId = row.tenantId := by
    have := hinv.schema.workerNode row hrow
    unfold PostgresWorkerRepository.nodeSameTenant at this
    rw [hnode, Option.any_some, decide_eq_true_eq] at this
    exact this
  rw [wp_bind]
  apply wp_saveWorker hschema
  . intro stored hstored
    rw [hworkers, hsettles.worker, hheld.hrow] at hstored
    injection hstored with hstored
    rw [← hstored, hsettles.tenant]
  . unfold PostgresWorkerRepository.nodeSameTenant
    simp only [Worker.toRow, hnodes, hsettles.node, hsettles.tenant, hnode, Option.any_some,
      hnodeTenant, decide_true]
  . unfold PostgresWorkerRepository.runningJobSameTenant
    simp only [Worker.toRow, hsettles.free, Option.map_none, Option.all_none]
  . intro hschema2
    dsimp only
    unfold releaseNode
    rw [hsettles.assigned, hheld.assigned, wp_bind]
    refine wp_perform_bind rfl ?_
    intro env henv
    have hget : PostgresNodeRepository.getById { db1 with
        workers := db1.workers.upsert worker'.toRow } row.nodeId row.tenantId = some node := by
      unfold PostgresNodeRepository.getById
      simp only [hnodes, hnode, Option.filter_some, hnodeTenant, decide_true, if_true]
    have hreleases : Releases node job := releases_of_le (hinv.fits hlease hheld hnode)
    dsimp only [Call.exec]
    rw [hget, hsettles.resources]
    dsimp only
    rw [hreleases]
    apply wp_saveNode hschema2
    . intro stored hstored
      have hid : node.id = row.nodeId := Table.key_of_get? hnode
      have hid' : (node.release job.resources).id = row.nodeId := hid
      rw [hid'] at hstored
      dsimp only at hstored
      rw [hnodes, hnode] at hstored
      injection hstored with hstored
      rw [← hstored]
      rfl
    . intro hschema3
      apply hrest
      refine ⟨hschema3, ?_, hjobs, ?_, hleases, hnext⟩
      . dsimp only
        rw [hnodes]
      . dsimp only
        rw [hworkers]

theorem wp_saveSettled {db' : DB} {Q : Except Err Unit → DB → Prop} (hinv : Inv db)
    (hlease : lease ∈ db.leases.rows) (hheld : Held db lease row job)
    (hnode : db.nodes.get? row.nodeId = some node) (hsettles : Settles lease row job worker' job')
    (hreleased : Released db db' lease worker' node job) (hguard : G db' (.saveJob job'))
    (h : Good db { db' with jobs := db'.jobs.upsert job' }
      → Q (.ok ()) { db' with jobs := db'.jobs.upsert job' })
    : wp postgres H G (JobRepository.save job') Q db' := by
  apply wp_saveJob hreleased.schema
  . intro stored hstored
    rw [hreleased.jobs, hsettles.id, hheld.hjob] at hstored
    injection hstored with hstored
    rw [← hstored, hsettles.jobTenant]
  . have := hreleased.schema.jobNode job (by rw [hreleased.jobs]; exact Table.mem_of_get? hheld.hjob)
    unfold PostgresJobRepository.assignedNodeSameTenant at this ⊢
    rw [hsettles.assigned, hsettles.jobTenant]
    exact this
  . exact hguard
  . intro hschema
    apply h
    apply hinv.giveBack node worker' hlease hheld hnode rfl rfl rfl hsettles.worker hsettles.node
      hsettles.tenant hsettles.free hsettles.id hsettles.resources hsettles.jobTenant
      hsettles.inactive hschema
    . dsimp only
      rw [hreleased.nodes]
      apply Table.puts_upsert
    . dsimp only
      rw [hreleased.jobs]
      apply Table.puts_upsert
    . dsimp only
      rw [hreleased.workers]
      apply Table.puts_upsert
    . exact hreleased.leases
    . exact hreleased.nextId

end settle

namespace ReportJobOutcome

def Outcome.status (outcome : Outcome) : JobStatus :=
  match outcome with
  | .complete => .completed
  | .fail => .failed
  | .cancel => .cancelled

section command

variable {outcome : Outcome} {now : Time} {exitCode : Option Int} {worker worker' : Worker} {job' : Job}

theorem command_moves (h : (outcome.command now exitCode).run worker = .ok job' worker')
    : ∃ job, worker.runningJob = some job
        ∧ job.Moves job' outcome.status job.assignedNodeId
        ∧ worker' = worker.recover := by
  cases outcome with
  | complete =>
    obtain ⟨job, hjob, hrun, hworker'⟩ := Worker.finishJob_ok h
    exact ⟨job, hjob, Job.complete_moves hrun, hworker'⟩
  | fail =>
    obtain ⟨job, hjob, hrun, hworker'⟩ := Worker.finishJob_ok h
    exact ⟨job, hjob, Job.fail_moves hrun, hworker'⟩
  | cancel =>
    obtain ⟨job, hjob, hrun, hworker'⟩ := Worker.finishJob_ok h
    exact ⟨job, hjob, Job.confirmCancelled_moves hrun, hworker'⟩

theorem command_ok (h : (outcome.command now exitCode).run worker = .ok job' worker')
    : ∃ job next, worker.runningJob = some job
        ∧ job.Moves job' next job.assignedNodeId
        ∧ next.isActive = false
        ∧ next ≠ .queued
        ∧ worker' = worker.recover := by
  obtain ⟨job, hjob, hmoves, hworker'⟩ := command_moves h
  refine ⟨job, outcome.status, hjob, hmoves, ?_, ?_, hworker'⟩
  . cases outcome <;> rfl
  . cases outcome <;> decide

end command

inductive Reported (db : DB) (workerId : WorkerId) (jobId : JobId) (leaseId : LeaseId)
    : Except Err Worker → DB → Prop where
  | refused (e : Err) : Reported db workerId jobId leaseId (.error e) db
  | taken {db' : DB} {lease : Lease} {worker : Worker} (hlease : db.leases.get? leaseId = some lease)
    (hworker : lease.workerId = workerId) (hjob : lease.jobId = jobId)
    (hgone : db'.leases.get? leaseId = none)
    (hjobs : ∀ id ≠ jobId, db'.jobs.get? id = db.jobs.get? id)
    : Reported db workerId jobId leaseId (.ok worker) db'

theorem wp_report [Releasing] [Settling (Good db) G] (hinv : Inv db) (outcome : Outcome) (workerId : WorkerId) (jobId : JobId)
    (tenant : TenantId) (leaseId : LeaseId) (exitCode : Option Int)
    : wp postgres H G (report outcome workerId jobId tenant leaseId exitCode)
        (fun r db' => Good db db' ∧ Reported db workerId jobId leaseId r db') db := by
  have hrefused : ∀ e : Err, Good db db ∧ Reported db workerId jobId leaseId (.error e) db :=
    fun e => ⟨Good.refl hinv, .refused e⟩
  unfold report
  rw [wp_bind]
  apply wp_getOwningWorker hinv.schema hrefused
  intro worker job hcurrent hworkerId htenant hjob hjobId
  dsimp only
  refine wp_perform_bind rfl ?_
  intro env henv
  dsimp only [Call.exec]
  rw [wp_bind, wp_runCommand]
  cases hrun : (outcome.command env.now exitCode).run worker with
  | error e _ => exact hrefused e
  | ok job' worker' =>
    have ⟨job0, next, hjob0, hmoves, hnext, _, hworker'⟩ := command_ok hrun
    rw [hjob] at hjob0
    injection hjob0 with hjob0
    subst hjob0 hworker'
    have ⟨lease, hlease, hleaseWorker, hleaseJob, hleaseTenant, hheld⟩ :=
      hinv.held_of_current hcurrent hjob
    have ⟨node, hnode, _⟩ := hcurrent.node
    have hsettles : Settles lease worker.toRow job worker.recover job' :=
      ⟨hleaseWorker.symm, rfl, rfl, rfl, hmoves.id.trans hleaseJob.symm, hmoves.resources,
        hmoves.tenantId, hmoves.assignedNodeId, by rw [hmoves.status]; exact hnext⟩
    dsimp only
    unfold finish
    rw [wp_bind]
    apply wp_releaseLease hinv.schema (fun _ _ => Settling.event (I := Good db) _ _ _ _ nofun nofun) hrefused
    intro lease' events hlease' hworker' hleaseId htenant' db1 hschema1
    have heq := hinv.schema.uniqueWorker lease' hlease' lease hlease
      (hworker'.trans (hworkerId.symm.trans hleaseWorker.symm))
    subst heq
    have htenant'' : tenant = worker.toRow.tenantId := htenant.symm
    rw [htenant'']
    apply wp_release db1 hinv hlease hheld hnode hsettles rfl rfl rfl _ (Nat.le_succ _) hschema1
    . intro db' hreleased
      rw [wp_bind]
      have hnot := hreleased.not_leased hinv.schema hlease
      have hlawful : lawful 0 db' (.saveJob job') := by
        apply lawful_saveJob _ hmoves.becomes
        . rw [hsettles.id]
          intro hleased
          exact absurd hleased hnot
        . rw [hsettles.id, hreleased.jobs]
          exact hheld.hjob
      apply wp_saveSettled hinv hlease hheld hnode hsettles hreleased
        (Settling.job (I := Good db) db' job' hlawful)
      intro hgood
      dsimp only
      rw [wp_bind]
      have hother : outcome.eventType ≠ .leaseAcquired := by cases outcome <;> nofun
      apply wp_recordEvent (Settling.event (I := Good db) _ _ _ _ (fun _ => hgood) (absurd · hother))
        (Table.get?_upsert_self _ job') rfl
      intro events'
      refine ⟨hgood.trans (hgood.inv.bump rfl rfl rfl rfl (Nat.le_succ _)), ?_⟩
      have hid' : job'.id = jobId := hmoves.id.trans hjobId
      have hget : db.leases.get? leaseId = some lease' := by
        rw [← hleaseId]
        exact db.leases.get?_key_of_mem hlease
      apply Reported.taken hget (hleaseWorker.trans hworkerId) (hleaseJob.trans hjobId)
      . rw [Table.get?_eq_none_iff]
        intro other hother hid
        have hmem := ((hreleased.leases other).mp hother).left
        have hsame := db.leases.eq_of_key_eq hmem hlease (hid.trans hleaseId.symm)
        exact hnot ⟨other, hother, by rw [hsame]⟩
      . intro id hne
        have hne' : job'.id ≠ id := fun h => hne (h.symm.trans hid')
        exact (Table.get?_upsert_of_ne _ hne').trans (by rw [hreleased.jobs])
    . intro other
      rw [htenant']
      exact PostgresLeaseRepository.mem_delete

end ReportJobOutcome

namespace WorkerExecutionLoop

def outcomeOf (result : JobExecutionResult) : ReportJobOutcome.Outcome :=
  if result.cancelled then .cancel else if result.succeeded then .complete else .fail

theorem recordOutcome_eq (execution : Execution) (result : JobExecutionResult) (now : Time)
    : recordOutcome execution result now
        =
      runCommand ((outcomeOf result).command now result.exitCode)
        { execution.worker with runningJob := some execution.job } >>= fun ended =>
          (fun _ => ended) <$> RecordJobEventsService.recordForJob ended.1 (outcomeOf result).eventType := by
  unfold recordOutcome outcomeOf
  split
  . rfl
  . split <;> rfl

theorem wp_recordOutcome_of {σ η : Type} {M : Machine signature σ η} {H : η → Prop}
    {G : σ → Call → Prop} {s : σ} {execution : Execution} {result : JobExecutionResult} {now : Time}
    {Q : Except Err (Job × Worker) → σ → Prop} (herror : ∀ e, Q (.error e) s)
    (hok : ∀ job', execution.job.Moves job' (outcomeOf result).status execution.job.assignedNodeId →
      wp M H G (RecordJobEventsService.recordForJob job' (outcomeOf result).eventType)
        (fun r s' => Q (r.map fun _ => (job', execution.worker.recover)) s') s)
    : wp M H G (recordOutcome execution result now) Q s := by
  rw [recordOutcome_eq, wp_bind, wp_runCommand]
  cases hrun : ((outcomeOf result).command now result.exitCode).run
      { execution.worker with runningJob := some execution.job } with
  | error e _ => exact herror e
  | ok job' worker' =>
    obtain ⟨job, hjob, hmoves, hworker'⟩ := ReportJobOutcome.command_moves hrun
    injection hjob with hjob
    subst hjob hworker'
    dsimp only
    rw [wp_map]
    exact hok job' hmoves

end WorkerExecutionLoop

end AetherGrid
