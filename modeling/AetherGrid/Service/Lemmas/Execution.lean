import AetherGrid.Service.Lemmas.Outcome

/-!
This module contains the proof that the execution loop of a worker leaves the stores in order, although
it works with copies that were read before its command ran.
-/

namespace AetherGrid

open Prog

variable {H : Env → Prop} {db db' : DB} {n : Nat}

structure Execution.Valid (db : DB) (execution : Execution) : Prop where
  leaseId : execution.leaseId.value < db.nextId
  workerId : execution.worker.id.value < db.nextId
  lease : ∀ lease, db.leases.get? execution.leaseId = some lease →
    lease.workerId = execution.worker.id ∧ lease.jobId = execution.job.id
  worker : ∀ row, db.workers.get? execution.worker.id = some row →
    execution.worker.node.id = row.nodeId ∧ execution.worker.tenantId = row.tenantId
  job : ∃ job, db.jobs.get? execution.job.id = some job
    ∧ execution.job.resources = job.resources
    ∧ execution.job.tenantId = job.tenantId
  assigned : execution.job.assignedNodeId = some execution.worker.node.id
  tenant : execution.worker.tenantId = execution.tenantId

theorem Execution.Valid.keeps {execution : Execution} (h : execution.Valid db) (hkeeps : Keeps db db')
    : execution.Valid db' := by
  have hnext := hkeeps.nextId
  have hleaseId := h.leaseId
  have hworkerId := h.workerId
  refine ⟨by omega, by omega, ?_, ?_, ?_, h.assigned, h.tenant⟩
  . intro lease' hlease'
    have ⟨lease, hlease, hworker, hjob, _⟩ := hkeeps.lease _ lease' hlease' h.leaseId
    rw [hworker, hjob]
    exact h.lease lease hlease
  . intro row' hrow'
    have ⟨row, hrow, hnode, htenant⟩ := hkeeps.worker _ row' hrow' h.workerId
    rw [hnode, htenant]
    exact h.worker row hrow
  . have ⟨job, hjob, hresources, htenant⟩ := h.job
    have ⟨job', hjob', hresources', htenant'⟩ := hkeeps.job _ job hjob
    refine ⟨job', hjob', ?_, ?_⟩
    . rw [hresources', hresources]
    . rw [htenant', htenant]

structure Execution.Tracks (db : DB) (execution : Execution) : Prop where
  status : execution.job.status = .running ∨ execution.job.status = .cancelling
  attempt : ∀ lease job, db.leases.get? execution.leaseId = some lease →
    db.jobs.get? execution.job.id = some job → execution.job.Endures job

theorem Execution.Tracks.congr {execution : Execution} (h : execution.Tracks db)
    (hjobs : db'.jobs = db.jobs)
    (hleases : ∀ id, db.leases.get? id = none → db'.leases.get? id = none)
    : execution.Tracks db' := by
  refine ⟨h.status, ?_⟩
  intro lease' job hlease' hjob
  rw [hjobs] at hjob
  cases hlease : db.leases.get? execution.leaseId with
  | none =>
    have := (hleases _ hlease).symm.trans hlease'
    contradiction
  | some lease => exact h.attempt lease job hlease hjob

namespace WorkerExecutionLoop

theorem valid_of_current (hinv : Inv db) {worker : Worker} {job : Job} {lease : Lease}
    (hcurrent : Current db worker) (hjob : worker.runningJob = some job)
    (hlease : lease ∈ db.leases.rows) (hleaseWorker : lease.workerId = worker.id)
    : Execution.Valid db { worker, job, leaseId := lease.id, tenantId := worker.tenantId } := by
  have ⟨other, hother, hotherWorker, hotherJob, _, hheld⟩ := hinv.held_of_current hcurrent hjob
  have heq := hinv.schema.uniqueWorker other hother lease hlease
    (hotherWorker.trans hleaseWorker.symm)
  subst heq
  refine ⟨hinv.freshLease other hother, ?_, ?_, ?_, ?_, hheld.assigned, rfl⟩
  . exact hinv.freshWorker worker.toRow (Table.mem_of_get? hcurrent.row)
  . intro stored hstored
    have hget := db.leases.get?_key_of_mem hother
    have := hget.symm.trans hstored
    injection this with this
    subst this
    exact ⟨hleaseWorker, hotherJob⟩
  . intro row hrow
    have := hcurrent.row.symm.trans hrow
    injection this with this
    subst this
    exact ⟨rfl, rfl⟩
  . exact ⟨job, hcurrent.job job hjob, rfl, rfl⟩

theorem tracks_of_stored {execution : Execution}
    (hjob : db.jobs.get? execution.job.id = some execution.job)
    (hrunning : execution.job.status = .running) : execution.Tracks db := by
  refine ⟨.inl hrunning, ?_⟩
  intro _ job _ hget
  have := hjob.symm.trans hget
  injection this with this
  rw [← this]
  exact .refl _

theorem wp_begin (hinv : Inv db) (workerId : WorkerId)
    : wp postgres H (lawful n) (begin workerId)
        (fun r db' => Good db db'
          ∧ ∀ execution, r = .ok (some execution) → execution.Valid db' ∧ execution.Tracks db')
        db := by
  have hnothing : ∀ r : Except Err (Option Execution), (∀ execution, r ≠ .ok (some execution)) →
      Good db db ∧ ∀ execution, r = .ok (some execution) →
        execution.Valid db ∧ execution.Tracks db := by
    intro r hr
    exact ⟨Good.refl hinv, fun execution h => absurd h (hr execution)⟩
  unfold begin
  refine wp_perform_bind rfl ?_
  intro env henv
  dsimp only [Call.exec]
  split
  . exact hnothing _ (by simp)
  . next worker hworker =>
    have ⟨hcurrent, hid⟩ :=
      PostgresWorkerRepository.getByIdAcrossTenants_eq_some hinv.schema hworker
    split
    . exact hnothing _ (by simp)
    . next job hjob =>
      refine wp_perform_bind rfl ?_
      intro env henv
      dsimp only [Call.exec]
      split
      . exact hnothing _ (by simp)
      . next lease hlease =>
        have ⟨hmem, hleaseWorker, _⟩ := PostgresLeaseRepository.getByWorkerId_eq_some hlease
        have hvalid := valid_of_current hinv hcurrent hjob hmem (hleaseWorker.trans hid.symm)
        split
        . next hrunning =>
          refine ⟨Good.refl hinv, ?_⟩
          intro execution heq
          injection heq with heq
          injection heq with heq
          rw [← heq]
          exact ⟨hvalid, tracks_of_stored (hcurrent.job job hjob) (of_decide_eq_true hrunning)⟩
        . refine wp_perform_bind rfl ?_
          intro env henv
          dsimp only [Call.exec]
          rw [wp_bind, wp_runCommand]
          cases hrun : (Worker.start env.now).run worker with
          | error e _ => exact hnothing _ (by simp)
          | ok job' worker' =>
            have ⟨job0, hjob0, hstart, hworker'⟩ := Worker.onRunningJob_ok hrun
            rw [hjob] at hjob0
            injection hjob0 with hjob0
            subst hjob0 hworker'
            have hmoves := Job.start_moves hstart
            have ⟨other, hother, _, hotherJob, _, _⟩ := hinv.held_of_current hcurrent hjob
            have hleased : Leased db job.id := ⟨other, hother, hotherJob⟩
            dsimp only
            rw [wp_bind]
            apply wp_moveJob hinv job' (hcurrent.job job hjob) hmoves.id hmoves.resources
              hmoves.tenantId (.inl hmoves.assignedNodeId)
            . intro _
              refine ⟨hmoves.assignedNodeId, ?_⟩
              rw [hmoves.status]
              rfl
            . intro _
              exact .inl hleased
            . exact hmoves.becomes
            . intro _
              exact Job.endures_of_start hmoves
            . intro hgood
              refine ⟨hgood, ?_⟩
              intro execution heq
              injection heq with heq
              injection heq with heq
              subst heq
              have hkept := hvalid.keeps hgood.keeps
              refine ⟨?_, tracks_of_stored (Table.get?_upsert_self _ _) hmoves.status⟩
              refine ⟨hkept.leaseId, hkept.workerId, ?_, hkept.worker, ?_, ?_, rfl⟩
              . intro stored hstored
                rw [hmoves.id]
                exact hkept.lease stored hstored
              . exact ⟨job', Table.get?_upsert_self _ _, rfl, rfl⟩
              . rw [hmoves.assignedNodeId]
                exact hkept.assigned

theorem valid_withJob {execution execution' : Execution}
    (h : execution.Valid db) (hworker : execution'.worker = execution.worker)
    (hleaseId : execution'.leaseId = execution.leaseId)
    (htenantId : execution'.tenantId = execution.tenantId)
    (hid : execution'.job.id = execution.job.id)
    (hresources : execution'.job.resources = execution.job.resources)
    (htenant : execution'.job.tenantId = execution.job.tenantId)
    (hassigned : execution'.job.assignedNodeId = execution.job.assignedNodeId)
    : execution'.Valid db := by
  refine ⟨?_, ?_, ?_, ?_, ?_, ?_, ?_⟩
  . rw [hleaseId]
    exact h.leaseId
  . rw [hworker]
    exact h.workerId
  . rw [hleaseId, hworker, hid]
    exact h.lease
  . rw [hworker]
    exact h.worker
  . rw [hid, hresources, htenant]
    exact h.job
  . rw [hassigned, hworker]
    exact h.assigned
  . rw [hworker, htenantId]
    exact h.tenant

theorem tracks_withJob {execution execution' : Execution} (h : execution.Tracks db)
    (hleaseId : execution'.leaseId = execution.leaseId) (hid : execution'.job.id = execution.job.id)
    (hmax : execution'.job.maxRetries = execution.job.maxRetries)
    (hcount : execution'.job.retryCount = execution.job.retryCount)
    (hstatus : execution'.job.status = execution.job.status
      ∨ execution'.job.status = .cancelling
        ∧ ∀ job, db.jobs.get? execution.job.id = some job → job.status = .cancelling)
    : execution'.Tracks db := by
  refine ⟨?_, ?_⟩
  . rcases hstatus with heq | ⟨heq, _⟩
    . rw [heq]
      exact h.status
    . exact .inr heq
  . intro lease job hlease hjob
    rw [hleaseId] at hlease
    rw [hid] at hjob
    have hendures := h.attempt lease job hlease hjob
    refine ⟨hendures.maxRetries.trans hmax.symm, hendures.retryCount.trans hcount.symm, ?_, ?_⟩
    . intro hrunning
      rcases hstatus with heq | ⟨heq, _⟩
      . exact hendures.running (heq.symm.trans hrunning)
      . rw [heq] at hrunning
        contradiction
    . intro hcancelling
      rcases hstatus with heq | ⟨_, hstored⟩
      . exact hendures.cancelling (heq.symm.trans hcancelling)
      . exact hstored job hjob

def GoesOn (db : DB) (execution : Execution) (r : Except Err Execution) (db' : DB) : Prop :=
  Good db db' ∧ ∀ execution', r = .ok execution' →
    execution'.Valid db' ∧ (execution.Tracks db → execution'.Tracks db')

theorem goesOn_of_ok {execution execution' : Execution} (hgood : Good db db')
    (hvalid : execution'.Valid db') (htracks : execution.Tracks db → execution'.Tracks db')
    : GoesOn db execution (.ok execution') db' := by
  refine ⟨hgood, ?_⟩
  intro execution'' heq
  injection heq with heq
  rw [← heq]
  exact ⟨hvalid, htracks⟩

theorem wp_deliverCancellation (hinv : Inv db) {execution : Execution} (hvalid : execution.Valid db)
    : wp postgres H (lawful n) (deliverCancellation execution) (GoesOn db execution) db := by
  have hsame : GoesOn db execution (.ok execution) db :=
    goesOn_of_ok (Good.refl hinv) hvalid (fun h => h)
  unfold deliverCancellation
  split
  . exact hsame
  . refine wp_perform_bind rfl ?_
    intro env henv
    dsimp only [Call.exec]
    split
    . exact hsame
    . next current hcurrent =>
      have ⟨hstored, _⟩ := PostgresJobRepository.getById_eq_some hcurrent
      split
      . exact hsame
      . next hcancelling =>
        simp only [Job.isCancelling, Bool.not_eq_eq_eq_not, Bool.not_true,
          decide_eq_false_iff_not, not_not] at hcancelling
        split
        . apply goesOn_of_ok (Good.refl hinv)
          . exact valid_withJob hvalid rfl rfl rfl rfl rfl rfl rfl
          . exact fun h => tracks_withJob h rfl rfl rfl rfl (.inl rfl)
        . refine wp_perform_bind rfl ?_
          intro env henv
          dsimp only [Call.exec]
          split
          . next job' hrun =>
            have hmoves := Job.requestCancellation_moves hrun
            have hcount : job'.retryCount = execution.job.retryCount := by
              rcases hmoves.retries with ⟨heq, _⟩ | ⟨heq, _⟩
              . exact heq
              . contradiction
            apply goesOn_of_ok (Good.refl hinv)
            . exact valid_withJob hvalid rfl rfl rfl hmoves.id hmoves.resources hmoves.tenantId
                hmoves.assignedNodeId
            . intro htracks
              refine tracks_withJob htracks rfl hmoves.id hmoves.maxRetries hcount
                (.inr ⟨hmoves.status, ?_⟩)
              intro job hjob
              have := hstored.symm.trans hjob
              injection this with this
              rw [← this]
              exact hcancelling
          . next job' hrun =>
            have hjob' := Job.requestCancellation_error hrun
            subst hjob'
            apply goesOn_of_ok (Good.refl hinv)
            . exact valid_withJob hvalid rfl rfl rfl rfl rfl rfl rfl
            . exact fun h => tracks_withJob h rfl rfl rfl rfl (.inl rfl)

structure SameOwner (execution execution' : Execution) : Prop where
  jobId : execution'.job.id = execution.job.id
  worker : execution'.worker = execution.worker
  leaseId : execution'.leaseId = execution.leaseId
  tenantId : execution'.tenantId = execution.tenantId

def looksAtJob (c : Call) : Bool :=
  match c with
  | .getJob _ _ | .utcNow => true
  | _ => false

-- the rule for any machine: apart from the renewal itself there are two reads, and nothing is raised
theorem wp_keepLeaseAlive_of {σ η : Type} {M : Machine signature σ η} {H : η → Prop} {G : σ → Call → Prop}
    {s : σ} {execution : Execution} {Q : Except Err Execution → σ → Prop} (I : σ → Prop) (hI : I s)
    (hread : ∀ c s, looksAtJob c → I s → G s c ∧ ∀ x, H x → I (M.exec c x s).2)
    (hrenew : wp M H G (renewLease execution.worker.id execution.leaseId execution.tenantId)
      (fun _ => I) s)
    (hok : ∀ execution' s', I s' → SameOwner execution execution' → Q (.ok execution') s')
    : wp M H G (keepLeaseAlive execution) Q s := by
  have hdeliver : ∀ renewed s', I s' → SameOwner execution renewed →
      wp M H G (if renewed.renewing then deliverCancellation renewed else return renewed) Q s' := by
    intro renewed s' hI' hsame
    split
    . unfold deliverCancellation
      split
      . exact hok _ _ hI' hsame
      . have ⟨hguard, hkeep⟩ := hread (.getJob renewed.job.id renewed.tenantId) s' rfl hI'
        refine ⟨hguard, fun x hx => ?_⟩
        have hI1 := hkeep x hx
        dsimp only [Prog.bind]
        split
        . exact hok _ _ hI1 hsame
        . split
          . exact hok _ _ hI1 hsame
          . split
            . exact hok _ _ hI1 ⟨hsame.jobId, hsame.worker, hsame.leaseId, hsame.tenantId⟩
            . have ⟨hguard, hkeep⟩ := hread .utcNow _ rfl hI1
              refine ⟨hguard, fun x hx => ?_⟩
              have hI2 := hkeep x hx
              dsimp only [Prog.bind]
              split
              . next hrun =>
                have hid := (Job.requestCancellation_moves hrun).id
                exact hok _ _ hI2 ⟨hid.trans hsame.jobId, hsame.worker, hsame.leaseId, hsame.tenantId⟩
              . next hrun =>
                rw [Job.requestCancellation_error hrun]
                exact hok _ _ hI2 ⟨hsame.jobId, hsame.worker, hsame.leaseId, hsame.tenantId⟩
    . exact hok _ _ hI' hsame
  unfold keepLeaseAlive
  split
  . exact hok _ _ hI ⟨rfl, rfl, rfl, rfl⟩
  . rw [wp_bind, wp_catching, wp_bind]
    apply wp_mono hrenew
    intro r s' hI'
    cases r with
    | ok _ => exact hdeliver _ _ hI' ⟨rfl, rfl, rfl, rfl⟩
    | error e =>
      dsimp only
      split
      all_goals exact hdeliver _ _ hI' ⟨rfl, rfl, rfl, rfl⟩

theorem wp_keepLeaseAlive (hinv : Inv db) {execution : Execution} (hvalid : execution.Valid db)
    : wp postgres H (lawful n) (keepLeaseAlive execution) (GoesOn db execution) db := by
  unfold keepLeaseAlive
  split
  . exact goesOn_of_ok (Good.refl hinv) hvalid (fun h => h)
  . -- whatever the renewal does, the execution that goes on differs in its flags only
    have hrest : ∀ db1, Good db db1 → ∀ execution1 : Execution, execution1.Valid db1 →
        (execution.Tracks db → execution1.Tracks db1) →
        wp postgres H (lawful n)
          (if execution1.renewing then deliverCancellation execution1 else return execution1)
          (GoesOn db execution) db1 := by
      intro db1 hgood execution1 hvalid1 htracks1
      split
      . apply wp_mono (wp_deliverCancellation hgood.inv hvalid1)
        intro r db' ⟨hgood', hnext⟩
        refine ⟨hgood.trans hgood', ?_⟩
        intro execution' heq
        have ⟨hvalid', htracks'⟩ := hnext execution' heq
        exact ⟨hvalid', fun h => htracks' (htracks1 h)⟩
      . exact goesOn_of_ok hgood hvalid1 htracks1
    rw [wp_bind, wp_catching, wp_bind]
    apply wp_mono (wp_renewLease_good hinv _ _ _ _)
    intro r db1 ⟨hgood, hjobs, hleases⟩
    have hvalid1 := hvalid.keeps hgood.keeps
    have htracks1 : execution.Tracks db → execution.Tracks db1 := fun h => h.congr hjobs hleases
    have hflags : ∀ execution1 : Execution, execution1.worker = execution.worker →
        execution1.job = execution.job → execution1.leaseId = execution.leaseId →
        execution1.tenantId = execution.tenantId → wp postgres H (lawful n)
          (if execution1.renewing then deliverCancellation execution1 else return execution1)
          (GoesOn db execution) db1 := by
      intro execution1 hworker hjob hleaseId htenantId
      apply hrest db1 hgood execution1
      . apply valid_withJob hvalid1 hworker hleaseId htenantId
        all_goals rw [hjob]
      . intro h
        apply tracks_withJob (htracks1 h) hleaseId
        . rw [hjob]
        . rw [hjob]
        . rw [hjob]
        . rw [hjob]
          exact .inl rfl
    cases r with
    | ok _ => exact hflags execution rfl rfl rfl rfl
    | error e =>
      cases e with
      | leaseNotFound id => exact hflags _ rfl rfl rfl rfl
      | _ => exact hflags _ rfl rfl rfl rfl

theorem keepCancellationRequest_same (job : Job) (current : Option Job)
    : (keepCancellationRequest job current).id = job.id
        ∧ (keepCancellationRequest job current).resources = job.resources
        ∧ (keepCancellationRequest job current).tenantId = job.tenantId
        ∧ (keepCancellationRequest job current).assignedNodeId = job.assignedNodeId
        ∧ (keepCancellationRequest job current).status = job.status := by
  unfold keepCancellationRequest
  split
  . exact ⟨rfl, rfl, rfl, rfl, rfl⟩
  . split <;> exact ⟨rfl, rfl, rfl, rfl, rfl⟩

theorem keepCancellationRequest_retries (job : Job) (current : Option Job)
    : (keepCancellationRequest job current).maxRetries = job.maxRetries
        ∧ (keepCancellationRequest job current).retryCount = job.retryCount := by
  unfold keepCancellationRequest
  split
  . exact ⟨rfl, rfl⟩
  . split <;> exact ⟨rfl, rfl⟩

theorem lawful_outcome {execution : Execution} (hvalid : execution.Valid db)
    (htracks : execution.Tracks db) {lease : Lease} {job' : Job} {next : JobStatus}
    {current : Option Job} (hlease : db.leases.get? execution.leaseId = some lease)
    (hjobs : db'.jobs = db.jobs) (hnot : ¬Leased db' execution.job.id)
    (hmoves : execution.job.Moves job' next execution.job.assignedNodeId)
    (hnext : next = .cancelled ∨ next = .completed ∨ next = .failed)
    : lawful n db' (.saveJob (keepCancellationRequest job' current)) := by
  have ⟨hid, _, _, _, hstatus⟩ := keepCancellationRequest_same job' current
  have ⟨hmax, hcount⟩ := keepCancellationRequest_retries job' current
  have ⟨stored, hstored, _, _⟩ := hvalid.job
  have hendures := htracks.attempt lease stored hlease hstored
  have hcount' : job'.retryCount = execution.job.retryCount := by
    rcases hmoves.retries with ⟨heq, _⟩ | ⟨heq, _⟩
    . exact heq
    . rw [heq] at hnext
      simp at hnext
  have hedge : next ∈ stored.status.allowedTransitions := by
    have hallowed := hmoves.allowed
    rcases htracks.status with hrunning | hcancelling
    . rw [hrunning] at hallowed
      rcases hendures.running hrunning with heq | heq
      . rw [heq]
        exact hallowed
      . rw [heq]
        rcases hnext with rfl | rfl | rfl <;> decide
    . rw [hcancelling] at hallowed
      rw [hendures.cancelling hcancelling]
      exact hallowed
  apply lawful_saveJob
  . rw [hid, hmoves.id, hjobs]
    exact hstored
  . refine ⟨?_, ?_, ?_, ?_, ?_⟩
    . rw [hstatus, hmoves.status]
      exact .inr hedge
    . rw [hmax, hmoves.maxRetries, hendures.maxRetries]
    . rw [hcount, hcount', hendures.retryCount]
    . rw [hcount, hmax, hcount', hmoves.maxRetries, hendures.retryCount, hendures.maxRetries]
      exact fun h => h
    . rw [hcount, hcount', hendures.retryCount, hstatus, hmoves.status]
      apply Nat.add_le_add_left
      rcases hnext with rfl | rfl | rfl <;> cases stored.status <;> decide
  . rw [hid, hmoves.id]
    intro hleased
    exact absurd hleased hnot

theorem wp_recordOutcome {G : DB → Call → Prop} [Lenient G] {execution : Execution}
    (hvalid : execution.Valid db) (result : JobExecutionResult) (now : Time) {Q : Except Err (Job × Worker) → DB → Prop}
    (herror : ∀ e, Q (.error e) db)
    (hok : ∀ job' next events, execution.job.Moves job' next execution.job.assignedNodeId →
      (next = .cancelled ∨ next = .completed ∨ next = .failed) →
      Q (.ok (job', execution.worker.recover))
        { db with events := events, nextId := db.nextId + 1 })
    : wp postgres H G (recordOutcome execution result now) Q db := by
  obtain ⟨stored, hstored, _, htenant⟩ := hvalid.job
  have hends : (outcomeOf result).status = .cancelled ∨ (outcomeOf result).status = .completed
      ∨ (outcomeOf result).status = .failed := by
    cases outcomeOf result <;> simp [ReportJobOutcome.Outcome.status]
  apply wp_recordOutcome_of herror
  intro job' hmoves
  have hget : db.jobs.get? job'.id = some stored := by
    rw [hmoves.id]
    exact hstored
  apply wp_recordForJob hget
  . rw [hmoves.tenantId, htenant]
  . intro events
    exact hok job' _ events hmoves hends

theorem wp_finish [Releasing] {G : DB → Call → Prop} [Lenient G] (hinv : Inv db) {execution : Execution}
    (hvalid : execution.Valid db) (result : JobExecutionResult)
    (hguard : ∀ db' lease job' next current, db.leases.get? execution.leaseId = some lease →
      db'.jobs = db.jobs → ¬Leased db' execution.job.id →
      execution.job.Moves job' next execution.job.assignedNodeId →
      (next = .cancelled ∨ next = .completed ∨ next = .failed) →
      G db' (.saveJob (keepCancellationRequest job' current)))
    : wp postgres H G (finish execution result) (fun _ db' => Good db db') db := by
  unfold finish
  split
  . exact Good.refl hinv
  . refine wp_perform_bind rfl ?_
    intro env henv
    dsimp only [Call.exec]
    rw [wp_bind]
    apply wp_recordOutcome hvalid
    . intro e
      exact Good.refl hinv
    . intro job' next events hmoves hnext
      have hbump : Good db { db with events := events, nextId := db.nextId + 1 } :=
        hinv.bump rfl rfl rfl rfl (Nat.le_succ _)
      dsimp only
      rw [wp_bind]
      apply wp_releaseLease hbump.inv.schema (fun _ _ => Lenient.event _ _ _ _)
      . intro e
        exact hbump
      . intro lease events' hlease hworker hid htenant db1 hschema1
        -- the lease is the one the execution started with, so its copies can be trusted
        have hget : db.leases.get? execution.leaseId = some lease := by
          rw [← hid]
          exact db.leases.get?_key_of_mem hlease
        have ⟨hleaseWorker, hleaseJob⟩ := hvalid.lease lease hget
        have ⟨row, job, hheld⟩ := hbump.inv.held lease hlease
        have hrow := hheld.hrow
        have hjob := hheld.hjob
        dsimp only at hrow hjob
        rw [hleaseWorker] at hrow
        rw [hleaseJob] at hjob
        have ⟨hnodeId, hrowTenant⟩ := hvalid.worker row hrow
        have ⟨stored, hstored, hresources, hjobTenant⟩ := hvalid.job
        have heq : stored = job := by
          have := hstored.symm.trans hjob
          injection this
        subst heq
        have hassigned : execution.job.assignedNodeId = stored.assignedNodeId := by
          rw [hvalid.assigned, hheld.assigned, hnodeId]
        have hsame := keepCancellationRequest_same job'
        have hsettles : ∀ current, Settles lease row stored execution.worker.recover
            (keepCancellationRequest job' current) := by
          intro current
          have ⟨hid', hresources', htenant', hassigned', hstatus'⟩ := hsame current
          refine ⟨hleaseWorker.symm, hnodeId, hrowTenant, rfl, ?_, ?_, ?_, ?_, ?_⟩
          . rw [hid', hmoves.id, hleaseJob]
          . rw [hresources', hmoves.resources, hresources]
          . rw [htenant', hmoves.tenantId, hjobTenant]
          . rw [hassigned', hmoves.assignedNodeId, hassigned]
          . rw [hstatus', hmoves.status]
            rcases hnext with rfl | rfl | rfl <;> rfl
        have hnodeAny := hbump.inv.schema.workerNode row (Table.mem_of_get? hheld.hrow)
        unfold PostgresWorkerRepository.nodeSameTenant at hnodeAny
        have ⟨node, hnode, _⟩ := (Option.any_eq_true _ _).mp hnodeAny
        have htenantId : execution.tenantId = row.tenantId :=
          hvalid.tenant.symm.trans hrowTenant
        rw [htenantId]
        apply wp_release db1 hbump.inv hlease hheld hnode (hsettles none) rfl rfl rfl _ (Nat.le_succ _)
          hschema1
        . intro db' hreleased
          refine wp_perform_bind rfl ?_
          intro env henv
          dsimp only [Call.exec]
          apply wp_saveSettled hbump.inv hlease hheld hnode (hsettles _) hreleased
          . apply hguard db' lease job' next _ hget hreleased.jobs _ hmoves hnext
            rw [← hleaseJob]
            exact hreleased.not_leased hbump.inv.schema hlease
          . exact hbump.trans
        . intro other
          rw [htenant]
          exact PostgresLeaseRepository.mem_delete

end WorkerExecutionLoop

end AetherGrid
