import AetherGrid.Prog.Keeps
import AetherGrid.Http.Routes
import AetherGrid.Service.Lemmas.Outcome

/-!
This module contains the proof that every route keeps to the tenant of its caller: whatever it looks up, it
looks up in the tenant, and whatever it writes, it has drawn the identifier itself or read it from a row of
the tenant.
-/

namespace AetherGrid

namespace Http

open Prog

def ownOrder (T : TenantId) (env : Env) : Prop :=
  env.workerOrder.Local (·.tenantId = T)

abbrev Keeps {α : Type} (T : TenantId) (program : Service α) (db : DB) (Q : α → DB → Prop) : Prop :=
  Prog.Keeps postgres (ownOrder T) (Confined T) program db Q

structure After (T : TenantId) (db db' : DB) : Prop where
  schema : Schema db'
  owns : ∀ resource, Owns T db resource → Owns T db' resource

structure OwnWorker (T : TenantId) (db : DB) (worker : Worker) : Prop where
  tenant : worker.tenantId = T
  row : Owns T db (.worker worker.id)
  job : ∀ job, worker.runningJob = some job → job.tenantId = T ∧ Owns T db (.job job.id)

variable {α σ : Type} {T : TenantId} {db db' db'' : DB}

theorem After.refl (hschema : Schema db) : After T db db :=
  ⟨hschema, fun _ => id⟩

theorem After.trans (h : After T db db') (h' : After T db' db'') : After T db db'' :=
  ⟨h'.schema, fun resource howns => h'.owns resource (h.owns resource howns)⟩

theorem After.exec (hschema : Schema db) {c : Call} (hc : Confined T db c) (env : Env)
    : After T db (c.exec env db).2 :=
  ⟨hschema.exec c env, fun _ => Owns.exec hc env⟩

theorem OwnWorker.after {worker : Worker} (h : OwnWorker T db worker) (hafter : After T db db')
    : OwnWorker T db' worker where
  tenant := h.tenant
  row := hafter.owns _ h.row
  job job hjob := ⟨(h.job job hjob).left, hafter.owns _ (h.job job hjob).right⟩

theorem OwnWorker.free {worker worker' : Worker} (h : OwnWorker T db worker) (hid : worker'.id = worker.id)
    (htenant : worker'.tenantId = worker.tenantId) (hjob : worker'.runningJob = none)
    : OwnWorker T db worker' where
  tenant := htenant.trans h.tenant
  row := by
    rw [hid]
    exact h.row
  job job hrunning := by
    rw [hjob] at hrunning
    contradiction

theorem ownWorker_of_current {worker : Worker} (hschema : Schema db) (hcurrent : Current db worker)
    (htenant : worker.tenantId = T) : OwnWorker T db worker where
  tenant := htenant
  row := by
    intro row hrow
    rw [hcurrent.row] at hrow
    injection hrow with hrow
    rw [← hrow]
    exact htenant
  job job hjob := by
    have hjobTenant := (hcurrent.job_tenantId hschema hjob).trans htenant
    refine ⟨hjobTenant, ?_⟩
    intro stored hstored
    rw [hcurrent.job job hjob] at hstored
    injection hstored with hstored
    rw [← hstored]
    exact hjobTenant

namespace Keeps

theorem runCommand {command : EStateM Err σ α} {entity : σ} {Q : α × σ → DB → Prop}
    (h : ∀ a entity', command.run entity = .ok a entity' → Q (a, entity') db)
    : Keeps T (AetherGrid.runCommand command entity) db Q := by
  unfold AetherGrid.runCommand
  split
  . next a entity' hrun => exact .pure (h a entity' hrun)
  . exact .raise

theorem write {c : Call} (hschema : Schema db) (hc : Confined T db c)
    : Keeps T (Prog.perform (S := signature) c) db (fun _ db' => After T db db') :=
  .perform hc fun env _ => .exec hschema hc env

theorem read {c : Call} {Q : c.Res → Prop} (hc : Confined T db c)
    (h : ∀ env, (c.exec env db).2 = db ∧ Q (c.exec env db).1)
    : Keeps T (Prog.perform (S := signature) c) db (fun a db' => db' = db ∧ Q a) :=
  .perform hc fun env _ => h env

theorem uuid4 (hschema : Schema db)
    : Keeps T AetherGrid.uuid4 db (fun id db' => id = db.nextId ∧ After T db db') := by
  have hc : Confined T db .uuid4 := trivial
  exact .perform hc fun env _ => ⟨rfl, .exec hschema hc env⟩

theorem utcNow : Keeps T AetherGrid.utcNow db (fun _ db' => db' = db) :=
  .perform trivial fun _ _ => rfl

theorem save {c : Call} {r : c.Res → Except Err Unit} (hschema : Schema db) (hc : Confined T db c)
    : Keeps T (Prog.call (S := signature) c (fun a => Prog.ofExcept (r a))) db
      (fun _ db' => After T db db') :=
  .call hc fun env _ _ => .exec hschema hc env

theorem saveNode {node : Node} (hschema : Schema db) (htenant : node.tenantId = T)
    (howns : Owns T db (.node node.id))
    : Keeps T (NodeRepository.save node) db (fun _ db' => After T db db') :=
  save (c := .saveNode node) (r := id) hschema ⟨htenant, howns⟩

theorem saveJob {job : Job} (hschema : Schema db) (htenant : job.tenantId = T)
    (howns : Owns T db (.job job.id))
    : Keeps T (JobRepository.save job) db (fun _ db' => After T db db') :=
  save (c := .saveJob job) (r := id) hschema ⟨htenant, howns⟩

theorem saveWorker {worker : Worker} (hschema : Schema db) (hworker : OwnWorker T db worker)
    : Keeps T (WorkerRepository.save worker) db (fun _ db' => After T db db') :=
  save (c := .saveWorker worker) (r := id) hschema ⟨hworker.tenant, hworker.row⟩

theorem recordForJob {job : Job} {type : EventType} (hschema : Schema db) (htenant : job.tenantId = T)
    : Keeps T (RecordJobEventsService.recordForJob job type) db (fun _ db' => After T db db') :=
  save (c := .saveEvent job.id job.tenantId type) (r := id) hschema htenant

theorem getNode {id : NodeId}
    : Keeps T (NodeRepository.getById id T) db
      (fun found db' => db' = db ∧ ∀ node, found = some node →
        node.tenantId = T ∧ Owns T db (.node node.id)) := by
  refine read rfl ?_
  intro env
  refine ⟨rfl, ?_⟩
  intro node hnode
  have ⟨hget, htenant⟩ := PostgresNodeRepository.getById_eq_some hnode
  refine ⟨htenant, ?_⟩
  intro stored hstored
  rw [Table.key_of_get? hget, hget] at hstored
  injection hstored with hstored
  rw [← hstored]
  exact htenant

theorem getJob {id : JobId}
    : Keeps T (JobRepository.getById id T) db
      (fun found db' => db' = db ∧ ∀ job, found = some job →
        job.tenantId = T ∧ Owns T db (.job job.id)) := by
  refine read rfl ?_
  intro env
  refine ⟨rfl, ?_⟩
  intro job hjob
  have ⟨hget, htenant⟩ := PostgresJobRepository.getById_eq_some hjob
  refine ⟨htenant, ?_⟩
  intro stored hstored
  rw [Table.key_of_get? hget, hget] at hstored
  injection hstored with hstored
  rw [← hstored]
  exact htenant

theorem getWorker {id : WorkerId} (hschema : Schema db)
    : Keeps T (WorkerRepository.getById id T) db
      (fun found db' => db' = db ∧ ∀ worker, found = some worker → OwnWorker T db worker) := by
  refine read rfl ?_
  intro env
  refine ⟨rfl, ?_⟩
  intro worker hworker
  have ⟨hcurrent, _, htenant⟩ := PostgresWorkerRepository.getById_eq_some hschema hworker
  exact ownWorker_of_current hschema hcurrent htenant

theorem getWorkerByNode {id : NodeId} (hschema : Schema db)
    : Keeps T (WorkerRepository.getByNodeId id T) db
      (fun found db' => db' = db ∧ ∀ worker, found = some worker → OwnWorker T db worker) := by
  refine read rfl ?_
  intro env
  refine ⟨rfl, ?_⟩
  intro worker hworker
  have ⟨hcurrent, _, htenant⟩ := PostgresWorkerRepository.getByNodeId_eq_some hschema hworker
  exact ownWorker_of_current hschema hcurrent htenant

theorem getLeaseByWorker {id : WorkerId}
    : Keeps T (LeaseRepository.getByWorkerId id T) db (fun _ db' => db' = db) :=
  .perform rfl fun _ _ => rfl

theorem deleteLease {id : JobId} {tenant : TenantId} (hschema : Schema db) (htenant : tenant = T)
    : Keeps T (LeaseRepository.delete id tenant) db (fun _ db' => After T db db') :=
  write hschema htenant

end Keeps

section services

theorem get?_fresh {κ ρ : Type} [DecidableEq κ] {key : ρ → κ} {t : Table κ ρ key} (value : κ → Nat) {n : Nat}
    {k : κ} (hfresh : ∀ r ∈ t.rows, value (key r) < n) (hk : value k = n) (r : ρ) : t.get? k ≠ some r := by
  intro hget
  have := hfresh r (Table.mem_of_get? hget)
  rw [Table.key_of_get? hget, hk] at this
  exact Nat.lt_irrefl _ this

theorem keeps_createNode {capacity : ResourceRequirements} {name : Option String} (hschema : Schema db)
    (hfresh : ∀ node ∈ db.nodes.rows, node.id.value < db.nextId)
    : Keeps T (createNode capacity T name) db (fun _ _ => True) := by
  have hnew : Owns T db (.node ⟨db.nextId⟩) :=
    fun stored hstored => absurd hstored (get?_fresh (fun id => id.value) hfresh rfl stored)
  refine .bind (Keeps.uuid4 hschema) ?_
  intro id db1 ⟨hid, h1⟩
  subst hid
  refine .bind (Keeps.write h1.schema trivial) ?_
  intro generated db2 h2
  refine .bind Keeps.utcNow ?_
  intro now db3 h3
  subst h3
  refine .bind (Keeps.saveNode h2.schema rfl ((h1.trans h2).owns _ hnew)) ?_
  intro _ _ _
  exact .pure trivial

theorem keeps_createJob {resources : ResourceRequirements} {command : Option (List String)}
    (hschema : Schema db) (hfresh : ∀ job ∈ db.jobs.rows, job.id.value < db.nextId)
    : Keeps T (createJob resources T command) db (fun _ _ => True) := by
  have hnew : Owns T db (.job ⟨db.nextId⟩) :=
    fun stored hstored => absurd hstored (get?_fresh (fun id => id.value) hfresh rfl stored)
  refine .bind (Keeps.uuid4 hschema) ?_
  rintro id db1 ⟨hid, h1⟩
  subst hid
  refine .bind Keeps.utcNow ?_
  intro now db2 h2
  subst h2
  have hjob : Keeps T (Prog.ofExcept (S := signature) (Job.new ⟨db.nextId⟩ resources T command now)) db2
      (fun job db' => db' = db2 ∧ job.id = ⟨db.nextId⟩ ∧ job.tenantId = T ∧ job.status = .submitted) := by
    refine .ofExcept ?_
    intro job hjob
    unfold Job.new at hjob
    split at hjob
    . split at hjob
      . injection hjob with hjob
        rw [← hjob]
        exact ⟨rfl, rfl, rfl, rfl⟩
      . contradiction
    . contradiction
  refine hjob.bind ?_
  rintro job db3 ⟨hdb3, hid, htenant, hsubmitted⟩
  subst hdb3
  have hqueue : Keeps T (runCommand Job.queue job) db3
      (fun r db' => db' = db3 ∧ r.2.id = ⟨db.nextId⟩ ∧ r.2.tenantId = T) := by
    refine Keeps.runCommand ?_
    intro _ job' hqueue
    have hmoves := Job.queue_moves hqueue hsubmitted
    exact ⟨rfl, hmoves.id.trans hid, hmoves.tenantId.trans htenant⟩
  refine hqueue.bind ?_
  rintro r db4 ⟨hdb4, hid', htenant'⟩
  subst hdb4
  have howns : Owns T db4 (.job r.2.id) := by
    rw [hid']
    exact h1.owns _ hnew
  refine .bind (Keeps.saveJob h1.schema htenant' howns) ?_
  intro _ db5 h5
  refine .bind (Keeps.recordForJob h5.schema htenant') ?_
  intro _ _ _
  exact .pure trivial

theorem keeps_reclaimJob {job : Job} {node : Node} (hschema : Schema db) (hjob : job.tenantId = T)
    (hownsJob : Owns T db (.job job.id)) (hnode : node.tenantId = T) (hownsNode : Owns T db (.node node.id))
    : Keeps T (reclaimJob job (some node)) db (fun _ db' => After T db db') := by
  unfold reclaimJob
  simp only [plainRelease_bind]
  refine .bind (Keeps.deleteLease hschema hjob) ?_
  intro _ db1 h1
  refine .bind (Keeps.saveNode h1.schema hnode (h1.owns _ hownsNode)) ?_
  intro _ db2 h2
  have h12 := h1.trans h2
  refine .bind Keeps.utcNow ?_
  intro now db3 h3
  subst h3
  split
  . next job' hreclaim =>
    have ⟨_, _, hmoves⟩ := Job.reclaim_moves hreclaim
    have howns : Owns T db3 (.job job'.id) := by
      rw [hmoves.id]
      exact h12.owns _ hownsJob
    refine .bind (Keeps.saveJob h2.schema (hmoves.tenantId.trans hjob) howns) ?_
    intro _ db4 h4
    exact .pure (h12.trans h4)
  . exact .pure h12
  . exact .raise

theorem keeps_createWorker {node : Node} {managedBy : WorkerManagement} (hschema : Schema db)
    (hfresh : ∀ row ∈ db.workers.rows, row.id.value < db.nextId) (hnode : node.tenantId = T)
    (hownsNode : Owns T db (.node node.id))
    : Keeps T (createWorker node managedBy) db (fun worker db' => Schema db' ∧ OwnWorker T db' worker) := by
  have hnew : Owns T db (.worker ⟨db.nextId⟩) :=
    fun row hrow => absurd hrow (get?_fresh (fun id => id.value) hfresh rfl row)
  unfold createWorker
  rw [hnode]
  refine .bind (Keeps.getWorkerByNode hschema) ?_
  intro found db1 ⟨hdb1, hfound⟩
  subst hdb1
  cases found with
  | none =>
    refine .bind (Keeps.uuid4 hschema) ?_
    intro id db2 ⟨hid, h2⟩
    subst hid
    refine .bind Keeps.utcNow ?_
    intro now db3 h3
    subst h3
    have hworker : OwnWorker T db3 (Worker.ready { id := ⟨db1.nextId⟩, node, managedBy, lastSeenAt := now }) := by
      refine ⟨hnode, h2.owns _ hnew, ?_⟩
      intro job hjob
      change none = some job at hjob
      contradiction
    refine .bind (Keeps.saveWorker h2.schema hworker) ?_
    intro _ db4 h4
    exact .pure ⟨h4.schema, hworker.after h4⟩
  | some existing =>
    have hexisting := hfound existing rfl
    have hsaves : ∀ db2, After T db1 db2 →
        Keeps T
          (do
            let worker := { existing.recover with managedBy := managedBy }
            WorkerRepository.save worker
            return worker) db2 (fun worker db' => Schema db' ∧ OwnWorker T db' worker) := by
      intro db2 h2
      have hworker : OwnWorker T db2 { existing.recover with managedBy := managedBy } :=
        (hexisting.after h2).free rfl rfl rfl
      refine .bind (Keeps.saveWorker h2.schema hworker) ?_
      intro _ db3 h3
      exact .pure ⟨h3.schema, hworker.after h3⟩
    dsimp only
    split
    . next abandonedJob hjob =>
      have ⟨hjobTenant, hownsJob⟩ := hexisting.job abandonedJob hjob
      refine .bind (keeps_reclaimJob hschema hjobTenant hownsJob hnode hownsNode) ?_
      intro _ db2 h2
      exact hsaves db2 h2
    . exact hsaves db1 (.refl hschema)

theorem keeps_registerWorker {worker : Worker} (hschema : Schema db) (hworker : OwnWorker T db worker)
    : Keeps T (registerWorker worker) db (fun _ _ => True) := by
  have hready : OwnWorker T db worker.ready := ⟨hworker.tenant, hworker.row, hworker.job⟩
  have htenant : worker.ready.tenantId = T := hworker.tenant
  unfold registerWorker
  dsimp only
  rw [htenant]
  refine .bind (Keeps.saveWorker hschema hready) ?_
  intro _ db1 h1
  refine .bind (Keeps.getWorker h1.schema) ?_
  intro found db2 _
  cases found with
  | none => exact .raise
  | some stored => exact .pure trivial

theorem keeps_getOwningWorker {workerId : WorkerId} {jobId : JobId} (hschema : Schema db)
    : Keeps T (getOwningWorker workerId jobId T) db (fun r db' => db' = db ∧ OwnWorker T db r.1) := by
  unfold getOwningWorker
  refine .bind (Keeps.getWorker hschema) ?_
  intro found db1 ⟨hdb1, hfound⟩
  subst hdb1
  cases found with
  | none => exact .raise
  | some worker =>
    dsimp only
    split
    . exact .raise
    . split
      . exact .raise
      . split
        . exact .raise
        . exact .pure ⟨rfl, hfound worker rfl⟩

theorem keeps_startJob {workerId : WorkerId} {jobId : JobId} (hschema : Schema db)
    : Keeps T (startJob workerId jobId T) db (fun _ _ => True) := by
  refine .bind (keeps_getOwningWorker hschema) ?_
  intro r db1 ⟨hdb1, hworker⟩
  subst hdb1
  refine .bind Keeps.utcNow ?_
  intro now db2 h2
  subst h2
  have hstart : Keeps T (runCommand (Worker.start now) r.1) db2
      (fun r db' => db' = db2 ∧ r.1.tenantId = T ∧ Owns T db2 (.job r.1.id) ∧ OwnWorker T db2 r.2) := by
    refine Keeps.runCommand ?_
    intro job' worker' hstart
    have ⟨job, hjob, hrun, heq⟩ := Worker.onRunningJob_ok hstart
    have hmoves := Job.start_moves hrun
    have ⟨htenant, howns⟩ := hworker.job job hjob
    have htenant' : job'.tenantId = T := hmoves.tenantId.trans htenant
    have howns' : Owns T db2 (.job job'.id) := by
      rw [hmoves.id]
      exact howns
    refine ⟨rfl, htenant', howns', ?_⟩
    subst heq
    refine ⟨hworker.tenant, hworker.row, ?_⟩
    intro running hrunning
    injection hrunning with hrunning
    rw [← hrunning]
    exact ⟨htenant', howns'⟩
  refine hstart.bind ?_
  intro started db3 ⟨hdb3, htenant, howns, hstarted⟩
  subst hdb3
  refine .bind (Keeps.saveWorker hschema hstarted) ?_
  intro _ db4 h4
  refine .bind (Keeps.saveJob h4.schema htenant (h4.owns _ howns)) ?_
  intro _ _ _
  exact .pure trivial

theorem keeps_command {command : EStateM Err Job Unit} {job : Job} (htenant : job.tenantId = T)
    (howns : Owns T db (.job job.id))
    (hcommand : ∀ job', command.run job = .ok () job' → job'.id = job.id ∧ job'.tenantId = job.tenantId)
    : Keeps T (runCommand command job) db
      (fun r db' => db' = db ∧ r.2.tenantId = T ∧ Owns T db (.job r.2.id)) := by
  refine Keeps.runCommand ?_
  intro _ job' hrun
  have ⟨hid, htenant'⟩ := hcommand job' hrun
  refine ⟨rfl, htenant'.trans htenant, ?_⟩
  rw [hid]
  exact howns

theorem keeps_cancelJob {jobId : JobId} (hschema : Schema db)
    : Keeps T (cancelJob jobId T) db (fun _ _ => True) := by
  refine .bind Keeps.getJob ?_
  intro found db1 ⟨hdb1, hfound⟩
  subst hdb1
  cases found with
  | none => exact .pure trivial
  | some job =>
    have ⟨htenant, howns⟩ := hfound job rfl
    have hsaves : ∀ (r : Unit × Job) db2, db2 = db1 ∧ r.2.tenantId = T ∧ Owns T db1 (.job r.2.id) →
        Keeps T
          (do
            JobRepository.save r.2
            return some r.2) db2 (fun _ _ => True) := by
      intro r db2 ⟨hdb2, htenant', howns'⟩
      subst hdb2
      refine .bind (Keeps.saveJob hschema htenant' howns') ?_
      intro _ _ _
      exact .pure trivial
    dsimp only
    split
    . refine .bind Keeps.utcNow ?_
      intro now db2 h2
      subst h2
      refine .bind (keeps_command htenant howns ?_) hsaves
      intro job' hrun
      have hmoves := Job.requestCancellation_moves hrun
      exact ⟨hmoves.id, hmoves.tenantId⟩
    . split
      . refine .bind (keeps_command htenant howns ?_) hsaves
        intro job' hrun
        have hmoves := Job.cancel_moves hrun
        exact ⟨hmoves.id, hmoves.tenantId⟩
      . exact hsaves ((), job) db1 ⟨rfl, htenant, howns⟩

theorem keeps_retryJob {jobId : JobId} (hschema : Schema db)
    : Keeps T (retryJob jobId T) db (fun _ _ => True) := by
  refine .bind Keeps.getJob ?_
  intro found db1 ⟨hdb1, hfound⟩
  subst hdb1
  cases found with
  | none => exact .pure trivial
  | some job =>
    have ⟨htenant, howns⟩ := hfound job rfl
    dsimp only
    split
    . exact .pure trivial
    . split
      . exact .pure trivial
      . refine .bind (keeps_command htenant howns ?_) ?_
        . intro job' hrun
          have hmoves := Job.retry_moves hrun
          exact ⟨hmoves.id, hmoves.tenantId⟩
        . intro r db2 ⟨hdb2, htenant', howns'⟩
          subst hdb2
          refine .bind (Keeps.saveJob hschema htenant' howns') ?_
          intro _ _ _
          exact .pure trivial

theorem keeps_releaseLease {workerId : WorkerId} {leaseId : LeaseId} (hschema : Schema db)
    : Keeps T (releaseLease workerId leaseId T) db (fun _ db' => After T db db') := by
  unfold releaseLease
  refine .bind Keeps.getLeaseByWorker ?_
  intro lease db1 hdb1
  subst hdb1
  cases lease with
  | none => exact .raise
  | some lease =>
    dsimp only
    split
    . exact .raise
    . refine .bind (Keeps.getWorker hschema) ?_
      intro worker db2 ⟨hdb2, _⟩
      subst hdb2
      cases worker with
      | none => exact .raise
      | some worker =>
        refine .bind Keeps.getJob ?_
        intro job db3 ⟨hdb3, hjob⟩
        subst hdb3
        cases job with
        | none => exact .raise
        | some job =>
          refine .bind (Keeps.deleteLease hschema rfl) ?_
          intro _ db4 h4
          exact (Keeps.recordForJob h4.schema (hjob job rfl).left).mono fun _ _ h5 => h4.trans h5

theorem keeps_releaseNode {job : Job} (hschema : Schema db)
    : Keeps T (releaseNode job T) db (fun _ db' => After T db db') := by
  unfold releaseNode
  simp only [plainRelease_bind]
  split
  . exact .pure (.refl hschema)
  . refine .bind Keeps.getNode ?_
    intro node db1 ⟨hdb1, hnode⟩
    subst hdb1
    cases node with
    | none => exact .pure (.refl hschema)
    | some node => exact Keeps.saveNode hschema (hnode node rfl).left (hnode node rfl).right

theorem keeps_report {outcome : ReportJobOutcome.Outcome} {workerId : WorkerId} {jobId : JobId}
    {leaseId : LeaseId} {exitCode : Option Int} (hschema : Schema db)
    : Keeps T (ReportJobOutcome.report outcome workerId jobId T leaseId exitCode) db (fun _ _ => True) := by
  refine .bind (keeps_getOwningWorker hschema) ?_
  intro r db1 ⟨hdb1, hworker⟩
  subst hdb1
  refine .bind Keeps.utcNow ?_
  intro now db2 h2
  subst h2
  have hcommand : Keeps T (runCommand (outcome.command now exitCode) r.1) db2
      (fun r db' => db' = db2 ∧ r.1.tenantId = T ∧ Owns T db2 (.job r.1.id) ∧ OwnWorker T db2 r.2) := by
    refine Keeps.runCommand ?_
    intro job' worker' hrun
    have ⟨job, next, hjob, hmoves, _, _, heq⟩ := ReportJobOutcome.command_ok hrun
    have ⟨htenant, howns⟩ := hworker.job job hjob
    refine ⟨rfl, hmoves.tenantId.trans htenant, ?_, ?_⟩
    . rw [hmoves.id]
      exact howns
    . subst heq
      exact hworker.free rfl rfl rfl
  refine hcommand.bind ?_
  intro finished db3 ⟨hdb3, htenant, howns, hfinished⟩
  subst hdb3
  refine .bind (keeps_releaseLease hschema) ?_
  intro _ db4 h4
  refine .bind (Keeps.saveWorker h4.schema (hfinished.after h4)) ?_
  intro _ db5 h5
  refine .bind (keeps_releaseNode h5.schema) ?_
  intro _ db6 h6
  have h46 := (h4.trans h5).trans h6
  refine .bind (Keeps.saveJob h6.schema htenant (h46.owns _ howns)) ?_
  intro _ db7 h7
  refine .bind (Keeps.recordForJob h7.schema htenant) ?_
  intro _ _ _
  exact .pure trivial

theorem keeps_renewLease {workerId : WorkerId} {leaseId : LeaseId} {duration : Duration} (hschema : Schema db)
    : Keeps T (renewLease workerId leaseId T duration) db (fun _ _ => True) := by
  unfold renewLease
  refine .bind Keeps.getLeaseByWorker ?_
  intro lease db1 hdb1
  subst hdb1
  cases lease with
  | none => exact .raise
  | some lease =>
    dsimp only
    split
    . exact .raise
    . have hrenew : Keeps T (LeaseRepository.renew lease.id duration T) db1 (fun _ db' => After T db1 db') :=
        Keeps.save (c := .renewLease lease.id duration T) (r := id) hschema rfl
      exact hrenew.mono fun _ _ _ => trivial

theorem keeps_workerHeartbeat {workerId : WorkerId} (hschema : Schema db)
    : Keeps T (workerHeartbeat workerId T) db (fun _ _ => True) := by
  unfold workerHeartbeat
  refine .bind (Keeps.getWorker hschema) ?_
  intro worker db1 ⟨hdb1, hworker⟩
  subst hdb1
  cases worker with
  | none => exact .raise
  | some worker =>
    dsimp only
    split
    . exact .raise
    . refine .bind Keeps.utcNow ?_
      intro now db2 h2
      subst h2
      have hown := hworker worker rfl
      have hbeats : OwnWorker T db2 (worker.heartbeat now) := by
        unfold Worker.heartbeat
        split
        . exact ⟨hown.tenant, hown.row, hown.job⟩
        . exact ⟨hown.tenant, hown.row, hown.job⟩
      refine .bind (Keeps.saveWorker hschema hbeats) ?_
      intro _ _ _
      exact .pure trivial

theorem keeps_heartbeatNode {nodeId : NodeId} (hschema : Schema db)
    : Keeps T (heartbeatNode nodeId T) db (fun _ _ => True) := by
  unfold heartbeatNode
  refine .bind Keeps.getNode ?_
  intro node db1 ⟨hdb1, hnode⟩
  subst hdb1
  cases node with
  | none => exact .pure trivial
  | some node =>
    refine .bind Keeps.utcNow ?_
    intro now db2 h2
    subst h2
    have ⟨htenant, howns⟩ := hnode node rfl
    refine .bind (Keeps.saveNode hschema htenant howns) ?_
    intro _ _ _
    exact .pure trivial

theorem keeps_drainNode {nodeId : NodeId} (hschema : Schema db)
    : Keeps T (drainNode nodeId T) db (fun _ _ => True) := by
  unfold drainNode
  refine .bind Keeps.getNode ?_
  intro node db1 ⟨hdb1, hnode⟩
  subst hdb1
  cases node with
  | none => exact .raise
  | some node =>
    have ⟨htenant, howns⟩ := hnode node rfl
    refine .bind (Keeps.saveNode hschema htenant howns) ?_
    intro _ _ _
    exact .pure trivial

theorem keeps_removeOfflineNode {nodeId : NodeId} (hschema : Schema db)
    : Keeps T (removeOfflineNode nodeId T) db (fun _ _ => True) := by
  unfold removeOfflineNode
  refine .bind Keeps.getNode ?_
  intro node db1 ⟨hdb1, _⟩
  subst hdb1
  cases node with
  | none => exact .raise
  | some node =>
    refine .bind Keeps.utcNow ?_
    intro now db2 h2
    subst h2
    split
    . exact .raise
    . have hdelete : Keeps T (NodeRepository.delete nodeId T) db2 (fun _ db' => After T db2 db') :=
        .write hschema rfl
      exact hdelete.mono fun _ _ _ => trivial

end services

section routes

variable {uuid : String → Option Nat} {str : Nat → String}

theorem keeps_withUuid {text : String} {otherwise : Response} {program : Nat → Service Response}
    (h : ∀ id, Keeps T (program id) db (fun _ _ => True))
    : Keeps T (withUuid uuid text otherwise program) db (fun _ _ => True) := by
  unfold withUuid
  split
  . exact .pure trivial
  . next id _ => exact h id

theorem keeps_answering {program : Service α} {failure : Err → Option Response}
    {next : α → Service Response} (hprogram : Keeps T program db (fun _ _ => True))
    (hnext : ∀ a db', Keeps T (next a) db' (fun _ _ => True))
    : Keeps T (Workers.answering program failure next) db (fun _ _ => True) := by
  unfold Workers.answering
  refine .bind (Q := fun _ _ => True) (.catching (hprogram.map fun _ _ _ => trivial) ?_) ?_
  . intro e db'
    split
    . exact .raise
    . exact .pure trivial
  . intro result db' _
    cases result with
    | inl response => exact .pure trivial
    | inr a => exact hnext a db'

theorem keeps_withLease {id : WorkerId} {worker : Worker}
    : Keeps T (Workers.withLease id T worker) db (fun _ _ => True) := by
  unfold Workers.withLease
  split
  . exact .pure trivial
  . refine .bind Keeps.getLeaseByWorker ?_
    intro _ _ _
    exact .pure trivial

theorem keeps_findWorker {id : WorkerId} (hschema : Schema db)
    : Keeps T (Workers.findWorker id T) db (fun _ db' => Schema db') := by
  unfold Workers.findWorker
  refine .bind (Keeps.getWorker hschema) ?_
  intro worker db1 ⟨hdb1, _⟩
  subst hdb1
  cases worker with
  | none => exact .pure hschema
  | some worker =>
    dsimp only
    split
    . exact .pure hschema
    . exact .pure hschema

structure Fresh (db : DB) : Prop where
  nodes : ∀ node ∈ db.nodes.rows, node.id.value < db.nextId
  jobs : ∀ job ∈ db.jobs.rows, job.id.value < db.nextId
  workers : ∀ row ∈ db.workers.rows, row.id.value < db.nextId

variable {caller : ApiKey} (hcaller : caller.tenantId = T)

include hcaller

theorem keeps_jobs_createJob (hschema : Schema db) (hfresh : Fresh db)
    (request : Option Jobs.CreateJobRequest)
    : Keeps T (Jobs.createJob caller request) db (fun _ _ => True) := by
  unfold Jobs.createJob
  rw [hcaller]
  split
  . exact .pure trivial
  . split
    . exact .pure trivial
    . split
      . exact .pure trivial
      . refine .bind (keeps_createJob hschema hfresh.jobs) ?_
        intro _ _ _
        exact .pure trivial

theorem keeps_jobs_getJob (jobId : String) : Keeps T (Jobs.getJob uuid caller jobId) db (fun _ _ => True) := by
  unfold Jobs.getJob
  rw [hcaller]
  refine keeps_withUuid ?_
  intro id
  refine .bind Keeps.getJob ?_
  intro job _ _
  cases job with
  | none => exact .pure trivial
  | some job => exact .pure trivial

theorem keeps_jobs_cancelJob (hschema : Schema db) (jobId : String)
    : Keeps T (Jobs.cancelJob uuid caller jobId) db (fun _ _ => True) := by
  unfold Jobs.cancelJob
  rw [hcaller]
  refine keeps_withUuid ?_
  intro id
  refine .catching ((keeps_cancelJob hschema).map fun _ _ _ => trivial) ?_
  intro e db'
  split
  . exact .pure trivial
  . exact .raise

theorem keeps_jobs_retryJob (hschema : Schema db) (jobId : String)
    : Keeps T (Jobs.retryJob uuid caller jobId) db (fun _ _ => True) := by
  unfold Jobs.retryJob
  rw [hcaller]
  refine keeps_withUuid ?_
  intro id
  exact (keeps_retryJob hschema).map fun _ _ _ => trivial

theorem keeps_nodes_createNode (hschema : Schema db) (hfresh : Fresh db)
    (request : Option Nodes.CreateNodeRequest)
    : Keeps T (Nodes.createNode caller request) db (fun _ _ => True) := by
  unfold Nodes.createNode
  rw [hcaller]
  split
  . exact .pure trivial
  . split
    . exact .pure trivial
    . refine .bind (keeps_createNode hschema hfresh.nodes) ?_
      intro _ _ _
      exact .pure trivial

theorem keeps_nodes_getNode (nodeId : String)
    : Keeps T (Nodes.getNode uuid caller nodeId) db (fun _ _ => True) := by
  unfold Nodes.getNode
  rw [hcaller]
  refine keeps_withUuid ?_
  intro id
  refine .bind Keeps.getNode ?_
  intro node _ _
  cases node with
  | none => exact .pure trivial
  | some node =>
    refine .bind Keeps.utcNow ?_
    intro _ _ _
    exact .pure trivial

theorem keeps_nodes_heartbeatNode (hschema : Schema db) (nodeId : String)
    : Keeps T (Nodes.heartbeatNode uuid caller nodeId) db (fun _ _ => True) := by
  unfold Nodes.heartbeatNode
  rw [hcaller]
  refine keeps_withUuid ?_
  intro id
  refine .bind (keeps_heartbeatNode hschema) ?_
  intro node _ _
  cases node with
  | none => exact .pure trivial
  | some node =>
    refine .bind Keeps.utcNow ?_
    intro _ _ _
    exact .pure trivial

theorem keeps_nodes_drainNode (hschema : Schema db) (nodeId : String)
    : Keeps T (Nodes.drainNode uuid caller nodeId) db (fun _ _ => True) := by
  unfold Nodes.drainNode
  rw [hcaller]
  refine keeps_withUuid ?_
  intro id
  refine .catching (.bind (keeps_drainNode hschema) ?_) ?_
  . intro _ _ _
    refine .bind Keeps.utcNow ?_
    intro _ _ _
    exact .pure trivial
  . intro e db'
    split
    . exact .pure trivial
    . exact .raise

theorem keeps_nodes_removeOfflineNode (hschema : Schema db) (nodeId : String)
    : Keeps T (Nodes.removeOfflineNode uuid caller nodeId) db (fun _ _ => True) := by
  unfold Nodes.removeOfflineNode
  rw [hcaller]
  refine keeps_withUuid ?_
  intro id
  refine .catching ((keeps_removeOfflineNode hschema).map fun _ _ _ => trivial) ?_
  intro e db'
  split
  . exact .pure trivial
  . exact .pure trivial
  . exact .raise

theorem keeps_workers_createWorker (hschema : Schema db) (hfresh : Fresh db)
    (request : Option Workers.CreateWorkerRequest)
    : Keeps T (Workers.createWorker uuid caller request) db (fun _ _ => True) := by
  unfold Workers.createWorker
  rw [hcaller]
  split
  . exact .pure trivial
  . refine keeps_withUuid ?_
    intro id
    refine .bind Keeps.getNode ?_
    intro node db1 ⟨hdb1, hnode⟩
    subst hdb1
    cases node with
    | none => exact .pure trivial
    | some node =>
      have ⟨htenant, howns⟩ := hnode node rfl
      dsimp only
      split
      . exact .pure trivial
      . refine .bind (keeps_createWorker hschema hfresh.workers htenant howns) ?_
        intro worker db2 ⟨hschema2, hworker⟩
        refine .bind (keeps_registerWorker hschema2 hworker) ?_
        intro _ _ _
        exact .pure trivial

theorem keeps_workers_getWorker (hschema : Schema db) (workerId : String)
    : Keeps T (Workers.getWorker uuid caller workerId) db (fun _ _ => True) := by
  unfold Workers.getWorker
  rw [hcaller]
  refine keeps_withUuid ?_
  intro id
  refine .bind (keeps_findWorker hschema) ?_
  intro worker _ _
  cases worker with
  | none => exact .pure trivial
  | some worker => exact keeps_withLease

theorem keeps_workers_startJob (hschema : Schema db) (workerId jobId : String)
    : Keeps T (Workers.startJob uuid caller workerId jobId) db (fun _ _ => True) := by
  unfold Workers.startJob
  rw [hcaller]
  refine keeps_withUuid fun id => keeps_withUuid fun jobId => ?_
  exact keeps_answering (keeps_startJob hschema) (fun _ _ => keeps_withLease)

theorem keeps_workers_reportOutcome (hschema : Schema db) (outcome : ReportJobOutcome.Outcome)
    (workerId jobId : String) (request : Option Workers.ReportJobOutcomeRequest)
    : Keeps T (Workers.reportOutcome uuid outcome caller workerId jobId request) db (fun _ _ => True) := by
  unfold Workers.reportOutcome
  rw [hcaller]
  split
  . exact .pure trivial
  . refine keeps_withUuid fun id => keeps_withUuid fun jobId => ?_
    exact keeps_answering (keeps_report hschema) (fun _ _ => .pure trivial)

theorem keeps_workers_renewLease (hschema : Schema db) (workerId : String) (leaseId : Option LeaseId)
    : Keeps T (Workers.renewLease uuid caller workerId leaseId) db (fun _ _ => True) := by
  unfold Workers.renewLease
  rw [hcaller]
  split
  . exact .pure trivial
  . refine keeps_withUuid ?_
    intro id
    refine .bind (keeps_findWorker hschema) ?_
    intro worker db1 hschema1
    cases worker with
    | none => exact .pure trivial
    | some worker => exact keeps_answering (keeps_renewLease hschema1) (fun _ _ => keeps_withLease)

theorem keeps_workers_heartbeatWorker (hschema : Schema db) (workerId : String)
    : Keeps T (Workers.heartbeatWorker uuid caller workerId) db (fun _ _ => True) := by
  unfold Workers.heartbeatWorker
  rw [hcaller]
  refine keeps_withUuid ?_
  intro id
  exact keeps_answering (keeps_workerHeartbeat hschema) (fun _ _ => .pure trivial)

end routes

def Handler.KeepsTo (T : TenantId) (handler : Handler) (db : DB) : Prop :=
  match handler with
  | .service program => Keeps T program db (fun _ _ => True)
  | .query answer => ∀ env, answer env (db.only T) = answer env db
  | .keyService _ => True

section queries

theorem listNodes_only (env : Env)
    : PostgresNodeRepository.list env (db.only T) T = PostgresNodeRepository.list env db T := by
  unfold PostgresNodeRepository.list
  change env.nodeOrder.sort ((db.nodes.rows.filter _).filter _) = _
  rw [List.filter_filter]
  simp only [Bool.and_self]

theorem listQueued_only (env : Env)
    : PostgresJobRepository.listQueued env (db.only T) T = PostgresJobRepository.listQueued env db T := by
  unfold PostgresJobRepository.listQueued
  change env.jobOrder.sort ((db.jobs.rows.filter _).filter _) = _
  rw [List.filter_filter]
  congr
  funext job
  simp

theorem listRecent_only (env : Env) (limit : Nat)
    : PostgresJobRepository.listRecent env (db.only T) limit T
        =
      PostgresJobRepository.listRecent env db limit T := by
  unfold PostgresJobRepository.listRecent
  have hrows : (db.only T).jobs.rows.filter (fun job => decide (job.tenantId = T))
      = db.jobs.rows.filter (fun job => decide (job.tenantId = T)) := by
    change (db.jobs.rows.filter _).filter _ = _
    rw [List.filter_filter]
    simp only [Bool.and_self]
  rw [hrows]

theorem listWorkers_only (hschema : Schema db) (env : Env)
    : PostgresWorkerRepository.list env (db.only T) T = PostgresWorkerRepository.list env db T := by
  have hrows : (db.only T).workers.rows.filter (fun row => decide (row.tenantId = T))
      = db.workers.rows.filter (fun row => decide (row.tenantId = T)) := by
    change (db.workers.rows.filter _).filter _ = _
    rw [List.filter_filter]
    simp only [Bool.and_self]
  unfold PostgresWorkerRepository.list
  rw [hrows]
  apply List.filterMap_congr
  intro row hrow
  have ⟨hmem, htenant⟩ := List.mem_filter.mp ((env.workerOrder.hperm _).mem_iff.mp hrow)
  exact DB.toEntity_only hschema env hmem (of_decide_eq_true htenant)

theorem events_only (T : TenantId) (db : DB) (p : Event → Bool)
    : (db.only T).events.filter (fun event => p event ∧ event.tenantId = T)
        =
      db.events.filter (fun event => p event ∧ event.tenantId = T) := by
  change (db.events.filter _).filter _ = _
  rw [List.filter_filter]
  congr
  funext event
  simp

end queries

theorem Route.keepsTo {uuid : String → Option Nat} {str : Nat → String} {hashSecret : String → String}
    {caller : ApiKey} (hcaller : caller.tenantId = T) (hschema : Schema db) (hfresh : Fresh db) (route : Route)
    : (route.handler uuid str hashSecret caller).KeepsTo T db := by
  cases route with
  | createJob request => exact keeps_jobs_createJob hcaller hschema hfresh request
  | getJob jobId => exact keeps_jobs_getJob hcaller jobId
  | cancelJob jobId => exact keeps_jobs_cancelJob hcaller hschema jobId
  | retryJob jobId => exact keeps_jobs_retryJob hcaller hschema jobId
  | createNode request => exact keeps_nodes_createNode hcaller hschema hfresh request
  | getNode nodeId => exact keeps_nodes_getNode hcaller nodeId
  | heartbeatNode nodeId => exact keeps_nodes_heartbeatNode hcaller hschema nodeId
  | drainNode nodeId => exact keeps_nodes_drainNode hcaller hschema nodeId
  | removeOfflineNode nodeId => exact keeps_nodes_removeOfflineNode hcaller hschema nodeId
  | createWorker request => exact keeps_workers_createWorker hcaller hschema hfresh request
  | getWorker workerId => exact keeps_workers_getWorker hcaller hschema workerId
  | startJob workerId jobId => exact keeps_workers_startJob hcaller hschema workerId jobId
  | completeJob workerId jobId request =>
    exact keeps_workers_reportOutcome hcaller hschema .complete workerId jobId request
  | failJob workerId jobId request =>
    exact keeps_workers_reportOutcome hcaller hschema .fail workerId jobId request
  | confirmJobCancellation workerId jobId request =>
    exact keeps_workers_reportOutcome hcaller hschema .cancel workerId jobId request
  | renewLease workerId leaseId => exact keeps_workers_renewLease hcaller hschema workerId leaseId
  | heartbeatWorker workerId => exact keeps_workers_heartbeatWorker hcaller hschema workerId
  | createApiKey label => trivial
  | revokeApiKey apiKeyId => trivial
  | listIssuedApiKeys apiKeyId => trivial
  | listJobs =>
    intro env
    unfold Jobs.listJobs
    rw [hcaller, listRecent_only]
  | listQueuedJobs =>
    intro env
    unfold Jobs.listQueuedJobs
    rw [hcaller, listQueued_only]
  | getJobHistory jobId =>
    intro env
    unfold Jobs.getJobHistory PostgresEventRepository.listByAggregate
    rw [hcaller]
    have := events_only T db (fun event => decide (str event.aggregateId.value = jobId))
    simp only [decide_eq_true_eq] at this
    rw [this]
  | listNodes =>
    intro env
    unfold Nodes.listNodes
    rw [hcaller, listNodes_only]
  | listOfflineNodes =>
    intro env
    unfold Nodes.listOfflineNodes
    rw [hcaller, listNodes_only]
  | listWorkers =>
    intro env
    unfold Workers.listWorkers
    rw [hcaller, listWorkers_only hschema]
  | listEvents =>
    intro env
    unfold Events.listEvents PostgresEventRepository.list
    rw [hcaller]
    have := events_only T db (fun _ => true)
    simp only [true_and] at this
    rw [this]
  | getClusterHealth =>
    intro env
    unfold Cluster.getClusterHealth
    rw [hcaller, listNodes_only]
  | getClusterCapacity =>
    intro env
    unfold Cluster.getClusterCapacity
    rw [hcaller, listNodes_only]
  | getClusterUtilization =>
    intro env
    unfold Cluster.getClusterUtilization
    rw [hcaller, listNodes_only]

end Http

end AetherGrid
