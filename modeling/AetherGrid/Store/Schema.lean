import AetherGrid.Store.Statements

/-!
This module contains the constraints the database enforces and the fact that no statement can break
them, whatever it is given.
-/

namespace AetherGrid

structure Schema (db : DB) : Prop where
  workerNode : ∀ row ∈ db.workers.rows, PostgresWorkerRepository.nodeSameTenant db row
  workerJob : ∀ row ∈ db.workers.rows, PostgresWorkerRepository.runningJobSameTenant db row
  jobNode : ∀ job ∈ db.jobs.rows, PostgresJobRepository.assignedNodeSameTenant db job
  leaseWorker : ∀ lease ∈ db.leases.rows, PostgresLeaseRepository.workerSameTenant db lease
  leaseJob : ∀ lease ∈ db.leases.rows, PostgresLeaseRepository.jobSameTenant db lease
  uniqueWorker : ∀ a ∈ db.leases.rows, ∀ b ∈ db.leases.rows, a.workerId = b.workerId → a = b
  uniqueJob : ∀ a ∈ db.leases.rows, ∀ b ∈ db.leases.rows, a.jobId = b.jobId → a = b

theorem schema_iff (db : DB)
    : Schema db
        ↔
      (∀ row ∈ db.workers.rows, PostgresWorkerRepository.nodeSameTenant db row)
        ∧ (∀ row ∈ db.workers.rows, PostgresWorkerRepository.runningJobSameTenant db row)
        ∧ (∀ job ∈ db.jobs.rows, PostgresJobRepository.assignedNodeSameTenant db job)
        ∧ (∀ lease ∈ db.leases.rows, PostgresLeaseRepository.workerSameTenant db lease)
        ∧ (∀ lease ∈ db.leases.rows, PostgresLeaseRepository.jobSameTenant db lease)
        ∧ (∀ a ∈ db.leases.rows, ∀ b ∈ db.leases.rows, a.workerId = b.workerId → a = b)
        ∧ (∀ a ∈ db.leases.rows, ∀ b ∈ db.leases.rows, a.jobId = b.jobId → a = b) := by
  constructor
  . intro h
    exact ⟨h.1, h.2, h.3, h.4, h.5, h.6, h.7⟩
  . intro ⟨h1, h2, h3, h4, h5, h6, h7⟩
    exact ⟨h1, h2, h3, h4, h5, h6, h7⟩

instance (db : DB) : Decidable (Schema db) :=
  decidable_of_iff _ (schema_iff db).symm

def KeepsTenants {κ ρ : Type} {key : ρ → κ} [DecidableEq κ] (tenant : ρ → TenantId)
    (t t' : Table κ ρ key) : Prop :=
  ∀ k r, t.get? k = some r → ∃ r', t'.get? k = some r' ∧ tenant r' = tenant r

section

variable {κ ρ : Type} {key : ρ → κ} [DecidableEq κ] {tenant : ρ → TenantId} {t t' : Table κ ρ key}

theorem KeepsTenants.refl (t : Table κ ρ key) : KeepsTenants tenant t t := by
  intro k r h
  exact ⟨r, h, rfl⟩

theorem KeepsTenants.upsert {r : ρ} (h : ∀ r', t.get? (key r) = some r' → tenant r' = tenant r)
    : KeepsTenants tenant t (t.upsert r) := by
  intro k r' hr'
  rw [Table.get?_upsert]
  split
  . next heq =>
    subst heq
    exact ⟨r, rfl, (h r' hr').symm⟩
  . exact ⟨r', hr', rfl⟩

theorem KeepsTenants.any {k : κ} {tenantId : TenantId} (h : KeepsTenants tenant t t')
    (hany : (t.get? k).any (tenant · = tenantId)) : (t'.get? k).any (tenant · = tenantId) := by
  rw [Option.any_eq_true] at hany
  have ⟨r, hr, htenant⟩ := hany
  have ⟨r', hr', htenant'⟩ := h k r hr
  rw [hr']
  simpa [htenant'] using htenant

end

namespace Schema

variable {db db' : DB}

theorem saveNode (h : Schema db) {node : Node} (hsave : PostgresNodeRepository.save db node = .ok db')
    : Schema db' := by
  obtain ⟨rfl, htenant⟩ := PostgresNodeRepository.save_eq_ok hsave
  have hkeeps : KeepsTenants Node.tenantId db.nodes (db.nodes.upsert node) := .upsert htenant
  refine ⟨?_, h.workerJob, ?_, h.leaseWorker, h.leaseJob, h.uniqueWorker, h.uniqueJob⟩
  . intro row hrow
    exact hkeeps.any (h.workerNode row hrow)
  . intro job hjob
    have := h.jobNode job hjob
    unfold PostgresJobRepository.assignedNodeSameTenant at this ⊢
    rw [Option.all_eq_true] at this ⊢
    intro nodeId hnode
    exact hkeeps.any (this nodeId hnode)

theorem saveJob (h : Schema db) {job : Job} (hsave : PostgresJobRepository.save db job = .ok db')
    : Schema db' := by
  obtain ⟨rfl, htenant, hnode⟩ := PostgresJobRepository.save_eq_ok hsave
  have hkeeps : KeepsTenants Job.tenantId db.jobs (db.jobs.upsert job) := .upsert htenant
  refine ⟨h.workerNode, ?_, ?_, h.leaseWorker, ?_, h.uniqueWorker, h.uniqueJob⟩
  . intro row hrow
    have := h.workerJob row hrow
    unfold PostgresWorkerRepository.runningJobSameTenant at this ⊢
    rw [Option.all_eq_true] at this ⊢
    intro jobId hjobId
    exact hkeeps.any (this jobId hjobId)
  . intro job' hjob'
    rw [Table.mem_upsert] at hjob'
    cases hjob' with
    | inl heq =>
      subst heq
      exact hnode
    | inr hmem => exact h.jobNode job' hmem.left
  . intro lease hlease
    exact hkeeps.any (h.leaseJob lease hlease)

theorem saveWorker (h : Schema db) {worker : Worker}
    (hsave : PostgresWorkerRepository.save db worker = .ok db') : Schema db' := by
  obtain ⟨rfl, hnode, hjob, hleases⟩ := PostgresWorkerRepository.save_eq_ok hsave
  refine ⟨?_, ?_, h.jobNode, ?_, h.leaseJob, h.uniqueWorker, h.uniqueJob⟩
  . intro row hrow
    rw [Table.mem_upsert] at hrow
    cases hrow with
    | inl heq =>
      subst heq
      exact hnode
    | inr hmem => exact h.workerNode row hmem.left
  . intro row hrow
    rw [Table.mem_upsert] at hrow
    cases hrow with
    | inl heq =>
      subst heq
      exact hjob
    | inr hmem => exact h.workerJob row hmem.left
  . intro lease hlease
    unfold PostgresLeaseRepository.workerSameTenant
    rw [Table.get?_upsert]
    split
    . next heq =>
      unfold PostgresWorkerRepository.leasesSameTenant at hleases
      rw [List.all_eq_true] at hleases
      have := hleases lease hlease
      rw [decide_eq_true_eq] at this
      simpa using (this heq.symm).symm
    . exact h.leaseWorker lease hlease

theorem filterLeases (h : Schema db) (p : Lease → Bool)
    : Schema { db with leases := db.leases.filter p } := by
  have hmem : ∀ lease ∈ (db.leases.filter p).rows, lease ∈ db.leases.rows := by
    intro lease hlease
    exact List.mem_of_mem_filter hlease
  refine ⟨h.workerNode, h.workerJob, h.jobNode, ?_, ?_, ?_, ?_⟩
  . intro lease hlease
    exact h.leaseWorker lease (hmem lease hlease)
  . intro lease hlease
    exact h.leaseJob lease (hmem lease hlease)
  . intro a ha b hb
    exact h.uniqueWorker a (hmem a ha) b (hmem b hb)
  . intro a ha b hb
    exact h.uniqueJob a (hmem a ha) b (hmem b hb)

theorem upsertLease (h : Schema db) {lease : Lease}
    (hworker : PostgresLeaseRepository.workerSameTenant db lease)
    (hjob : PostgresLeaseRepository.jobSameTenant db lease)
    (hfree : ∀ other ∈ db.leases.rows,
      other.id ≠ lease.id → other.workerId ≠ lease.workerId ∧ other.jobId ≠ lease.jobId)
    : Schema { db with leases := db.leases.upsert lease } := by
  refine ⟨h.workerNode, h.workerJob, h.jobNode, ?_, ?_, ?_, ?_⟩
  . intro a ha
    rw [Table.mem_upsert] at ha
    cases ha with
    | inl heq =>
      subst heq
      exact hworker
    | inr hmem => exact h.leaseWorker a hmem.left
  . intro a ha
    rw [Table.mem_upsert] at ha
    cases ha with
    | inl heq =>
      subst heq
      exact hjob
    | inr hmem => exact h.leaseJob a hmem.left
  . intro a ha b hb heq
    rw [Table.mem_upsert] at ha hb
    cases ha with
    | inl ha =>
      cases hb with
      | inl hb => rw [ha, hb]
      | inr hb =>
        have := (hfree b hb.left hb.right).left
        rw [← heq, ha] at this
        contradiction
    | inr ha =>
      cases hb with
      | inl hb =>
        have := (hfree a ha.left ha.right).left
        rw [heq, hb] at this
        contradiction
      | inr hb => exact h.uniqueWorker a ha.left b hb.left heq
  . intro a ha b hb heq
    rw [Table.mem_upsert] at ha hb
    cases ha with
    | inl ha =>
      cases hb with
      | inl hb => rw [ha, hb]
      | inr hb =>
        have := (hfree b hb.left hb.right).right
        rw [← heq, ha] at this
        contradiction
    | inr ha =>
      cases hb with
      | inl hb =>
        have := (hfree a ha.left ha.right).right
        rw [heq, hb] at this
        contradiction
      | inr hb => exact h.uniqueJob a ha.left b hb.left heq

theorem saveLease (h : Schema db) {lease : Lease}
    (hsave : PostgresLeaseRepository.save db lease = .ok db') : Schema db' := by
  obtain ⟨rfl, hworker, hjob, hfree⟩ := PostgresLeaseRepository.save_eq_ok hsave
  exact h.upsertLease hworker hjob hfree

theorem renew (h : Schema db) {env : Env} {id : LeaseId} {duration : Duration} {tenant : TenantId}
    (hrenew : PostgresLeaseRepository.renew env db id duration tenant = .ok db') : Schema db' := by
  obtain ⟨lease, hmem, _, rfl⟩ := PostgresLeaseRepository.renew_eq_ok hrenew
  apply h.upsertLease
  . exact h.leaseWorker lease hmem
  . exact h.leaseJob lease hmem
  . intro other hother hid
    refine ⟨?_, ?_⟩
    . intro heq
      have := h.uniqueWorker other hother lease hmem heq
      rw [this] at hid
      contradiction
    . intro heq
      have := h.uniqueJob other hother lease hmem heq
      rw [this] at hid
      contradiction

theorem deleteNode (h : Schema db) (id : NodeId) (tenant : TenantId)
    : Schema (PostgresNodeRepository.delete db id tenant) := by
  unfold PostgresNodeRepository.delete
  split
  . exact h
  . have hjobs : KeepsTenants Job.tenantId db.jobs
        (db.jobs.modify (PostgresNodeRepository.clearNode id)
          (PostgresNodeRepository.clearNode_id id)) := by
      intro k job hjob
      rw [Table.get?_modify, hjob]
      refine ⟨_, rfl, ?_⟩
      unfold PostgresNodeRepository.clearNode
      split <;> rfl
    refine ⟨?_, ?_, ?_, ?_, ?_, ?_, ?_⟩
    . intro row hrow
      obtain ⟨hmem, hne⟩ := List.mem_filter.mp hrow
      have := h.workerNode row hmem
      unfold PostgresWorkerRepository.nodeSameTenant at this ⊢
      rw [Option.any_eq_true] at this
      obtain ⟨node, hnode, htenant⟩ := this
      have hid := Table.key_of_get? hnode
      simp_all
    . intro row hrow
      have := h.workerJob row (List.mem_of_mem_filter hrow)
      unfold PostgresWorkerRepository.runningJobSameTenant at this ⊢
      rw [Option.all_eq_true] at this ⊢
      intro jobId hjobId
      exact hjobs.any (this jobId hjobId)
    . intro job hjob
      obtain ⟨job', hjob', heq⟩ := List.mem_map.mp hjob
      have := h.jobNode job' hjob'
      subst heq
      unfold PostgresJobRepository.assignedNodeSameTenant PostgresNodeRepository.clearNode at *
      split
      . simp
      . next hne =>
        rw [Option.all_eq_true] at this ⊢
        intro nodeId hnodeId
        have hany := this nodeId hnodeId
        rw [Option.any_eq_true] at hany
        obtain ⟨node, hnode, htenant⟩ := hany
        have hid := Table.key_of_get? hnode
        simp_all
    . intro lease hlease
      obtain ⟨hmem, hoff⟩ := List.mem_filter.mp hlease
      have := h.leaseWorker lease hmem
      unfold PostgresLeaseRepository.workerSameTenant at this ⊢
      rw [Option.any_eq_true] at this
      obtain ⟨row, hrow, htenant⟩ := this
      unfold PostgresNodeRepository.onNode at hoff
      simp_all
    . intro lease hlease
      exact hjobs.any (h.leaseJob lease (List.mem_of_mem_filter hlease))
    . intro a ha b hb
      exact h.uniqueWorker a (List.mem_of_mem_filter ha) b (List.mem_of_mem_filter hb)
    . intro a ha b hb
      exact h.uniqueJob a (List.mem_of_mem_filter ha) b (List.mem_of_mem_filter hb)

theorem congr (h : Schema db) (hnodes : db'.nodes = db.nodes) (hjobs : db'.jobs = db.jobs)
    (hworkers : db'.workers = db.workers) (hleases : db'.leases = db.leases) : Schema db' := by
  cases db
  cases db'
  dsimp only at hnodes hjobs hworkers hleases
  subst hnodes hjobs hworkers hleases
  exact ⟨h.workerNode, h.workerJob, h.jobNode, h.leaseWorker, h.leaseJob, h.uniqueWorker,
    h.uniqueJob⟩

theorem congr_nodes (h : Schema db) (hnodes : ∀ id, db'.nodes.get? id = db.nodes.get? id)
    (hjobs : db'.jobs = db.jobs) (hworkers : db'.workers = db.workers)
    (hleases : db'.leases = db.leases) : Schema db' := by
  have hschema : Schema { db' with nodes := db.nodes } := h.congr rfl hjobs hworkers hleases
  refine ⟨?_, hschema.workerJob, ?_, hschema.leaseWorker, hschema.leaseJob, hschema.uniqueWorker,
    hschema.uniqueJob⟩
  . intro row hrow
    have := hschema.workerNode row hrow
    unfold PostgresWorkerRepository.nodeSameTenant at this ⊢
    rw [hnodes]
    exact this
  . intro job hjob
    have := hschema.jobNode job hjob
    unfold PostgresJobRepository.assignedNodeSameTenant at this ⊢
    simp only [hnodes]
    exact this

theorem commit (h : Schema db) {r : Except Err DB} (hr : ∀ db', r = .ok db' → Schema db')
    : Schema (commit db r).2 := by
  cases r with
  | ok db' => exact hr db' rfl
  | error e => exact h

theorem exec (h : Schema db) (c : Call) (env : Env) : Schema (c.exec env db).2 := by
  cases c with
  | uuid4 => exact h.congr rfl rfl rfl rfl
  | saveNode node => exact h.commit fun db' => h.saveNode
  | deleteNode id tenant => exact h.deleteNode id tenant
  | saveJob job => exact h.commit fun db' => h.saveJob
  | saveWorker worker => exact h.commit fun db' => h.saveWorker
  | saveLease lease => exact h.commit fun db' => h.saveLease
  | renewLease id duration tenant => exact h.commit fun db' => h.renew
  | deleteLease job tenant => exact h.filterLeases _
  | deleteLeaseIfExpired job tenant => exact h.filterLeases _
  | saveEvent job tenant type =>
    apply h.commit
    intro db' hsave
    rw [PostgresEventRepository.save_eq_ok hsave]
    exact h.congr rfl rfl rfl rfl
  | _ => exact h

end Schema

theorem Schema.job_of_lease {db : DB} (h : Schema db) {lease : Lease} (hlease : lease ∈ db.leases.rows)
    : ∃ job, db.jobs.get? lease.jobId = some job ∧ job.tenantId = lease.tenantId := by
  have := h.leaseJob lease hlease
  unfold PostgresLeaseRepository.jobSameTenant at this
  rw [Option.any_eq_true] at this
  have ⟨job, hjob, htenant⟩ := this
  exact ⟨job, hjob, of_decide_eq_true htenant⟩

theorem Schema.worker_of_lease {db : DB} (h : Schema db) {lease : Lease} (hlease : lease ∈ db.leases.rows)
    : ∃ row, db.workers.get? lease.workerId = some row ∧ row.tenantId = lease.tenantId := by
  have := h.leaseWorker lease hlease
  unfold PostgresLeaseRepository.workerSameTenant at this
  rw [Option.any_eq_true] at this
  have ⟨row, hrow, htenant⟩ := this
  exact ⟨row, hrow, of_decide_eq_true htenant⟩

def Leased (db : DB) (id : JobId) : Prop :=
  ∃ lease ∈ db.leases.rows, lease.jobId = id

instance (db : DB) (id : JobId) : Decidable (Leased db id) :=
  inferInstanceAs (Decidable (∃ lease ∈ db.leases.rows, lease.jobId = id))

end AetherGrid
