import AetherGrid.Store.Schema

/-!
This module contains what a service knows about an entity it has just read.
-/

namespace AetherGrid

namespace PostgresNodeRepository

theorem getById_eq_some {db : DB} {id : NodeId} {tenant : TenantId} {node : Node}
    (h : getById db id tenant = some node) : db.nodes.get? id = some node ∧ node.tenantId = tenant := by
  unfold getById at h
  rw [Option.filter_eq_some_iff, decide_eq_true_eq] at h
  exact h

end PostgresNodeRepository

namespace PostgresJobRepository

theorem getById_eq_some {db : DB} {id : JobId} {tenant : TenantId} {job : Job}
    (h : getById db id tenant = some job) : db.jobs.get? id = some job ∧ job.tenantId = tenant := by
  unfold getById at h
  rw [Option.filter_eq_some_iff, decide_eq_true_eq] at h
  exact h

theorem getById_of_get? {db : DB} {id : JobId} {job : Job} (h : db.jobs.get? id = some job)
    : getById db id job.tenantId = some job := by
  unfold getById
  rw [h]
  simp

end PostgresJobRepository

namespace PostgresLeaseRepository

theorem getByWorkerId_eq_some {db : DB} {id : WorkerId} {tenant : TenantId} {lease : Lease}
    (h : getByWorkerId db id tenant = some lease)
    : lease ∈ db.leases.rows ∧ lease.workerId = id ∧ lease.tenantId = tenant := by
  unfold getByWorkerId at h
  refine ⟨List.mem_of_find?_eq_some h, ?_⟩
  simpa using List.find?_some h

theorem getByJobId_eq_some {db : DB} {id : JobId} {tenant : TenantId} {lease : Lease}
    (h : getByJobId db id tenant = some lease)
    : lease ∈ db.leases.rows ∧ lease.jobId = id ∧ lease.tenantId = tenant := by
  unfold getByJobId at h
  refine ⟨List.mem_of_find?_eq_some h, ?_⟩
  simpa using List.find?_some h

theorem getByJobId_eq_none {db : DB} {id : JobId} {tenant : TenantId}
    (h : getByJobId db id tenant = none)
    : ∀ lease ∈ db.leases.rows, ¬(lease.jobId = id ∧ lease.tenantId = tenant) := by
  unfold getByJobId at h
  rw [List.find?_eq_none] at h
  intro lease hlease
  simpa using h lease hlease

theorem mem_delete {db : DB} {id : JobId} {tenant : TenantId} {lease : Lease}
    : lease ∈ (PostgresLeaseRepository.delete db id tenant).leases.rows
        ↔
      lease ∈ db.leases.rows ∧ ¬(lease.jobId = id ∧ lease.tenantId = tenant) := by
  unfold PostgresLeaseRepository.delete
  simp only [Table.filter, List.mem_filter, decide_eq_true_eq]

theorem mem_deleteIfExpired {env : Env} {db : DB} {id : JobId} {tenant : TenantId} {lease : Lease}
    : lease ∈ (deleteIfExpired env db id tenant).2.leases.rows
        ↔
      lease ∈ db.leases.rows
        ∧ ¬(lease.jobId = id ∧ lease.tenantId = tenant ∧ lease.expiresAt < env.now) := by
  unfold deleteIfExpired deletable
  simp only [Table.filter, List.mem_filter, Bool.not_eq_eq_eq_not, Bool.not_true,
    decide_eq_false_iff_not]

theorem deleteIfExpired_eq_true_iff {env : Env} {db : DB} {id : JobId} {tenant : TenantId}
    : (deleteIfExpired env db id tenant).1 = true
        ↔
      ∃ lease ∈ db.leases.rows,
        lease.jobId = id ∧ lease.tenantId = tenant ∧ lease.expiresAt < env.now := by
  unfold deleteIfExpired deletable
  simp only [List.any_eq_true, decide_eq_true_eq]

end PostgresLeaseRepository

theorem deleteIfExpired_of_false {env : Env} {db : DB} {jobId : JobId} {tenant : TenantId}
    (h : (PostgresLeaseRepository.deleteIfExpired env db jobId tenant).1 = false)
    : (PostgresLeaseRepository.deleteIfExpired env db jobId tenant).2 = db := by
  unfold PostgresLeaseRepository.deleteIfExpired at h ⊢
  rw [List.any_eq_false] at h
  dsimp only
  rw [Table.filter_eq_self]
  intro lease hlease
  simpa using h lease hlease

structure Current (db : DB) (worker : Worker) : Prop where
  row : db.workers.get? worker.id = some worker.toRow
  node : ∃ node, db.nodes.get? worker.node.id = some node
    ∧ worker.node = { node with name := worker.node.name }
  job : ∀ job, worker.runningJob = some job → db.jobs.get? job.id = some job

namespace Current

variable {db db' : DB} {worker : Worker}

theorem node_tenantId (h : Current db worker)
    : ∃ node, db.nodes.get? worker.node.id = some node ∧ node.tenantId = worker.tenantId := by
  have ⟨node, hnode, heq⟩ := h.node
  refine ⟨node, hnode, ?_⟩
  unfold Worker.tenantId
  rw [heq]

theorem job_tenantId (h : Current db worker) (hschema : Schema db) {job : Job}
    (hjob : worker.runningJob = some job) : job.tenantId = worker.tenantId := by
  have hmem := Table.mem_of_get? h.row
  have := hschema.workerJob _ hmem
  unfold PostgresWorkerRepository.runningJobSameTenant Worker.toRow at this
  simp only [hjob, Option.map_some, Option.all_some, h.job job hjob, Option.any_some,
    decide_eq_true_eq] at this
  exact this

theorem congr (h : Current db worker)
    (hrow : db'.workers.get? worker.id = db.workers.get? worker.id)
    (hnode : db'.nodes.get? worker.node.id = db.nodes.get? worker.node.id)
    (hjob : ∀ job, worker.runningJob = some job → db'.jobs.get? job.id = db.jobs.get? job.id)
    : Current db' worker where
  row := by
    rw [hrow]
    exact h.row
  node := by
    rw [hnode]
    exact h.node
  job job hrunning := by
    rw [hjob job hrunning]
    exact h.job job hrunning

end Current

namespace PostgresWorkerRepository

variable {env : Env} {db : DB}

theorem toEntity_eq_some (hschema : Schema db) {row : WorkerRow} {worker : Worker}
    (hrow : row ∈ db.workers.rows) (h : toEntity env db row = some worker)
    : Current db worker ∧ worker.toRow = row := by
  unfold toEntity at h
  split at h
  . contradiction
  . next node hnode =>
    injection h with h
    have htenant := hschema.workerNode row hrow
    have hjob := hschema.workerJob row hrow
    unfold nodeSameTenant at htenant
    unfold runningJobSameTenant at hjob
    rw [hnode, Option.any_some, decide_eq_true_eq] at htenant
    have hid := Table.key_of_get? hnode
    have hrunning : (row.runningJobId.bind db.jobs.get?).map (·.id) = row.runningJobId := by
      cases hjobId : row.runningJobId with
      | none => rfl
      | some jobId =>
        rw [hjobId, Option.all_some, Option.any_eq_true] at hjob
        obtain ⟨job, hget, _⟩ := hjob
        rw [Option.bind_some, hget, Option.map_some, Table.key_of_get? hget]
    have htoRow : worker.toRow = row := by
      rw [← h]
      unfold Worker.toRow Worker.tenantId
      simp only [hrunning, hid, htenant]
    refine ⟨⟨?_, ?_, ?_⟩, htoRow⟩
    . rw [htoRow, ← h]
      exact db.workers.get?_key_of_mem hrow
    . rw [← h]
      exact ⟨node, db.nodes.get?_key_of_mem (Table.mem_of_get? hnode), rfl⟩
    . intro job hrunningJob
      rw [← h] at hrunningJob
      rw [Option.bind_eq_some_iff] at hrunningJob
      obtain ⟨jobId, _, hget⟩ := hrunningJob
      rw [Table.key_of_get? hget]
      exact hget

theorem toEntity_runningJob {row : WorkerRow} {worker : Worker} {job : Job}
    (h : toEntity env db row = some worker) (hjob : worker.runningJob = some job)
    : db.jobs.get? job.id = some job := by
  unfold toEntity at h
  split at h
  . contradiction
  . injection h with h
    rw [← h, Option.bind_eq_some_iff] at hjob
    obtain ⟨jobId, _, hget⟩ := hjob
    rw [Table.key_of_get? hget]
    exact hget

theorem toEntity_isSome (hschema : Schema db) {row : WorkerRow} (hrow : row ∈ db.workers.rows)
    : ∃ worker, toEntity env db row = some worker := by
  have := hschema.workerNode row hrow
  unfold nodeSameTenant at this
  rw [Option.any_eq_true] at this
  have ⟨node, hnode, _⟩ := this
  unfold toEntity
  rw [hnode]
  exact ⟨_, rfl⟩

theorem getById_eq_some (hschema : Schema db) {id : WorkerId} {tenant : TenantId} {worker : Worker}
    (h : getById env db id tenant = some worker)
    : Current db worker ∧ worker.id = id ∧ worker.tenantId = tenant := by
  unfold getById at h
  rw [Option.bind_eq_some_iff] at h
  have ⟨row, hrow, hentity⟩ := h
  rw [Option.filter_eq_some_iff, decide_eq_true_eq] at hrow
  have ⟨hcurrent, htoRow⟩ := toEntity_eq_some hschema (Table.mem_of_get? hrow.left) hentity
  refine ⟨hcurrent, ?_, ?_⟩
  . have := Table.key_of_get? hrow.left
    rw [← htoRow] at this
    exact this
  . have := hrow.right
    rw [← htoRow] at this
    exact this

theorem getByIdAcrossTenants_eq_some (hschema : Schema db) {id : WorkerId} {worker : Worker}
    (h : getByIdAcrossTenants env db id = some worker) : Current db worker ∧ worker.id = id := by
  unfold getByIdAcrossTenants at h
  rw [Option.bind_eq_some_iff] at h
  have ⟨row, hrow, hentity⟩ := h
  have ⟨hcurrent, htoRow⟩ := toEntity_eq_some hschema (Table.mem_of_get? hrow) hentity
  refine ⟨hcurrent, ?_⟩
  have := Table.key_of_get? hrow
  rw [← htoRow] at this
  exact this

theorem getByNodeId_eq_some (hschema : Schema db) {id : NodeId} {tenant : TenantId} {worker : Worker}
    (h : getByNodeId env db id tenant = some worker)
    : Current db worker ∧ worker.node.id = id ∧ worker.tenantId = tenant := by
  unfold getByNodeId at h
  rw [Option.bind_eq_some_iff] at h
  have ⟨row, hrow, hentity⟩ := h
  have hmem := (env.workerOrder.hperm _).mem_iff.mp (List.mem_of_find?_eq_some hrow)
  have hfind : row.nodeId = id ∧ row.tenantId = tenant := by simpa using List.find?_some hrow
  have ⟨hcurrent, htoRow⟩ := toEntity_eq_some hschema hmem hentity
  rw [← htoRow] at hfind
  exact ⟨hcurrent, hfind⟩

theorem getByNodeId_eq_none (hschema : Schema db) {id : NodeId} {tenant : TenantId}
    (h : getByNodeId env db id tenant = none)
    : ∀ row ∈ db.workers.rows, ¬(row.nodeId = id ∧ row.tenantId = tenant) := by
  intro row hrow hmatch
  unfold getByNodeId at h
  have hsorted := (env.workerOrder.hperm _).mem_iff.mpr hrow
  rw [Option.bind_eq_none_iff] at h
  cases hfind : (env.workerOrder.sort db.workers.rows).find?
      (fun row => row.nodeId = id ∧ row.tenantId = tenant) with
  | none =>
    rw [List.find?_eq_none] at hfind
    have := hfind row hsorted
    simp [hmatch] at this
  | some other =>
    have hmem := (env.workerOrder.hperm _).mem_iff.mp (List.mem_of_find?_eq_some hfind)
    have ⟨worker, hworker⟩ : ∃ worker, toEntity env db other = some worker :=
      toEntity_isSome hschema hmem
    rw [h other hfind] at hworker
    contradiction

theorem current_of_mem_list (hschema : Schema db) {worker : Worker}
    (h : worker ∈ listAcrossTenants env db) : Current db worker := by
  unfold listAcrossTenants at h
  have ⟨row, hrow, hentity⟩ := List.mem_filterMap.mp h
  exact (toEntity_eq_some hschema ((env.workerOrder.hperm _).mem_iff.mp hrow) hentity).left

theorem map_toRow_list (hschema : Schema db)
    : (listAcrossTenants env db).map Worker.toRow = env.workerOrder.sort db.workers.rows := by
  have hmem : ∀ row ∈ env.workerOrder.sort db.workers.rows, row ∈ db.workers.rows := by
    intro row hrow
    exact (env.workerOrder.hperm _).mem_iff.mp hrow
  unfold listAcrossTenants
  revert hmem
  induction env.workerOrder.sort db.workers.rows with
  | nil =>
    intro _
    rfl
  | cons row rows ih =>
    intro hmem
    have hrow := hmem row List.mem_cons_self
    have ⟨worker, hworker⟩ : ∃ worker, toEntity env db row = some worker :=
      toEntity_isSome hschema hrow
    rw [List.filterMap_cons_some hworker, List.map_cons, (toEntity_eq_some hschema hrow hworker).right]
    rw [ih (fun row hrow => hmem row (List.mem_cons_of_mem _ hrow))]

theorem nodup_list (hschema : Schema db) : ((listAcrossTenants env db).map (·.id)).Nodup := by
  have : (listAcrossTenants env db).map (·.id)
      = ((listAcrossTenants env db).map Worker.toRow).map (·.id) := by
    rw [List.map_map]
    rfl
  rw [this, map_toRow_list hschema]
  exact ((env.workerOrder.hperm _).map _).nodup_iff.mpr db.workers.hnodup

end PostgresWorkerRepository

end AetherGrid
