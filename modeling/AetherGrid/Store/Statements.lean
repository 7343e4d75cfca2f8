import AetherGrid.Store.Call

/-!
This module contains what a statement that succeeds has checked and what it has written.
-/

namespace AetherGrid

variable {db db' : DB}

theorem PostgresNodeRepository.save_eq_ok {node : Node} (h : save db node = .ok db')
    : db' = { db with nodes := db.nodes.upsert node }
        ∧ ∀ stored, db.nodes.get? node.id = some stored → stored.tenantId = node.tenantId := by
  unfold save at h
  split at h
  . next hnone =>
    injection h with h
    refine ⟨h.symm, ?_⟩
    intro stored hstored
    rw [hnone] at hstored
    contradiction
  . next stored hstored =>
    split at h
    . next htenant =>
      injection h with h
      refine ⟨h.symm, ?_⟩
      intro other hother
      rw [hstored] at hother
      injection hother with hother
      rw [← hother, htenant]
    . contradiction

theorem PostgresJobRepository.save_eq_ok {job : Job} (h : save db job = .ok db')
    : db' = { db with jobs := db.jobs.upsert job }
        ∧ (∀ stored, db.jobs.get? job.id = some stored → stored.tenantId = job.tenantId)
        ∧ assignedNodeSameTenant db job := by
  unfold save at h
  split at h
  . contradiction
  . next htenant =>
    split at h
    . next hnode =>
      injection h with h
      refine ⟨h.symm, ?_, hnode⟩
      intro stored hstored
      simpa [hstored] using htenant
    . contradiction

theorem PostgresWorkerRepository.save_eq_ok {worker : Worker} (h : save db worker = .ok db')
    : db' = { db with workers := db.workers.upsert worker.toRow }
        ∧ nodeSameTenant db worker.toRow
        ∧ runningJobSameTenant db worker.toRow
        ∧ leasesSameTenant db worker.toRow := by
  unfold save at h
  split at h
  . contradiction
  . next hnode =>
    split at h
    . contradiction
    . next hjob =>
      split at h
      . contradiction
      . next hleases =>
        injection h with h
        simp only [Bool.not_eq_eq_eq_not, Bool.not_true, Bool.not_eq_false] at hnode hjob hleases
        exact ⟨h.symm, hnode, hjob, hleases⟩

namespace PostgresLeaseRepository

def workerSameTenant (db : DB) (lease : Lease) : Bool :=
  (db.workers.get? lease.workerId).any (·.tenantId = lease.tenantId)

def jobSameTenant (db : DB) (lease : Lease) : Bool :=
  (db.jobs.get? lease.jobId).any (·.tenantId = lease.tenantId)

theorem save_eq_ok {lease : Lease} (h : save db lease = .ok db')
    : db' = { db with leases := db.leases.upsert lease }
        ∧ workerSameTenant db lease
        ∧ jobSameTenant db lease
        ∧ ∀ other ∈ db.leases.rows,
          other.id ≠ lease.id → other.workerId ≠ lease.workerId ∧ other.jobId ≠ lease.jobId := by
  unfold save at h
  dsimp only at h
  split at h
  . contradiction
  . next hworkers =>
    split at h
    . contradiction
    . next hjobs =>
      split at h
      . contradiction
      . next hworker =>
        split at h
        . contradiction
        . next hjob =>
          injection h with h
          simp only [Bool.not_eq_eq_eq_not, Bool.not_true, Bool.not_eq_false] at hworker hjob
          simp only [List.any_filter, List.any_eq_true, Bool.and_eq_true, decide_eq_true_eq,
            not_exists, not_and] at hworkers hjobs
          refine ⟨h.symm, hworker, hjob, ?_⟩
          intro other hother hid
          exact ⟨hworkers other hother hid, hjobs other hother hid⟩

theorem renew_eq_ok {env : Env} {id : LeaseId} {duration : Duration} {tenant : TenantId}
    (h : renew env db id duration tenant = .ok db')
    : ∃ lease ∈ db.leases.rows, lease.id = id
        ∧ db' = { db with
          leases := db.leases.upsert { lease with expiresAt := env.now + duration } } := by
  unfold renew at h
  split at h
  . split at h
    . contradiction
    . next lease hlease =>
      injection h with h
      rw [Option.filter_eq_some_iff] at hlease
      exact ⟨lease, Table.mem_of_get? hlease.left, Table.key_of_get? hlease.left, h.symm⟩
  . contradiction

end PostgresLeaseRepository

theorem PostgresEventRepository.save_eq_ok {event : Event} (h : save db event = .ok db')
    : db' = { db with events := db.events ++ [event] } := by
  unfold save at h
  split at h
  . injection h with h
    exact h.symm
  . contradiction

namespace Call

def savedLease (c : Call) : Option Lease :=
  match c with
  | .saveLease lease => some lease
  | _ => none

def savedJob (c : Call) : Option Job :=
  match c with
  | .saveJob job => some job
  | _ => none

def savedWorker (c : Call) : Option Worker :=
  match c with
  | .saveWorker worker => some worker
  | _ => none

variable (env : Env) (db : DB)

theorem exec_saveNode (node : Node)
    : (∃ e, (Call.saveNode node).exec env db = (.error e, db))
        ∨ (Call.saveNode node).exec env db = (.ok (), { db with nodes := db.nodes.upsert node })
          ∧ ∀ stored, db.nodes.get? node.id = some stored → stored.tenantId = node.tenantId := by
  have hexec : (Call.saveNode node).exec env db = commit db (PostgresNodeRepository.save db node) := rfl
  rw [hexec]
  cases hsave : PostgresNodeRepository.save db node with
  | error e => exact .inl ⟨e, rfl⟩
  | ok db' =>
    obtain ⟨rfl, htenant⟩ := PostgresNodeRepository.save_eq_ok hsave
    exact .inr ⟨rfl, htenant⟩

theorem exec_saveJob (job : Job)
    : (∃ e, (Call.saveJob job).exec env db = (.error e, db))
        ∨ (Call.saveJob job).exec env db = (.ok (), { db with jobs := db.jobs.upsert job })
          ∧ (∀ stored, db.jobs.get? job.id = some stored → stored.tenantId = job.tenantId)
          ∧ PostgresJobRepository.assignedNodeSameTenant db job := by
  have hexec : (Call.saveJob job).exec env db = commit db (PostgresJobRepository.save db job) := rfl
  rw [hexec]
  cases hsave : PostgresJobRepository.save db job with
  | error e => exact .inl ⟨e, rfl⟩
  | ok db' =>
    obtain ⟨rfl, hchecks⟩ := PostgresJobRepository.save_eq_ok hsave
    exact .inr ⟨rfl, hchecks⟩

theorem exec_saveWorker (worker : Worker)
    : (∃ e, (Call.saveWorker worker).exec env db = (.error e, db))
        ∨ (Call.saveWorker worker).exec env db
            = (.ok (), { db with workers := db.workers.upsert worker.toRow })
          ∧ PostgresWorkerRepository.nodeSameTenant db worker.toRow
          ∧ PostgresWorkerRepository.runningJobSameTenant db worker.toRow
          ∧ PostgresWorkerRepository.leasesSameTenant db worker.toRow := by
  have hexec : (Call.saveWorker worker).exec env db = commit db (PostgresWorkerRepository.save db worker) := rfl
  rw [hexec]
  cases hsave : PostgresWorkerRepository.save db worker with
  | error e => exact .inl ⟨e, rfl⟩
  | ok db' =>
    obtain ⟨rfl, hchecks⟩ := PostgresWorkerRepository.save_eq_ok hsave
    exact .inr ⟨rfl, hchecks⟩

theorem exec_saveLease (lease : Lease)
    : (∃ e, (Call.saveLease lease).exec env db = (.error e, db))
        ∨ (Call.saveLease lease).exec env db = (.ok (), { db with leases := db.leases.upsert lease })
          ∧ PostgresLeaseRepository.workerSameTenant db lease
          ∧ PostgresLeaseRepository.jobSameTenant db lease
          ∧ ∀ other ∈ db.leases.rows,
            other.id ≠ lease.id → other.workerId ≠ lease.workerId ∧ other.jobId ≠ lease.jobId := by
  have hexec : (Call.saveLease lease).exec env db = commit db (PostgresLeaseRepository.save db lease) := rfl
  rw [hexec]
  cases hsave : PostgresLeaseRepository.save db lease with
  | error e => exact .inl ⟨e, rfl⟩
  | ok db' =>
    obtain ⟨rfl, hchecks⟩ := PostgresLeaseRepository.save_eq_ok hsave
    exact .inr ⟨rfl, hchecks⟩

theorem exec_renewLease (id : LeaseId) (duration : Duration) (tenant : TenantId)
    : (∃ e, (Call.renewLease id duration tenant).exec env db = (.error e, db))
        ∨ ∃ lease ∈ db.leases.rows, (Call.renewLease id duration tenant).exec env db
          = (.ok (), { db with
            leases := db.leases.upsert { lease with expiresAt := env.now + duration } }) := by
  have hexec : (Call.renewLease id duration tenant).exec env db
      = commit db (PostgresLeaseRepository.renew env db id duration tenant) := rfl
  rw [hexec]
  cases hrenew : PostgresLeaseRepository.renew env db id duration tenant with
  | error e => exact .inl ⟨e, rfl⟩
  | ok db' =>
    obtain ⟨lease, hlease, _, rfl⟩ := PostgresLeaseRepository.renew_eq_ok hrenew
    exact .inr ⟨lease, hlease, rfl⟩

theorem exec_saveEvent (job : JobId) (tenant : TenantId) (type : EventType)
    : (∃ e, (Call.saveEvent job tenant type).exec env db = (.error e, db))
        ∨ ∃ events, (Call.saveEvent job tenant type).exec env db
          = (.ok (), { db with events := events, nextId := db.nextId + 1 }) := by
  have hexec : (Call.saveEvent job tenant type).exec env db
      = commit db (PostgresEventRepository.save { db with nextId := db.nextId + 1 }
        ⟨db.nextId, job, type, tenant, env.now⟩) := rfl
  rw [hexec]
  cases hsave : PostgresEventRepository.save { db with nextId := db.nextId + 1 }
      ⟨db.nextId, job, type, tenant, env.now⟩ with
  | error e => exact .inl ⟨e, rfl⟩
  | ok db' =>
    rw [PostgresEventRepository.save_eq_ok hsave]
    exact .inr ⟨_, rfl⟩

/--
What a call can do to the stores: nothing, when it only reads or when a statement fails, or the write
that goes with it.
-/
inductive Writes (env : Env) (db : DB) : Call → DB → Prop where
  | nothing (c : Call) : Writes env db c db
  | uuid4 : Writes env db .uuid4 { db with nextId := db.nextId + 1 }
  | event (job : JobId) (tenant : TenantId) (type : EventType) (events : List Event)
    : Writes env db (.saveEvent job tenant type) { db with events := events, nextId := db.nextId + 1 }
  | node (node : Node)
    (htenant : ∀ stored, db.nodes.get? node.id = some stored → stored.tenantId = node.tenantId)
    : Writes env db (.saveNode node) { db with nodes := db.nodes.upsert node }
  | job (job : Job)
    (htenant : ∀ stored, db.jobs.get? job.id = some stored → stored.tenantId = job.tenantId)
    (hnode : PostgresJobRepository.assignedNodeSameTenant db job)
    : Writes env db (.saveJob job) { db with jobs := db.jobs.upsert job }
  | worker (worker : Worker) (hnode : PostgresWorkerRepository.nodeSameTenant db worker.toRow)
    (hjob : PostgresWorkerRepository.runningJobSameTenant db worker.toRow)
    (hleases : PostgresWorkerRepository.leasesSameTenant db worker.toRow)
    : Writes env db (.saveWorker worker) { db with workers := db.workers.upsert worker.toRow }
  | lease (lease : Lease) (hworker : PostgresLeaseRepository.workerSameTenant db lease)
    (hjob : PostgresLeaseRepository.jobSameTenant db lease)
    (hfree : ∀ other ∈ db.leases.rows,
      other.id ≠ lease.id → other.workerId ≠ lease.workerId ∧ other.jobId ≠ lease.jobId)
    : Writes env db (.saveLease lease) { db with leases := db.leases.upsert lease }
  | renewal (id : LeaseId) (duration : Duration) (tenant : TenantId) (lease : Lease)
    (hlease : lease ∈ db.leases.rows)
    : Writes env db (.renewLease id duration tenant)
      { db with leases := db.leases.upsert { lease with expiresAt := env.now + duration } }
  | leaseGone (job : JobId) (tenant : TenantId)
    : Writes env db (.deleteLease job tenant) (PostgresLeaseRepository.delete db job tenant)
  | expiredLeaseGone (job : JobId) (tenant : TenantId)
    : Writes env db (.deleteLeaseIfExpired job tenant)
      (PostgresLeaseRepository.deleteIfExpired env db job tenant).2
  | nodeGone (id : NodeId) (tenant : TenantId)
    : Writes env db (.deleteNode id tenant) (PostgresNodeRepository.delete db id tenant)

theorem writes_exec (c : Call) : Writes env db c (c.exec env db).2 := by
  cases c with
  | uuid4 => exact .uuid4
  | saveEvent job tenant type =>
    rcases exec_saveEvent env db job tenant type with ⟨e, heq⟩ | ⟨events, heq⟩
    . rw [heq]
      exact .nothing _
    . rw [heq]
      exact .event job tenant type events
  | saveNode node =>
    rcases exec_saveNode env db node with ⟨e, heq⟩ | ⟨heq, htenant⟩
    . rw [heq]
      exact .nothing _
    . rw [heq]
      exact .node node htenant
  | saveJob job =>
    rcases exec_saveJob env db job with ⟨e, heq⟩ | ⟨heq, htenant, hnode⟩
    . rw [heq]
      exact .nothing _
    . rw [heq]
      exact .job job htenant hnode
  | saveWorker worker =>
    rcases exec_saveWorker env db worker with ⟨e, heq⟩ | ⟨heq, hnode, hjob, hleases⟩
    . rw [heq]
      exact .nothing _
    . rw [heq]
      exact .worker worker hnode hjob hleases
  | saveLease lease =>
    rcases exec_saveLease env db lease with ⟨e, heq⟩ | ⟨heq, hworker, hjob, hfree⟩
    . rw [heq]
      exact .nothing _
    . rw [heq]
      exact .lease lease hworker hjob hfree
  | renewLease id duration tenant =>
    rcases exec_renewLease env db id duration tenant with ⟨e, heq⟩ | ⟨lease, hlease, heq⟩
    . rw [heq]
      exact .nothing _
    . rw [heq]
      exact .renewal id duration tenant lease hlease
  | deleteLease job tenant => exact .leaseGone job tenant
  | deleteLeaseIfExpired job tenant => exact .expiredLeaseGone job tenant
  | deleteNode id tenant => exact .nodeGone id tenant
  | _ => exact .nothing _

variable {env : Env} {db : DB} {c : Call} {db' : DB} {lease : Lease}

theorem nextId_delete {id : NodeId} {tenant : TenantId}
    : (PostgresNodeRepository.delete db id tenant).nextId = db.nextId := by
  unfold PostgresNodeRepository.delete
  split <;> rfl

theorem Writes.nextId_le (h : Writes env db c db') : db.nextId ≤ db'.nextId := by
  cases h with
  | uuid4 => exact Nat.le_succ _
  | event => exact Nat.le_succ _
  | nodeGone id tenant => exact Nat.le_of_eq nextId_delete.symm
  | _ => exact Nat.le_refl _

theorem mem_leases_delete {id : NodeId} {tenant : TenantId}
    (h : lease ∈ (PostgresNodeRepository.delete db id tenant).leases.rows)
    : lease ∈ db.leases.rows := by
  unfold PostgresNodeRepository.delete at h
  split at h
  . exact h
  . exact List.mem_of_mem_filter h

theorem Writes.mem_leases (h : Writes env db c db') (hlease : lease ∈ db'.leases.rows)
    : c = .saveLease lease
        ∨ ∃ old ∈ db.leases.rows, old.id = lease.id
          ∧ old.workerId = lease.workerId
          ∧ old.jobId = lease.jobId
          ∧ old.tenantId = lease.tenantId := by
  cases h with
  | lease saved =>
    cases (Table.mem_upsert _ _ _).mp hlease with
    | inl heq =>
      rw [heq]
      exact .inl rfl
    | inr hmem => exact .inr ⟨lease, hmem.left, rfl, rfl, rfl, rfl⟩
  | renewal id duration tenant renewed hrenewed =>
    cases (Table.mem_upsert _ _ _).mp hlease with
    | inl heq =>
      rw [heq]
      exact .inr ⟨renewed, hrenewed, rfl, rfl, rfl, rfl⟩
    | inr hmem => exact .inr ⟨lease, hmem.left, rfl, rfl, rfl, rfl⟩
  | leaseGone job tenant => exact .inr ⟨lease, List.mem_of_mem_filter hlease, rfl, rfl, rfl, rfl⟩
  | expiredLeaseGone job tenant =>
    exact .inr ⟨lease, List.mem_of_mem_filter hlease, rfl, rfl, rfl, rfl⟩
  | nodeGone id tenant => exact .inr ⟨lease, mem_leases_delete hlease, rfl, rfl, rfl, rfl⟩
  | _ => exact .inr ⟨lease, hlease, rfl, rfl, rfl, rfl⟩

theorem Writes.lease_removed (h : Writes env db c db') (hlease : lease ∈ db.leases.rows)
    (hgone : db'.leases.get? lease.id = none)
    : c = .deleteLease lease.jobId lease.tenantId
        ∨ c = .deleteLeaseIfExpired lease.jobId lease.tenantId
        ∨ ∃ id tenant, c = .deleteNode id tenant := by
  have hget := db.leases.get?_key_of_mem hlease
  have hstays : ∀ saved, (db.leases.upsert saved).get? lease.id ≠ none := by
    intro saved
    rw [Table.get?_upsert]
    split <;> simp [hget]
  cases h with
  | lease saved => exact absurd hgone (hstays saved)
  | renewal id duration tenant renewed hrenewed => exact absurd hgone (hstays _)
  | leaseGone job tenant =>
    simp only [PostgresLeaseRepository.delete, Table.get?_filter, hget,
      Option.filter_eq_none_iff, Option.some.injEq, forall_eq', decide_eq_true_eq, not_not] at hgone
    rw [hgone.left, hgone.right]
    exact .inl rfl
  | expiredLeaseGone job tenant =>
    simp only [PostgresLeaseRepository.deleteIfExpired, PostgresLeaseRepository.deletable,
      Table.get?_filter, hget, Option.filter_eq_none_iff, Option.some.injEq, forall_eq',
      Bool.not_eq_true', decide_eq_false_iff_not, not_not] at hgone
    rw [hgone.left, hgone.right.left]
    exact .inr (.inl rfl)
  | nodeGone id tenant => exact .inr (.inr ⟨id, tenant, rfl⟩)
  | _ =>
    rw [hget] at hgone
    contradiction

theorem Writes.get?_worker (h : Writes env db c db') {id : WorkerId} {row : WorkerRow}
    (hget : db.workers.get? id = some row)
    : (∃ saved, c = .saveWorker saved ∧ saved.id = id ∧ db'.workers.get? id = some saved.toRow)
        ∨ db'.workers.get? id = some row
        ∨ ∃ nodeId tenant, c = .deleteNode nodeId tenant := by
  cases h with
  | worker saved =>
    by_cases hid : saved.id = id
    . exact .inl ⟨saved, rfl, hid, Table.get?_upsert_of_eq _ hid⟩
    . have hne : saved.toRow.id ≠ id := hid
      exact .inr (.inl ((Table.get?_upsert_of_ne _ hne).trans hget))
  | nodeGone nodeId tenant => exact .inr (.inr ⟨nodeId, tenant, rfl⟩)
  | _ => exact .inr (.inl hget)

theorem Writes.get?_job (h : Writes env db c db') {id : JobId} {job : Job} (hget : db.jobs.get? id = some job)
    : (∃ saved, c = .saveJob saved ∧ saved.id = id ∧ db'.jobs.get? id = some saved)
        ∨ db'.jobs.get? id = some job
        ∨ db'.jobs.get? id = some { job with assignedNodeId := none } := by
  cases h with
  | job saved =>
    by_cases hid : saved.id = id
    . exact .inl ⟨saved, rfl, hid, Table.get?_upsert_of_eq _ hid⟩
    . exact .inr (.inl ((Table.get?_upsert_of_ne _ hid).trans hget))
  | nodeGone nodeId tenant =>
    unfold PostgresNodeRepository.delete
    split
    . exact .inr (.inl hget)
    . dsimp only
      rw [Table.get?_modify, hget, Option.map_some]
      unfold PostgresNodeRepository.clearNode
      split
      . exact .inr (.inr rfl)
      . exact .inr (.inl rfl)
  | _ => exact .inr (.inl hget)

theorem Writes.get?_job_new (h : Writes env db c db') {id : JobId} {job : Job}
    (hget : db.jobs.get? id = none) (hget' : db'.jobs.get? id = some job) : c = .saveJob job := by
  cases h with
  | job saved =>
    by_cases hid : saved.id = id
    . rw [Table.get?_upsert_of_eq _ hid] at hget'
      injection hget' with hget'
      rw [hget']
    . rw [Table.get?_upsert_of_ne _ hid, hget] at hget'
      contradiction
  | nodeGone nodeId tenant =>
    unfold PostgresNodeRepository.delete at hget'
    split at hget'
    . rw [hget] at hget'
      contradiction
    . dsimp only at hget'
      rw [Table.get?_modify, hget] at hget'
      contradiction
  | _ =>
    have := hget.symm.trans hget'
    contradiction

end Call

end AetherGrid
