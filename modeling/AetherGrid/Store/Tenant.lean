import AetherGrid.Table.Slice
import AetherGrid.Prog.Along
import AetherGrid.Store.Reads

/-!
This module contains what is confined to one tenant.
-/

namespace AetherGrid

def DB.restrict (p : TenantId → Bool) (db : DB) : DB where
  nodes := db.nodes.filter (fun node => p node.tenantId)
  jobs := db.jobs.filter (fun job => p job.tenantId)
  workers := db.workers.filter (fun row => p row.tenantId)
  leases := db.leases.filter (fun lease => p lease.tenantId)
  events := db.events.filter (fun event => p event.tenantId)
  nextId := db.nextId

abbrev DB.only (T : TenantId) (db : DB) : DB :=
  db.restrict (· = T)

inductive Resource where
  | node (id : NodeId)
  | job (id : JobId)
  | worker (id : WorkerId)

def Owns (T : TenantId) (db : DB) (resource : Resource) : Prop :=
  match resource with
  | .node id => ∀ node, db.nodes.get? id = some node → node.tenantId = T
  | .job id => ∀ job, db.jobs.get? id = some job → job.tenantId = T
  | .worker id => ∀ row, db.workers.get? id = some row → row.tenantId = T

def Confined (T : TenantId) (db : DB) (c : Call) : Prop :=
  match c with
  | .utcNow | .utcNowFor | .uuid4 | .generateNodeName _ => True
  | .saveNode node => node.tenantId = T ∧ Owns T db (.node node.id)
  | .saveJob job => job.tenantId = T ∧ Owns T db (.job job.id)
  | .saveWorker worker => worker.tenantId = T ∧ Owns T db (.worker worker.id)
  | .getNode _ tenant | .deleteNode _ tenant | .getJob _ tenant | .getWorker _ tenant
  | .getWorkerByNode _ tenant | .getLeaseByJob _ tenant | .getLeaseByWorker _ tenant
  | .renewLease _ _ tenant | .deleteLease _ tenant | .saveEvent _ tenant _ => tenant = T
  | _ => False

def RowOrder.Local {ρ : Type} (order : RowOrder ρ) (p : ρ → Bool) : Prop :=
  ∀ l, (order.sort l).filter p = order.sort (l.filter p)

theorem RowOrder.local_stored {ρ : Type} (p : ρ → Bool) : (RowOrder.stored ρ).Local p :=
  fun _ => rfl

section

variable {ρ : Type} {p : ρ → Bool} {o : Option ρ}

theorem filter_eq_self_of_forall (h : ∀ x, o = some x → p x) : o.filter p = o := by
  cases o with
  | none => rfl
  | some x => rw [Option.filter_some, if_pos (h x rfl)]

theorem filter_self : (o.filter p).filter p = o.filter p := by
  cases o with
  | none => rfl
  | some x =>
    rw [Option.filter_some]
    split
    . next hx => rw [Option.filter_some, if_pos hx]
    . rfl

theorem any_filter_self : (o.filter p).any p = o.any p := by
  cases o with
  | none => rfl
  | some x =>
    rw [Option.filter_some]
    split
    . rfl
    . next hx => simpa using hx

theorem find?_filter_of_imp {q : ρ → Bool} {l : List ρ} (h : ∀ x ∈ l, q x → p x)
    : (l.filter p).find? q = l.find? q := by
  induction l with
  | nil => rfl
  | cons x xs ih =>
    have hxs := ih (fun y hy => h y (List.mem_cons_of_mem x hy))
    have hx := h x List.mem_cons_self
    rw [List.filter_cons, List.find?_cons]
    cases hq : q x with
    | true => rw [if_pos (hx hq), List.find?_cons, hq]
    | false =>
      split
      . rw [List.find?_cons, hq, hxs]
      . exact hxs

end

theorem commit_map (π : DB → DB) (db : DB) (r : Except Err DB)
    : commit (π db) (r.map π) = ((commit db r).1, π (commit db r).2) := by
  cases r <;> rfl

namespace DB

variable {T : TenantId} {db : DB}

theorem get?_only_nodes (id : NodeId)
    : (db.only T).nodes.get? id = (db.nodes.get? id).filter (·.tenantId = T) :=
  Table.get?_filter _ _ _

theorem get?_only_jobs (id : JobId)
    : (db.only T).jobs.get? id = (db.jobs.get? id).filter (·.tenantId = T) :=
  Table.get?_filter _ _ _

theorem get?_only_workers (id : WorkerId)
    : (db.only T).workers.get? id = (db.workers.get? id).filter (·.tenantId = T) :=
  Table.get?_filter _ _ _

theorem getNode_only (id : NodeId)
    : PostgresNodeRepository.getById (db.only T) id T = PostgresNodeRepository.getById db id T := by
  unfold PostgresNodeRepository.getById
  rw [get?_only_nodes, filter_self]

theorem getJob_only (id : JobId)
    : PostgresJobRepository.getById (db.only T) id T = PostgresJobRepository.getById db id T := by
  unfold PostgresJobRepository.getById
  rw [get?_only_jobs, filter_self]

theorem saveNode_only {node : Node} (htenant : node.tenantId = T) (howns : Owns T db (.node node.id))
    : PostgresNodeRepository.save (db.only T) node
        =
      (PostgresNodeRepository.save db node).map (DB.only T) := by
  have hupsert : (db.nodes.upsert node).filter (fun node => decide (node.tenantId = T))
      = (db.only T).nodes.upsert node := by
    refine Table.filter_upsert_of ?_ ?_
    . exact decide_eq_true htenant
    . intro old hold
      exact decide_eq_true (howns old hold)
  have hget : (db.only T).nodes.get? node.id = db.nodes.get? node.id := by
    rw [get?_only_nodes, filter_eq_self_of_forall]
    intro stored hstored
    exact decide_eq_true (howns stored hstored)
  have hsaved : ({ db.only T with nodes := (db.only T).nodes.upsert node } : DB)
      = DB.only T { db with nodes := db.nodes.upsert node } := by
    rw [← hupsert]
    rfl
  unfold PostgresNodeRepository.save
  rw [hget]
  cases hstored : db.nodes.get? node.id with
  | none =>
    dsimp only
    rw [hsaved]
    rfl
  | some stored =>
    dsimp only
    have : stored.tenantId = node.tenantId := (howns stored hstored).trans htenant.symm
    rw [if_pos this, if_pos this, hsaved]
    rfl

theorem assignedNode_only {job : Job} (htenant : job.tenantId = T)
    : PostgresJobRepository.assignedNodeSameTenant (db.only T) job
        =
      PostgresJobRepository.assignedNodeSameTenant db job := by
  unfold PostgresJobRepository.assignedNodeSameTenant
  rw [htenant]
  simp only [get?_only_nodes, any_filter_self]

theorem saveJob_only {job : Job} (htenant : job.tenantId = T) (howns : Owns T db (.job job.id))
    : PostgresJobRepository.save (db.only T) job = (PostgresJobRepository.save db job).map (DB.only T) := by
  have hupsert : (db.jobs.upsert job).filter (fun job => decide (job.tenantId = T))
      = (db.only T).jobs.upsert job := by
    refine Table.filter_upsert_of ?_ ?_
    . exact decide_eq_true htenant
    . intro old hold
      exact decide_eq_true (howns old hold)
  have hget : (db.only T).jobs.get? job.id = db.jobs.get? job.id := by
    rw [get?_only_jobs, filter_eq_self_of_forall]
    intro stored hstored
    exact decide_eq_true (howns stored hstored)
  have hsaved : ({ db.only T with jobs := (db.only T).jobs.upsert job } : DB)
      = DB.only T { db with jobs := db.jobs.upsert job } := by
    rw [← hupsert]
    rfl
  unfold PostgresJobRepository.save
  rw [hget, assignedNode_only htenant, hsaved]
  split
  . rfl
  . split <;> rfl

theorem saveWorker_only (hschema : Schema db) {worker : Worker} (htenant : worker.tenantId = T)
    (howns : Owns T db (.worker worker.id))
    : PostgresWorkerRepository.save (db.only T) worker
        =
      (PostgresWorkerRepository.save db worker).map (DB.only T) := by
  have hrow : worker.toRow.tenantId = T := htenant
  have hnode : PostgresWorkerRepository.nodeSameTenant (db.only T) worker.toRow
      = PostgresWorkerRepository.nodeSameTenant db worker.toRow := by
    unfold PostgresWorkerRepository.nodeSameTenant
    rw [hrow, get?_only_nodes, any_filter_self]
  have hjob : PostgresWorkerRepository.runningJobSameTenant (db.only T) worker.toRow
      = PostgresWorkerRepository.runningJobSameTenant db worker.toRow := by
    unfold PostgresWorkerRepository.runningJobSameTenant
    rw [hrow]
    simp only [get?_only_jobs, any_filter_self]
  have hleases : PostgresWorkerRepository.leasesSameTenant db worker.toRow = true := by
    unfold PostgresWorkerRepository.leasesSameTenant
    rw [List.all_eq_true]
    intro lease hlease
    rw [decide_eq_true_eq]
    intro hworker
    obtain ⟨row, hget, hrowTenant⟩ := hschema.worker_of_lease hlease
    rw [hworker] at hget
    rw [hrow, ← hrowTenant]
    exact howns row hget
  have hleases' : PostgresWorkerRepository.leasesSameTenant (db.only T) worker.toRow = true := by
    unfold PostgresWorkerRepository.leasesSameTenant at hleases ⊢
    rw [List.all_eq_true] at hleases ⊢
    intro lease hlease
    exact hleases lease (List.mem_of_mem_filter hlease)
  have hupsert : (db.workers.upsert worker.toRow).filter (fun row => decide (row.tenantId = T))
      = (db.only T).workers.upsert worker.toRow := by
    refine Table.filter_upsert_of ?_ ?_
    . exact decide_eq_true htenant
    . intro old hold
      exact decide_eq_true (howns old hold)
  have hsaved : ({ db.only T with workers := (db.only T).workers.upsert worker.toRow } : DB)
      = DB.only T { db with workers := db.workers.upsert worker.toRow } := by
    rw [← hupsert]
    rfl
  unfold PostgresWorkerRepository.save
  rw [hnode, hjob, hleases, hleases', hsaved]
  split
  . rfl
  . split <;> rfl

theorem toEntity_only (hschema : Schema db) (env : Env) {row : WorkerRow} (hrow : row ∈ db.workers.rows)
    (htenant : row.tenantId = T)
    : PostgresWorkerRepository.toEntity env (db.only T) row
        =
      PostgresWorkerRepository.toEntity env db row := by
  have hnode : (db.only T).nodes.get? row.nodeId = db.nodes.get? row.nodeId := by
    have := hschema.workerNode row hrow
    unfold PostgresWorkerRepository.nodeSameTenant at this
    rw [get?_only_nodes, filter_eq_self_of_forall]
    intro node hnode
    rw [hnode, Option.any_some, htenant] at this
    exact this
  have hjob : row.runningJobId.bind (db.only T).jobs.get? = row.runningJobId.bind db.jobs.get? := by
    have := hschema.workerJob row hrow
    unfold PostgresWorkerRepository.runningJobSameTenant at this
    cases hid : row.runningJobId with
    | none => rfl
    | some id =>
      rw [Option.bind_some, Option.bind_some, get?_only_jobs, filter_eq_self_of_forall]
      intro job hjob
      rw [hid, Option.all_some, hjob, Option.any_some, htenant] at this
      exact this
  unfold PostgresWorkerRepository.toEntity
  rw [hnode, hjob]

theorem getWorker_only (hschema : Schema db) (env : Env) (id : WorkerId)
    : PostgresWorkerRepository.getById env (db.only T) id T = PostgresWorkerRepository.getById env db id T := by
  unfold PostgresWorkerRepository.getById
  rw [get?_only_workers, filter_self]
  cases hrow : (db.workers.get? id).filter (·.tenantId = T) with
  | none => rfl
  | some row =>
    rw [Option.filter_eq_some_iff, decide_eq_true_eq] at hrow
    exact toEntity_only hschema env (Table.mem_of_get? hrow.left) hrow.right

theorem getWorkerByNode_only (hschema : Schema db) {env : Env}
    (henv : env.workerOrder.Local (·.tenantId = T)) (id : NodeId)
    : PostgresWorkerRepository.getByNodeId env (db.only T) id T
        =
      PostgresWorkerRepository.getByNodeId env db id T := by
  have hfind : (env.workerOrder.sort (db.only T).workers.rows).find?
        (fun row => row.nodeId = id ∧ row.tenantId = T)
      = (env.workerOrder.sort db.workers.rows).find? (fun row => row.nodeId = id ∧ row.tenantId = T) := by
    have hlocal := henv db.workers.rows
    change (env.workerOrder.sort (db.workers.rows.filter _)).find? _ = _
    rw [← hlocal]
    apply find?_filter_of_imp
    intro row _ hrow
    rw [decide_eq_true_eq] at hrow ⊢
    exact hrow.right
  unfold PostgresWorkerRepository.getByNodeId
  rw [hfind]
  cases hrow : (env.workerOrder.sort db.workers.rows).find? (fun row => row.nodeId = id ∧ row.tenantId = T) with
  | none => rfl
  | some row =>
    have hmem := (env.workerOrder.hperm _).mem_iff.mp (List.mem_of_find?_eq_some hrow)
    have hmatch : row.nodeId = id ∧ row.tenantId = T := by simpa using List.find?_some hrow
    exact toEntity_only hschema env hmem hmatch.right

theorem getLeaseByJob_only (id : JobId)
    : PostgresLeaseRepository.getByJobId (db.only T) id T = PostgresLeaseRepository.getByJobId db id T := by
  apply find?_filter_of_imp
  intro lease _ hlease
  rw [decide_eq_true_eq] at hlease ⊢
  exact hlease.right

theorem getLeaseByWorker_only (id : WorkerId)
    : PostgresLeaseRepository.getByWorkerId (db.only T) id T
        =
      PostgresLeaseRepository.getByWorkerId db id T := by
  apply find?_filter_of_imp
  intro lease _ hlease
  rw [decide_eq_true_eq] at hlease ⊢
  exact hlease.right

theorem renew_only (env : Env) (id : LeaseId) (duration : Duration)
    : PostgresLeaseRepository.renew env (db.only T) id duration T
        =
      (PostgresLeaseRepository.renew env db id duration T).map (DB.only T) := by
  have hget : (db.only T).leases.get? id = (db.leases.get? id).filter (·.tenantId = T) :=
    Table.get?_filter _ _ _
  unfold PostgresLeaseRepository.renew
  rw [hget, filter_self]
  cases isDatetime (env.now + duration)
  case false => rfl
  cases hlease : (db.leases.get? id).filter (·.tenantId = T) with
  | none => rfl
  | some lease =>
    rw [Option.filter_eq_some_iff, decide_eq_true_eq] at hlease
    have hid := Table.key_of_get? hlease.left
    have hupsert : (db.leases.upsert { lease with expiresAt := env.now + duration }).filter
          (fun lease => decide (lease.tenantId = T))
        = (db.only T).leases.upsert { lease with expiresAt := env.now + duration } := by
      refine Table.filter_upsert_of ?_ ?_
      . exact decide_eq_true hlease.right
      . intro old hold
        dsimp only at hold
        rw [hid, hlease.left] at hold
        injection hold with hold
        rw [← hold]
        exact decide_eq_true hlease.right
    simp only [if_true, Except.map]
    rw [← hupsert]
    rfl

theorem deleteLease_only (id : JobId)
    : PostgresLeaseRepository.delete (db.only T) id T = (PostgresLeaseRepository.delete db id T).only T := by
  have hfilter := Table.filter_comm db.leases (fun lease => decide (lease.tenantId = T))
    (fun lease => decide ¬(lease.jobId = id ∧ lease.tenantId = T))
  unfold PostgresLeaseRepository.delete DB.only DB.restrict
  dsimp only
  rw [hfilter]

theorem saveEvent_only (event : Event) (htenant : event.tenantId = T)
    : PostgresEventRepository.save (db.only T) event
        =
      (PostgresEventRepository.save db event).map (DB.only T) := by
  have hany : ((db.only T).jobs.get? event.aggregateId).any (·.tenantId = event.tenantId)
      = (db.jobs.get? event.aggregateId).any (·.tenantId = event.tenantId) := by
    rw [htenant, get?_only_jobs, any_filter_self]
  unfold PostgresEventRepository.save
  rw [hany]
  split
  . unfold Except.map DB.only DB.restrict
    dsimp only
    rw [List.filter_append, List.filter_singleton, htenant]
    simp
  . rfl

theorem onNode_only (hschema : Schema db) (id : NodeId) {lease : Lease} (hlease : lease ∈ db.leases.rows)
    (htenant : lease.tenantId = T)
    : PostgresNodeRepository.onNode (db.only T) id lease.workerId
        =
      PostgresNodeRepository.onNode db id lease.workerId := by
  have ⟨row, hrow, hrowTenant⟩ := hschema.worker_of_lease hlease
  unfold PostgresNodeRepository.onNode
  rw [get?_only_workers, hrow, Option.filter_some, if_pos (decide_eq_true (hrowTenant.trans htenant))]

theorem clearNode_tenantId (id : NodeId) (job : Job)
    : (PostgresNodeRepository.clearNode id job).tenantId = job.tenantId := by
  unfold PostgresNodeRepository.clearNode
  split <;> rfl

theorem deleteNode_only (hschema : Schema db) (id : NodeId)
    : PostgresNodeRepository.delete (db.only T) id T = (PostgresNodeRepository.delete db id T).only T := by
  have hleases : (db.only T).leases.filter
        (fun lease => !PostgresNodeRepository.onNode (db.only T) id lease.workerId)
      = (db.leases.filter (fun lease => !PostgresNodeRepository.onNode db id lease.workerId)).filter
        (fun lease => decide (lease.tenantId = T)) := by
    rw [Table.filter_comm]
    apply Table.filter_congr
    intro lease hlease
    have ⟨hmem, htenant⟩ := List.mem_filter.mp hlease
    rw [onNode_only hschema id hmem (of_decide_eq_true htenant)]
  unfold PostgresNodeRepository.delete
  rw [getNode_only]
  split
  . rfl
  . unfold DB.only DB.restrict at hleases ⊢
    dsimp only at hleases ⊢
    rw [hleases, Table.filter_comm db.nodes, Table.filter_comm db.workers, Table.filter_modify]
    intro job
    rw [clearNode_tenantId]

theorem exec_only (hschema : Schema db) {c : Call} (hc : Confined T db c) {env : Env}
    (henv : env.workerOrder.Local (·.tenantId = T))
    : c.exec env (db.only T) = ((c.exec env db).1, (c.exec env db).2.only T) := by
  cases c with
  | utcNow | utcNowFor | uuid4 | generateNodeName id => rfl
  | saveNode node =>
    have hsave := saveNode_only hc.left hc.right
    unfold Call.exec
    dsimp only
    rw [hsave, commit_map]
  | saveJob job =>
    have hsave := saveJob_only hc.left hc.right
    unfold Call.exec
    dsimp only
    rw [hsave, commit_map]
  | saveWorker worker =>
    have hsave := saveWorker_only hschema hc.left hc.right
    unfold Call.exec
    dsimp only
    rw [hsave, commit_map]
  | getNode id tenant =>
    obtain rfl : tenant = T := hc
    exact Prod.ext (getNode_only id) rfl
  | deleteNode id tenant =>
    obtain rfl : tenant = T := hc
    exact Prod.ext rfl (deleteNode_only hschema id)
  | getJob id tenant =>
    obtain rfl : tenant = T := hc
    exact Prod.ext (getJob_only id) rfl
  | getWorker id tenant =>
    obtain rfl : tenant = T := hc
    exact Prod.ext (getWorker_only hschema env id) rfl
  | getWorkerByNode id tenant =>
    obtain rfl : tenant = T := hc
    exact Prod.ext (getWorkerByNode_only hschema henv id) rfl
  | getLeaseByJob id tenant =>
    obtain rfl : tenant = T := hc
    exact Prod.ext (getLeaseByJob_only id) rfl
  | getLeaseByWorker id tenant =>
    obtain rfl : tenant = T := hc
    exact Prod.ext (getLeaseByWorker_only id) rfl
  | renewLease id duration tenant =>
    obtain rfl : tenant = T := hc
    have hrenew : PostgresLeaseRepository.renew env (db.only tenant) id duration tenant
        = (PostgresLeaseRepository.renew env db id duration tenant).map (DB.only tenant) :=
      renew_only env id duration
    unfold Call.exec
    dsimp only
    rw [hrenew, commit_map]
  | deleteLease id tenant =>
    obtain rfl : tenant = T := hc
    exact Prod.ext rfl (deleteLease_only id)
  | saveEvent id tenant type =>
    obtain rfl : tenant = T := hc
    let event : Event := ⟨db.nextId, id, type, tenant, env.now⟩
    let drawn : DB := { db with nextId := db.nextId + 1 }
    have hsave : PostgresEventRepository.save (drawn.only tenant) event
        = (PostgresEventRepository.save drawn event).map (DB.only tenant) := saveEvent_only event rfl
    have hcommit := commit_map (DB.only tenant) db (PostgresEventRepository.save drawn event)
    rw [← hsave] at hcommit
    exact hcommit
  | listNodes | listAvailableNodes | listJobs | getWorkerAcrossTenants id | listWorkers | saveLease lease
    | listLeases | deleteLeaseIfExpired job tenant => exact hc.elim

def SameOthers (T : TenantId) (db db' : DB) : Prop :=
  db'.restrict (· ≠ T) = { db.restrict (· ≠ T) with nextId := db'.nextId }

theorem sameOthers_commit {r : Except Err DB} (hr : ∀ db', r = .ok db' → SameOthers T db db')
    : SameOthers T db (commit db r).2 := by
  cases r with
  | ok db' => exact hr db' rfl
  | error e => rfl

theorem sameOthers_deleteNode (hschema : Schema db) (id : NodeId)
    : SameOthers T db (PostgresNodeRepository.delete db id T) := by
  unfold PostgresNodeRepository.delete
  split
  . rfl
  . next node hnode =>
    have ⟨hget, htenant⟩ := PostgresNodeRepository.getById_eq_some hnode
    have hworker : ∀ row ∈ db.workers.rows, row.nodeId = id → row.tenantId = T := by
      intro row hrow hid
      have := hschema.workerNode row hrow
      unfold PostgresWorkerRepository.nodeSameTenant at this
      rw [hid, hget, Option.any_some, decide_eq_true_eq] at this
      exact this.symm.trans htenant
    have hnodes : (db.nodes.filter (·.id ≠ id)).filter (fun node => decide (node.tenantId ≠ T))
        = db.nodes.filter (fun node => decide (node.tenantId ≠ T)) := by
      apply Table.filter_filter_of_imp
      intro other hmem hother
      rw [decide_eq_true_eq] at hother ⊢
      intro hid
      have hgetOther := db.nodes.get?_key_of_mem hmem
      rw [hid, hget] at hgetOther
      injection hgetOther with hgetOther
      rw [hgetOther] at htenant
      exact hother htenant
    have hworkers : (db.workers.filter (·.nodeId ≠ id)).filter (fun row => decide (row.tenantId ≠ T))
        = db.workers.filter (fun row => decide (row.tenantId ≠ T)) := by
      apply Table.filter_filter_of_imp
      intro row hmem hother
      rw [decide_eq_true_eq] at hother ⊢
      exact fun hid => hother (hworker row hmem hid)
    have hleases : (db.leases.filter (fun lease => !PostgresNodeRepository.onNode db id lease.workerId)).filter
          (fun lease => decide (lease.tenantId ≠ T))
        = db.leases.filter (fun lease => decide (lease.tenantId ≠ T)) := by
      apply Table.filter_filter_of_imp
      intro lease hmem hother
      have ⟨row, hrow, hrowTenant⟩ := hschema.worker_of_lease hmem
      rw [decide_eq_true_eq] at hother
      unfold PostgresNodeRepository.onNode
      rw [hrow, Option.any_some, Bool.not_eq_true', decide_eq_false_iff_not]
      intro hid
      apply hother
      rw [← hrowTenant]
      exact hworker row (Table.mem_of_get? hrow) hid
    have hjobs : (db.jobs.modify (PostgresNodeRepository.clearNode id)
          (PostgresNodeRepository.clearNode_id id)).filter (fun job => decide (job.tenantId ≠ T))
        = db.jobs.filter (fun job => decide (job.tenantId ≠ T)) := by
      apply Table.filter_modify_of_not
      . intro job
        rw [clearNode_tenantId]
      . intro job hmem hother
        have := hschema.jobNode job hmem
        unfold PostgresJobRepository.assignedNodeSameTenant at this
        unfold PostgresNodeRepository.clearNode
        split
        . next hassigned =>
          rw [hassigned, Option.all_some, hget, Option.any_some, decide_eq_true_eq] at this
          exact absurd (this.symm.trans htenant) (of_decide_eq_true hother)
        . rfl
    unfold SameOthers DB.restrict
    dsimp only
    rw [hnodes, hworkers, hleases, hjobs]

theorem sameOthers_exec (hschema : Schema db) {c : Call} (hc : Confined T db c) (env : Env)
    : SameOthers T db (c.exec env db).2 := by
  cases c with
  | saveNode node =>
    apply sameOthers_commit
    intro db' hsave
    obtain ⟨rfl, _⟩ := PostgresNodeRepository.save_eq_ok hsave
    have hnodes : (db.nodes.upsert node).filter (fun node => decide (node.tenantId ≠ T))
        = db.nodes.filter (fun node => decide (node.tenantId ≠ T)) := by
      refine Table.filter_upsert_of_not ?_ ?_
      . simp [hc.left]
      . intro old hold
        simp [hc.right old hold]
    unfold SameOthers DB.restrict
    dsimp only
    rw [hnodes]
  | saveJob job =>
    apply sameOthers_commit
    intro db' hsave
    obtain ⟨rfl, _⟩ := PostgresJobRepository.save_eq_ok hsave
    have hjobs : (db.jobs.upsert job).filter (fun job => decide (job.tenantId ≠ T))
        = db.jobs.filter (fun job => decide (job.tenantId ≠ T)) := by
      refine Table.filter_upsert_of_not ?_ ?_
      . simp [hc.left]
      . intro old hold
        simp [hc.right old hold]
    unfold SameOthers DB.restrict
    dsimp only
    rw [hjobs]
  | saveWorker worker =>
    apply sameOthers_commit
    intro db' hsave
    obtain ⟨rfl, _⟩ := PostgresWorkerRepository.save_eq_ok hsave
    have htenant : worker.toRow.tenantId = T := hc.left
    have hworkers : (db.workers.upsert worker.toRow).filter (fun row => decide (row.tenantId ≠ T))
        = db.workers.filter (fun row => decide (row.tenantId ≠ T)) := by
      refine Table.filter_upsert_of_not ?_ ?_
      . simp [htenant]
      . intro old hold
        simp [hc.right old hold]
    unfold SameOthers DB.restrict
    dsimp only
    rw [hworkers]
  | deleteNode id tenant =>
    obtain rfl : tenant = T := hc
    exact sameOthers_deleteNode hschema id
  | renewLease id duration tenant =>
    obtain rfl : tenant = T := hc
    apply sameOthers_commit
    intro db' hrenew
    unfold PostgresLeaseRepository.renew at hrenew
    split at hrenew
    . split at hrenew
      . contradiction
      . next lease hlease =>
        injection hrenew with hrenew
        rw [Option.filter_eq_some_iff, decide_eq_true_eq] at hlease
        have hleases : (db.leases.upsert { lease with expiresAt := env.now + duration }).filter
              (fun lease => decide (lease.tenantId ≠ tenant))
            = db.leases.filter (fun lease => decide (lease.tenantId ≠ tenant)) := by
          refine Table.filter_upsert_of_not ?_ ?_
          . simp [hlease.right]
          . intro old hold
            dsimp only at hold
            rw [Table.key_of_get? hlease.left, hlease.left] at hold
            injection hold with hold
            simp [← hold, hlease.right]
        subst hrenew
        unfold SameOthers DB.restrict
        dsimp only
        rw [hleases]
    . contradiction
  | deleteLease id tenant =>
    obtain rfl : tenant = T := hc
    have hleases : (db.leases.filter (fun lease => decide ¬(lease.jobId = id ∧ lease.tenantId = tenant))).filter
          (fun lease => decide (lease.tenantId ≠ tenant))
        = db.leases.filter (fun lease => decide (lease.tenantId ≠ tenant)) := by
      apply Table.filter_filter_of_imp
      intro lease _ hother
      rw [decide_eq_true_eq] at hother ⊢
      exact fun h => hother h.right
    change SameOthers tenant db (PostgresLeaseRepository.delete db id tenant)
    unfold SameOthers PostgresLeaseRepository.delete DB.restrict
    dsimp only
    rw [hleases]
  | saveEvent id tenant type =>
    obtain rfl : tenant = T := hc
    apply sameOthers_commit
    intro db' hsave
    rw [PostgresEventRepository.save_eq_ok hsave]
    unfold SameOthers DB.restrict
    dsimp only
    rw [List.filter_append, List.filter_singleton]
    simp
  | saveLease lease | deleteLeaseIfExpired job tenant => exact hc.elim
  | _ => rfl

theorem SameOthers.trans {db' db'' : DB} (h : SameOthers T db db') (h' : SameOthers T db' db'')
    : SameOthers T db db'' := by
  unfold SameOthers at *
  rw [h', h]

end DB

theorem Owns.exec {T : TenantId} {db : DB} {c : Call} (hc : Confined T db c) (env : Env)
    {resource : Resource} (h : Owns T db resource) : Owns T (c.exec env db).2 resource := by
  have hwrites := Call.writes_exec env db c
  generalize (c.exec env db).2 = db' at *
  cases hwrites with
  | nothing | uuid4 | event | leaseGone | expiredLeaseGone | renewal => exact h
  | lease => exact hc.elim
  | node node =>
    cases resource with
    | node id =>
      intro stored hstored
      rw [Table.get?_upsert] at hstored
      split at hstored
      . injection hstored with hstored
        rw [← hstored]
        exact hc.left
      . exact h stored hstored
    | job id => exact h
    | worker id => exact h
  | job job =>
    cases resource with
    | node id => exact h
    | job id =>
      intro stored hstored
      rw [Table.get?_upsert] at hstored
      split at hstored
      . injection hstored with hstored
        rw [← hstored]
        exact hc.left
      . exact h stored hstored
    | worker id => exact h
  | worker worker =>
    cases resource with
    | node id => exact h
    | job id => exact h
    | worker id =>
      intro stored hstored
      rw [Table.get?_upsert] at hstored
      split at hstored
      . injection hstored with hstored
        rw [← hstored]
        exact hc.left
      . exact h stored hstored
  | nodeGone id tenant =>
    unfold PostgresNodeRepository.delete
    split
    . exact h
    . cases resource with
      | node other =>
        intro stored hstored
        rw [Table.get?_filter, Option.filter_eq_some_iff] at hstored
        exact h stored hstored.left
      | job other =>
        intro stored hstored
        rw [Table.get?_modify, Option.map_eq_some_iff] at hstored
        obtain ⟨job, hjob, rfl⟩ := hstored
        rw [DB.clearNode_tenantId]
        exact h job hjob
      | worker other =>
        intro stored hstored
        rw [Table.get?_filter, Option.filter_eq_some_iff] at hstored
        exact h stored hstored.left

end AetherGrid
