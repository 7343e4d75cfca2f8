import AetherGrid.Table.Sum
import AetherGrid.Store.Schema

/-!
This module contains the invariant that ties nodes, jobs, workers and leases together between two
service calls, and the relation between the stores before and after a call.
-/

namespace AetherGrid

def demand (db : DB) (nodeId : NodeId) (job : Job) : ResourceRequirements :=
  if job.assignedNodeId = some nodeId ∧ Leased db job.id then job.resources else 0

def used (db : DB) (nodeId : NodeId) : ResourceRequirements :=
  db.jobs.sum (demand db nodeId)

def Stranded (db : DB) (id : JobId) : Prop :=
  ∃ job, db.jobs.get? id = some job ∧ job.status.isActive ∧ ¬Leased db id

def JobStatus.isHeld (status : JobStatus) : Bool :=
  match status with
  | .scheduled | .running | .cancelling | .cancelled => true
  | _ => false

structure Held (db : DB) (lease : Lease) (row : WorkerRow) (job : Job) : Prop where
  hrow : db.workers.get? lease.workerId = some row
  hjob : db.jobs.get? lease.jobId = some job
  running : row.runningJobId = some lease.jobId
  assigned : job.assignedNodeId = some row.nodeId
  status : job.status.isHeld

structure Inv (db : DB) : Prop where
  schema : Schema db
  held : ∀ lease ∈ db.leases.rows, ∃ row job, Held db lease row job
  running : ∀ row ∈ db.workers.rows, ∀ jobId, row.runningJobId = some jobId →
    ∃ lease ∈ db.leases.rows, lease.workerId = row.id ∧ lease.jobId = jobId
  idle : ∀ row ∈ db.workers.rows, row.status = .idle → row.runningJobId = none
  oneWorker : ∀ a ∈ db.workers.rows, ∀ b ∈ db.workers.rows, a.nodeId = b.nodeId → a = b
  conserved : ∀ node ∈ db.nodes.rows, node.available + used db node.id = node.capacity
  freshNode : ∀ node ∈ db.nodes.rows, node.id.value < db.nextId
  freshJob : ∀ job ∈ db.jobs.rows, job.id.value < db.nextId
  freshWorker : ∀ row ∈ db.workers.rows, row.id.value < db.nextId
  freshLease : ∀ lease ∈ db.leases.rows, lease.id.value < db.nextId

structure Keeps (db db' : DB) : Prop where
  nextId : db.nextId ≤ db'.nextId
  job : ∀ id job, db.jobs.get? id = some job →
    ∃ job', db'.jobs.get? id = some job'
      ∧ job'.resources = job.resources
      ∧ job'.tenantId = job.tenantId
  worker : ∀ id row', db'.workers.get? id = some row' → id.value < db.nextId →
    ∃ row, db.workers.get? id = some row
      ∧ row'.nodeId = row.nodeId
      ∧ row'.tenantId = row.tenantId
  lease : ∀ id lease', db'.leases.get? id = some lease' → id.value < db.nextId →
    ∃ lease, db.leases.get? id = some lease
      ∧ lease'.workerId = lease.workerId
      ∧ lease'.jobId = lease.jobId
      ∧ lease'.tenantId = lease.tenantId

theorem Keeps.refl (db : DB) : Keeps db db where
  nextId := Nat.le_refl _
  job _ job h := ⟨job, h, rfl, rfl⟩
  worker _ row h _ := ⟨row, h, rfl, rfl⟩
  lease _ lease h _ := ⟨lease, h, rfl, rfl, rfl⟩

theorem Keeps.trans {db db' db'' : DB} (h : Keeps db db') (h' : Keeps db' db'') : Keeps db db'' where
  nextId := Nat.le_trans h.nextId h'.nextId
  job id job hjob := by
    have ⟨job', hjob', hresources, htenant⟩ := h.job id job hjob
    have ⟨job'', hjob'', hresources', htenant'⟩ := h'.job id job' hjob'
    refine ⟨job'', hjob'', ?_, ?_⟩
    . rw [hresources', hresources]
    . rw [htenant', htenant]
  worker id row'' hrow'' hid := by
    have := h.nextId
    have ⟨row', hrow', hnode', htenant'⟩ := h'.worker id row'' hrow'' (by omega)
    have ⟨row, hrow, hnode, htenant⟩ := h.worker id row' hrow' hid
    refine ⟨row, hrow, ?_, ?_⟩
    . rw [hnode', hnode]
    . rw [htenant', htenant]
  lease id lease'' hlease'' hid := by
    have := h.nextId
    have ⟨lease', hlease', hworker', hjob', htenant'⟩ := h'.lease id lease'' hlease'' (by omega)
    have ⟨lease, hlease, hworker, hjob, htenant⟩ := h.lease id lease' hlease' hid
    refine ⟨lease, hlease, ?_, ?_, ?_⟩
    . rw [hworker', hworker]
    . rw [hjob', hjob]
    . rw [htenant', htenant]

structure Good (db db' : DB) : Prop where
  inv : Inv db'
  keeps : Keeps db db'
  stranded : ∀ id, Stranded db' id → Stranded db id

theorem Good.refl {db : DB} (h : Inv db) : Good db db :=
  ⟨h, .refl db, fun _ => id⟩

theorem Good.trans {db db' db'' : DB} (h : Good db db') (h' : Good db' db'') : Good db db'' where
  inv := h'.inv
  keeps := h.keeps.trans h'.keeps
  stranded id hid := h.stranded id (h'.stranded id hid)

section used

variable {db db' : DB} {nodeId : NodeId} {job : Job}

theorem demand_of_not_leased (h : ¬Leased db job.id) : demand db nodeId job = 0 := by
  unfold demand
  rw [if_neg (fun hand => h hand.right)]

theorem demand_of_not_assigned (h : job.assignedNodeId ≠ some nodeId) : demand db nodeId job = 0 := by
  unfold demand
  rw [if_neg (fun hand => h hand.left)]

theorem demand_of_leased (hassigned : job.assignedNodeId = some nodeId) (h : Leased db job.id)
    : demand db nodeId job = job.resources := by
  unfold demand
  rw [if_pos ⟨hassigned, h⟩]

theorem weight_demand_congr {id : JobId} (hjob : db'.jobs.get? id = db.jobs.get? id)
    (hleased : Leased db' id ↔ Leased db id)
    : db'.jobs.weight (demand db' nodeId) id = db.jobs.weight (demand db nodeId) id := by
  unfold Table.weight
  rw [hjob]
  cases h : db.jobs.get? id with
  | none => rfl
  | some job =>
    have hid := Table.key_of_get? h
    simp only [Option.elim_some, demand, hid, hleased]

theorem weight_demand_of_not_leased {id : JobId} (h : ¬Leased db id)
    : db.jobs.weight (demand db nodeId) id = 0 := by
  cases hjob : db.jobs.get? id with
  | none => exact Table.weight_of_none hjob
  | some job =>
    rw [Table.weight_of_get? hjob, demand_of_not_leased]
    rw [Table.key_of_get? hjob]
    exact h

theorem used_add_weight (id : JobId) (hjobs : ∀ k ≠ id, db'.jobs.get? k = db.jobs.get? k)
    (hleased : ∀ k ≠ id, (Leased db' k ↔ Leased db k))
    : used db' nodeId + db.jobs.weight (demand db nodeId) id
        =
      used db nodeId + db'.jobs.weight (demand db' nodeId) id := by
  apply Table.sum_add_weight
  intro k hk
  apply weight_demand_congr
  . exact hjobs k hk
  . exact hleased k hk

theorem used_of_lease {id : JobId} {job : Job} {assigned : NodeId}
    (hjobs : ∀ k ≠ id, db'.jobs.get? k = db.jobs.get? k)
    (hleased : ∀ k ≠ id, (Leased db' k ↔ Leased db k)) (hbefore : ¬Leased db id)
    (hafter : Leased db' id) (hjob : db'.jobs.get? id = some job)
    (hassigned : job.assignedNodeId = some assigned)
    : used db' nodeId = used db nodeId + if assigned = nodeId then job.resources else 0 := by
  have h : used db' nodeId + _ = used db nodeId + _ := used_add_weight id hjobs hleased
  rw [weight_demand_of_not_leased hbefore, add_zero, Table.weight_of_get? hjob] at h
  rw [h]
  congr 1
  unfold demand
  simp only [hassigned, Table.key_of_get? hjob, hafter, and_true, Option.some.injEq]

theorem used_congr (h : ∀ id,
      db'.jobs.weight (demand db' nodeId) id = db.jobs.weight (demand db nodeId) id)
    : used db' nodeId = used db nodeId := by
  apply Table.sum_congr_weight h

theorem used_congr_tables (hjobs : db'.jobs = db.jobs)
    (hleased : ∀ id, Leased db' id ↔ Leased db id) : used db' nodeId = used db nodeId := by
  apply used_congr
  intro id
  apply weight_demand_congr
  . rw [hjobs]
  . apply hleased

end used

end AetherGrid
