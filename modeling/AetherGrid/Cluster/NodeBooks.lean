import AetherGrid.Cluster.Concurrent
import AetherGrid.Cluster.Moves
import AetherGrid.Store.Reads

/-!
This module contains the books of the nodes while a scheduler tick, heartbeats, drains and reported
outcomes are served.
-/

namespace AetherGrid

open Prog Pool

namespace NodeBooks

structure Debt where
  nodeId : NodeId
  tenantId : TenantId
  resources : ResourceRequirements
  deriving DecidableEq

inductive Phase where
  | reading
  | freeing
  | freed
  deriving DecidableEq

structure Note where
  nodes : NodeId → Option Node := fun _ => none
  draining : List NodeId := []
  debt : Option Debt := none
  -- a call went wrong while the request was in debt
  failed : Bool := false
  worker : Option Worker := none
  lease : Option Lease := none
  phase : Phase := .reading
  queue : List Job := []
  placing : Option Job := none
  idle : List WorkerId := []
  drawn : Option Nat := none
  leased : Option (WorkerId × JobId) := none

namespace Note

def fails (n : Note) : Note :=
  { n with failed := n.failed || n.debt.isSome }

def owed (n : Note) (nodeId : NodeId) : ResourceRequirements :=
  match n.debt with
  | none => 0
  | some debt => if debt.nodeId = nodeId then debt.resources else 0

def debtAfter (n : Note) (node : Node) : Option Debt :=
  match n.debt, n.nodes node.id with
  | none, some seen =>
    if node.available = seen.available then
      none
    else
      some ⟨node.id, node.tenantId, seen.available - node.available⟩
  | _, _ => none

def savesNode (n : Note) (node : Node) : Note :=
  { n with
    nodes := Function.update n.nodes node.id (some node)
    draining := if node.draining then node.id :: n.draining else n.draining
    debt := n.debtAfter node }

def savesJob (n : Note) (job : Job) : Note :=
  { n with
    queue := n.queue.filter (·.id ≠ job.id)
    placing := some job }

def savesWorker (n : Note) : Note :=
  { n with
    phase := if n.phase = .freeing then .freed else n.phase
    leased := none }

def savesLease (n : Note) (lease : Lease) : Note :=
  { n with
    debt := none
    placing := none
    idle := []
    drawn := none
    leased := some (lease.workerId, lease.jobId) }

def endedJob (n : Note) : Option Job :=
  n.worker.bind (·.runningJob)

def deletesLease (n : Note) (tenant : TenantId) : Note :=
  { n with
    phase := .freeing
    debt := n.endedJob.bind fun job =>
      job.assignedNodeId.map fun nodeId => ⟨nodeId, tenant, job.resources⟩ }

def Claims (n : Note) (id : JobId) : Prop :=
  (∃ job ∈ n.queue, job.id = id) ∨ ∃ job, n.placing = some job ∧ job.id = id

def drops (n : Note) (id : JobId) : Note :=
  { n with
    queue := n.queue.filter (·.id ≠ id)
    placing := none }

section claims

variable {n : Note} {job listed : Job} {id other : JobId}

theorem mem_queue_drops (h : listed ∈ (n.drops id).queue) : listed ∈ n.queue ∧ listed.id ≠ id := by
  simpa using List.mem_filter.mp h

theorem claims_drops (h : (n.drops id).Claims other) : n.Claims other ∧ other ≠ id := by
  rcases h with ⟨listed, hlisted, hid⟩ | ⟨_, hplaced, _⟩
  . have ⟨hmem, hne⟩ := mem_queue_drops hlisted
    rw [hid] at hne
    exact ⟨.inl ⟨listed, hmem, hid⟩, hne⟩
  . contradiction

theorem claims_savesJob (hjob : n.Claims job.id) (h : (n.savesJob job).Claims other)
    : n.Claims other := by
  rcases h with ⟨listed, hlisted, hid⟩ | ⟨placed, hplaced, hid⟩
  . have hlisted : listed ∈ (n.drops job.id).queue := hlisted
    exact .inl ⟨listed, (mem_queue_drops hlisted).left, hid⟩
  . injection hplaced with hplaced
    rw [← hid, ← hplaced]
    exact hjob

end claims

end Note

def recording : Watched signature DB Env Note where
  exec := Call.exec
  note c env db n :=
    match c with
    | .getNode id tenant =>
      match PostgresNodeRepository.getById db id tenant with
      | none => n.fails
      | some node => { n with nodes := Function.update n.nodes id (some node) }
    | .listAvailableNodes => { n with nodes := db.nodes.get? }
    | .saveNode node =>
      match ((Call.saveNode node).exec env db).1 with
      | .ok _ => n.savesNode node
      | .error _ => n.fails
    | .listJobs => { n with queue := db.jobs.rows.filter (·.isQueued) }
    | .saveJob job =>
      match ((Call.saveJob job).exec env db).1 with
      | .ok _ => n.savesJob job
      | .error _ => n.fails
    | .listWorkers => { n with idle := (db.workers.rows.filter (·.status = .idle)).map (·.id) }
    | .saveWorker worker =>
      match ((Call.saveWorker worker).exec env db).1 with
      | .ok _ => n.savesWorker
      | .error _ => n.fails
    | .getLeaseByJob job tenant =>
      match PostgresLeaseRepository.getByJobId db job tenant with
      | none => n
      | some _ => n.fails
    | .uuid4 => { n with drawn := some db.nextId }
    | .saveLease lease =>
      match ((Call.saveLease lease).exec env db).1 with
      | .ok _ => n.savesLease lease
      | .error (.workerNotFound _) => n
      | .error _ => n.fails
    | .saveEvent job tenant type =>
      match ((Call.saveEvent job tenant type).exec env db).1 with
      | .ok _ => n
      | .error _ => n.fails
    | .getWorker id tenant =>
      { n with worker := n.worker <|> PostgresWorkerRepository.getById env db id tenant }
    | .getLeaseByWorker worker tenant =>
      { n with lease := PostgresLeaseRepository.getByWorkerId db worker tenant }
    | .deleteLease _ tenant => n.deletesLease tenant
    | _ => n

variable {ι : Type}

def upToDate (db : DB) (notes : ι → Note) (i : ι) (c : Call) : Prop :=
  match c with
  | .saveNode node => db.nodes.get? node.id = (notes i).nodes node.id
  | .deleteLease _ _ =>
    (∀ worker ∈ (notes i).worker, db.workers.get? worker.id = some worker.toRow
      ∧ ∀ job ∈ worker.runningJob, db.jobs.get? job.id = some job)
      ∧ ∀ lease ∈ (notes i).lease, db.leases.get? lease.id = some lease
  | _ => True

instance (db : DB) (notes : ι → Note) (i : ι) (c : Call) : Decidable (upToDate db notes i c) := by
  unfold upToDate
  split <;> infer_instance

def Writable (n : Note) (node : Node) : Prop :=
  ∃ seen, n.nodes node.id = some seen
    ∧ node.tenantId = seen.tenantId
    ∧ node.capacity = seen.capacity
    ∧ (seen.draining → node.draining)
    ∧ match n.debt with
      | none => ∃ taken, node.available + taken = seen.available
      | some debt => debt.nodeId = node.id ∧ node.available = (seen.release debt.resources).available

def mayTick (n : Note) (c : Call) : Prop :=
  match c with
  | .utcNow | .utcNowFor | .uuid4 | .listAvailableNodes => True
  | .listJobs => n.placing = none
  | .listWorkers => n.leased = none
  | .saveNode node => Writable n node
  | .saveJob job =>
    (∃ listed ∈ n.queue, listed.id = job.id
      ∧ listed.tenantId = job.tenantId
      ∧ ∀ debt, n.debt = some debt →
        job.assignedNodeId = some debt.nodeId ∧ job.tenantId = debt.tenantId)
      ∨ n.debt = none ∧ ∃ placed, n.placing = some placed ∧ placed.id = job.id
  | .saveEvent job tenant _ =>
    n.debt = none ∨ ∃ placed, n.placing = some placed ∧ placed.id = job ∧ placed.tenantId = tenant
  | .getLeaseByJob job _ => n.debt = none ∨ ∃ placed, n.placing = some placed ∧ placed.id = job
  | .saveLease lease =>
    ∃ job debt, n.placing = some job
      ∧ n.debt = some debt
      ∧ job.assignedNodeId = some debt.nodeId
      ∧ job.resources = debt.resources
      ∧ job.status ≠ .queued
      ∧ lease.jobId = job.id
      ∧ lease.tenantId = job.tenantId
      ∧ lease.workerId ∈ n.idle
      ∧ n.leased = none
      ∧ n.drawn = some lease.id.value
  | .saveWorker worker =>
    ∃ jobId, n.leased = some (worker.id, jobId)
      ∧ n.idle = []
      ∧ n.debt = none
      ∧ worker.toRow.runningJobId = some jobId
      ∧ worker.status ≠ .idle
  | _ => False

def mayCall (n : Note) (c : Call) : Prop :=
  match c with
  | .utcNow | .getJob _ _ => True
  | .getNode id tenant => ∀ debt, n.debt = some debt → debt.nodeId = id ∧ debt.tenantId = tenant
  | .saveNode node => Writable n node
  | .getWorker _ _ | .getLeaseByWorker _ _ => n.phase = .reading
  | .deleteLease job tenant =>
    n.phase = .reading
      ∧ n.debt = none
      ∧ ∃ worker ended lease, n.worker = some worker
        ∧ worker.runningJob = some ended
        ∧ n.lease = some lease
        ∧ lease.workerId = worker.id
        ∧ lease.jobId = job
        ∧ lease.tenantId = tenant
  | .saveEvent job tenant _ =>
    n.debt = none
      ∨ n.phase ≠ .reading ∧ ∃ lease, n.lease = some lease ∧ lease.jobId = job ∧ lease.tenantId = tenant
  | .saveWorker worker => n.phase = .freeing ∧ ∃ read, n.worker = some read ∧ worker = read.recover
  | .saveJob job =>
    n.phase ≠ .reading
      ∧ n.debt = none
      ∧ ∃ ended, n.endedJob = some ended ∧ job.id = ended.id ∧ job.status ≠ .queued
  | _ => False

structure Ticking (db : DB) (t : Note) : Prop where
  queue : ∀ job ∈ t.queue, db.jobs.get? job.id = some job ∧ ¬Leased db job.id
  placing : ∀ job, t.placing = some job → db.jobs.get? job.id = some job ∧ ¬Leased db job.id
  apart : ∀ job ∈ t.queue, ∀ placed, t.placing = some placed → job.id ≠ placed.id
  idle : ∀ id ∈ t.idle, (∀ lease ∈ db.leases.rows, lease.workerId ≠ id)
    ∧ ∀ row, db.workers.get? id = some row → row.runningJobId = none
  drawn : ∀ id, t.drawn = some id → id < db.nextId ∧ ∀ lease ∈ db.leases.rows, lease.id.value ≠ id
  leased : ∀ id jobId, t.leased = some (id, jobId) →
    ∀ row, db.workers.get? id = some row → row.runningJobId = none

structure Ending (db : DB) (t n : Note) (worker : Worker) (job : Job) (lease : Lease) : Prop where
  hworker : n.worker = some worker
  hjob : worker.runningJob = some job
  hlease : n.lease = some lease
  leaseJob : lease.jobId = job.id
  leaseTenant : lease.tenantId = job.tenantId
  stored : ∃ stored, db.jobs.get? job.id = some stored
    ∧ stored.tenantId = job.tenantId
    ∧ stored.status ≠ .queued
  notLeased : ¬Leased db job.id
  notClaimed : ¬t.Claims job.id
  freeing : n.phase = .freeing → db.workers.get? worker.id = some worker.toRow
    ∧ ∀ lease ∈ db.leases.rows, lease.workerId ≠ worker.id

structure Owners (tick : ι) (db : DB) (notes : ι → Note) : Prop where
  schema : Schema db
  fresh : ∀ lease ∈ db.leases.rows, lease.id.value < db.nextId
  idle : ∀ row ∈ db.workers.rows, row.status = .idle → row.runningJobId = none
  held : ∀ lease ∈ db.leases.rows, ∀ job, db.jobs.get? lease.jobId = some job → job.status ≠ .queued
  running : ∀ lease ∈ db.leases.rows, ∀ row, db.workers.get? lease.workerId = some row →
    row.runningJobId = some lease.jobId
      ∨ row.runningJobId = none ∧ (notes tick).leased = some (lease.workerId, lease.jobId)
  ticking : Ticking db (notes tick)
  ending : ∀ i ≠ tick, (notes i).phase ≠ .reading →
    ∃ worker job lease, Ending db (notes tick) (notes i) worker job lease
  exclusive : ∀ i ≠ tick, (notes i).phase = .freeing → ∀ j ≠ tick, (notes j).phase = .freeing →
    ∀ worker other, (notes i).worker = some worker → (notes j).worker = some other →
    worker.id = other.id → i = j

structure Balanced [Fintype ι] (db : DB) (notes : ι → Note) : Prop where
  books : ∀ node ∈ db.nodes.rows,
    node.available + used db node.id + ∑ i, (notes i).owed node.id = node.capacity
  creditor : ∀ i debt, (notes i).debt = some debt →
    ∃ node, db.nodes.get? debt.nodeId = some node ∧ node.tenantId = debt.tenantId
  draining : ∀ i, ∀ id ∈ (notes i).draining, ∃ node, db.nodes.get? id = some node ∧ node.draining
  sound : ∀ i, (notes i).failed = false

section owed

variable [Fintype ι] [DecidableEq ι] {notes : ι → Note} {i : ι} {n' : Note} {id : NodeId}

theorem sum_owed_update (notes : ι → Note) (i : ι) (n' : Note) (id : NodeId)
    : ∑ j, (Function.update notes i n' j).owed id + (notes i).owed id
        =
      ∑ j, (notes j).owed id + n'.owed id := by
  have hrest : ∑ j ∈ Finset.univ.erase i, (Function.update notes i n' j).owed id
      = ∑ j ∈ Finset.univ.erase i, (notes j).owed id := by
    apply Finset.sum_congr rfl
    intro j hj
    rw [Function.update_of_ne (Finset.ne_of_mem_erase hj)]
  rw [← Finset.add_sum_erase _ _ (Finset.mem_univ i), ← Finset.add_sum_erase _ _ (Finset.mem_univ i)]
  rw [hrest, Function.update_self]
  abel

theorem exists_sum_owed (notes : ι → Note) (i : ι) (id : NodeId)
    : ∃ rest, ∑ j, (notes j).owed id = (notes i).owed id + rest :=
  ⟨_, (Finset.add_sum_erase _ _ (Finset.mem_univ i)).symm⟩

theorem balance_of_move {a a' u u' s s' o o' c : ResourceRequirements} (hsum : s' + o = s + o')
    (hmove : a' + u' + o' = a + u + o) (hbooks : a + u + s = c) : a' + u' + s' = c := by
  subst hbooks
  simp only [ResourceRequirements.ext_iff, ResourceRequirements.add_cpuCores,
    ResourceRequirements.add_memoryMib, ResourceRequirements.add_vramMib] at *
  omega

end owed

section savesNode

variable {n : Note} {node seen : Node}

theorem owed_of_none (h : n.debt = none) (id : NodeId) : n.owed id = 0 := by
  unfold Note.owed
  rw [h]

theorem owed_of_some {debt : Debt} (h : n.debt = some debt) (id : NodeId)
    : n.owed id = if debt.nodeId = id then debt.resources else 0 := by
  unfold Note.owed
  rw [h]

theorem debtAfter_of_none (hdebt : n.debt = none) (hseen : n.nodes node.id = some seen)
    : n.debtAfter node
        =
      if node.available = seen.available then
        none
      else
        some ⟨node.id, node.tenantId, seen.available - node.available⟩ := by
  unfold Note.debtAfter
  rw [hdebt, hseen]

theorem debtAfter_of_some {debt : Debt} (hdebt : n.debt = some debt) : n.debtAfter node = none := by
  unfold Note.debtAfter
  rw [hdebt]

theorem debtAfter_eq_some {debt : Debt} (h : n.debtAfter node = some debt)
    : debt.nodeId = node.id ∧ debt.tenantId = node.tenantId := by
  unfold Note.debtAfter at h
  split at h
  . split at h
    . contradiction
    . injection h with h
      rw [← h]
      exact ⟨rfl, rfl⟩
  . contradiction

theorem owed_savesNode_of_ne (hwritable : Writable n node) {id : NodeId} (hne : node.id ≠ id)
    : (n.savesNode node).owed id = n.owed id := by
  have ⟨seen, hseen, _, _, _, hbalance⟩ := hwritable
  have hnew : (n.savesNode node).owed id = 0 := by
    cases hdebt : (n.savesNode node).debt with
    | none => exact owed_of_none hdebt id
    | some debt =>
      have hnodeId : debt.nodeId = node.id := (debtAfter_eq_some hdebt).left
      rw [owed_of_some hdebt, if_neg]
      rw [hnodeId]
      exact hne
  rw [hnew]
  cases hdebt : n.debt with
  | none => rw [owed_of_none hdebt]
  | some debt =>
    rw [hdebt] at hbalance
    rw [owed_of_some hdebt, if_neg]
    rw [hbalance.left]
    exact hne

theorem owed_savesNode (hseen : n.nodes node.id = some seen)
    (hbalance : match n.debt with
      | none => ∃ taken, node.available + taken = seen.available
      | some debt => debt.nodeId = node.id ∧ node.available = (seen.release debt.resources).available)
    (hfits : seen.available + n.owed node.id ≤ seen.capacity)
    : node.available + (n.savesNode node).owed node.id = seen.available + n.owed node.id := by
  have hdebt' : (n.savesNode node).debt = n.debtAfter node := rfl
  cases hdebt : n.debt with
  | none =>
    rw [hdebt] at hbalance
    have ⟨taken, htaken⟩ := hbalance
    rw [debtAfter_of_none hdebt hseen] at hdebt'
    rw [owed_of_none hdebt, add_zero]
    split at hdebt'
    . next heq => rw [owed_of_none hdebt', heq, add_zero]
    . rw [owed_of_some hdebt', if_pos rfl, ← htaken]
      ext <;> simp
  | some debt =>
    rw [hdebt] at hbalance
    rw [debtAfter_of_some hdebt] at hdebt'
    rw [owed_of_some hdebt, if_pos hbalance.left] at hfits
    rw [owed_of_none hdebt', owed_of_some hdebt, if_pos hbalance.left, hbalance.right, add_zero]
    exact Node.release_available hfits

end savesNode

namespace Balanced

variable [Fintype ι] [DecidableEq ι] {db db' : DB} {notes : ι → Note} {i : ι} {n' : Note}

theorem move (h : Balanced db notes) (hnodes : db'.nodes = db.nodes)
    (hmove : ∀ id, used db' id + n'.owed id = used db id + (notes i).owed id)
    (hcreditor : ∀ debt, n'.debt = some debt →
      ∃ node, db.nodes.get? debt.nodeId = some node ∧ node.tenantId = debt.tenantId)
    (hdraining : n'.draining = (notes i).draining) (hsound : n'.failed = false)
    : Balanced db' (Function.update notes i n') := by
  refine ⟨?_, ?_, ?_, ?_⟩
  . rw [hnodes]
    intro node hnode
    apply balance_of_move (sum_owed_update notes i n' node.id) _ (h.books node hnode)
    rw [add_assoc, hmove, add_assoc]
  . rw [hnodes]
    exact (Function.forall_update_iff notes (p := fun _ n => ∀ debt, n.debt = some debt →
      ∃ node, db.nodes.get? debt.nodeId = some node ∧ node.tenantId = debt.tenantId)).mpr
      ⟨hcreditor, fun j _ => h.creditor j⟩
  . rw [hnodes]
    refine (Function.forall_update_iff notes (p := fun _ n => ∀ id ∈ n.draining,
      ∃ node, db.nodes.get? id = some node ∧ node.draining)).mpr ⟨?_, fun j _ => h.draining j⟩
    rw [hdraining]
    exact h.draining i
  . exact (Function.forall_update_iff notes (p := fun _ n => n.failed = false)).mpr
      ⟨hsound, fun j _ => h.sound j⟩

theorem congr (h : Balanced db notes) (hnodes : db'.nodes = db.nodes)
    (hused : ∀ id, used db' id = used db id) (hdebt : n'.debt = (notes i).debt)
    (hdraining : n'.draining = (notes i).draining) (hfailed : n'.failed = (notes i).failed)
    : Balanced db' (Function.update notes i n') := by
  apply h.move hnodes
  . intro id
    unfold Note.owed
    rw [hused, hdebt]
  . rw [hdebt]
    exact h.creditor i
  . exact hdraining
  . rw [hfailed]
    exact h.sound i

theorem fits (h : Balanced db notes) {node : Node} (hnode : node ∈ db.nodes.rows) (i : ι)
    : node.available + (notes i).owed node.id ≤ node.capacity := by
  have ⟨rest, hrest⟩ := exists_sum_owed notes i node.id
  have hbooks := h.books node hnode
  rw [hrest] at hbooks
  apply ResourceRequirements.le_of_add_eq (b := used db node.id + rest)
  rw [← hbooks]
  abel

theorem saveNode (h : Balanced db notes) {node : Node} (hwritable : Writable (notes i) node)
    (hcurrent : db.nodes.get? node.id = (notes i).nodes node.id)
    : Balanced { db with nodes := db.nodes.upsert node }
        (Function.update notes i ((notes i).savesNode node)) := by
  obtain ⟨seen, hseen, htenant, hcapacity, hdraining, hbalance⟩ := hwritable
  have hstored := hcurrent.trans hseen
  have hmem := Table.mem_of_get? hstored
  have hid : seen.id = node.id := Table.key_of_get? hstored
  have hput := Table.puts_upsert db.nodes node
  have hused : ∀ id, used { db with nodes := db.nodes.upsert node } id = used db id := by
    intro id
    exact used_congr_tables rfl (leased_congr rfl)
  have hkept : ∀ id other, db.nodes.get? id = some other →
      ∃ other', (db.nodes.upsert node).get? id = some other'
        ∧ other'.tenantId = other.tenantId
        ∧ (other.draining → other'.draining) := by
    intro id other hother
    rw [Table.get?_upsert]
    split
    . next heq =>
      subst heq
      rw [hstored] at hother
      injection hother with hother
      subst hother
      exact ⟨node, rfl, htenant, hdraining⟩
    . exact ⟨other, hother, rfl, fun hdraining => hdraining⟩
  refine ⟨?_, ?_, ?_, ?_⟩
  . refine hput.forall_mem ?_ ?_
    . have hfits := h.fits hmem i
      have hbooks := h.books seen hmem
      rw [hid] at hfits hbooks
      rw [hused, hcapacity]
      apply balance_of_move (sum_owed_update notes i _ node.id) _ hbooks
      rw [add_right_comm, owed_savesNode hseen hbalance hfits, add_right_comm]
    . intro other hother hne
      rw [hused]
      apply balance_of_move (sum_owed_update notes i _ other.id) _ (h.books other hother)
      have hwritable : Writable (notes i) node := ⟨seen, hseen, htenant, hcapacity, hdraining, hbalance⟩
      rw [owed_savesNode_of_ne hwritable (Ne.symm hne)]
  . refine (Function.forall_update_iff notes (p := fun _ n => ∀ debt, n.debt = some debt →
      ∃ other, (db.nodes.upsert node).get? debt.nodeId = some other
        ∧ other.tenantId = debt.tenantId)).mpr ⟨?_, ?_⟩
    . intro debt hdebt
      obtain ⟨hnodeId, htenantId⟩ := debtAfter_eq_some hdebt
      rw [hnodeId, htenantId]
      exact ⟨node, hput.get?_self, rfl⟩
    . intro j _ debt hdebt
      obtain ⟨other, hother, htenantId⟩ := h.creditor j debt hdebt
      obtain ⟨other', hother', htenant', _⟩ := hkept _ other hother
      exact ⟨other', hother', htenant'.trans htenantId⟩
  . have hold : ∀ j, ∀ id ∈ (notes j).draining,
        ∃ other, (db.nodes.upsert node).get? id = some other ∧ other.draining := by
      intro j id hid
      obtain ⟨other, hother, hotherDraining⟩ := h.draining j id hid
      obtain ⟨other', hother', _, hdraining'⟩ := hkept id other hother
      exact ⟨other', hother', hdraining' hotherDraining⟩
    refine (Function.forall_update_iff notes (p := fun _ n => ∀ id ∈ n.draining,
      ∃ other, (db.nodes.upsert node).get? id = some other ∧ other.draining)).mpr
      ⟨?_, fun j _ => hold j⟩
    intro id hmemDraining
    unfold Note.savesNode at hmemDraining
    dsimp only at hmemDraining
    split at hmemDraining
    . next hnodeDraining =>
      cases List.mem_cons.mp hmemDraining with
      | inl heq =>
        rw [heq]
        exact ⟨node, hput.get?_self, hnodeDraining⟩
      | inr hrest => exact hold i id hrest
    . exact hold i id hmemDraining
  . exact (Function.forall_update_iff notes (p := fun _ n => n.failed = false)).mpr
      ⟨h.sound i, fun j _ => h.sound j⟩

end Balanced

namespace Ending

variable {db db' : DB} {t t' n : Note} {worker : Worker} {job : Job} {lease : Lease}

theorem endedJob (h : Ending db t n worker job lease) : n.endedJob = some job := by
  unfold Note.endedJob
  rw [h.hworker]
  exact h.hjob

theorem congr (h : Ending db t n worker job lease)
    (hjobs : db'.jobs.get? job.id = db.jobs.get? job.id)
    (hworkers : n.phase = .freeing → db'.workers.get? worker.id = db.workers.get? worker.id)
    (hleases : ∀ lease ∈ db'.leases.rows, lease ∈ db.leases.rows)
    : Ending db' t n worker job lease := by
  refine ⟨h.hworker, h.hjob, h.hlease, h.leaseJob, h.leaseTenant, ?_, ?_, h.notClaimed, ?_⟩
  . rw [hjobs]
    exact h.stored
  . intro ⟨other, hother, hid⟩
    exact h.notLeased ⟨other, hleases other hother, hid⟩
  . intro hphase
    rw [hworkers hphase]
    exact ⟨(h.freeing hphase).left, fun other hother => (h.freeing hphase).right other (hleases other hother)⟩

theorem claims (h : Ending db t n worker job lease) (hclaims : ¬t'.Claims job.id)
    : Ending db t' n worker job lease :=
  ⟨h.hworker, h.hjob, h.hlease, h.leaseJob, h.leaseTenant, h.stored, h.notLeased, hclaims, h.freeing⟩

theorem ne_of_free (h : Ending db t n worker job lease) {id : WorkerId}
    (hfree : ∀ row, db.workers.get? id = some row → row.runningJobId = none)
    (hphase : n.phase = .freeing) : id ≠ worker.id := by
  intro heq
  have hrow := (h.freeing hphase).left
  rw [← heq] at hrow
  have := hfree _ hrow
  simp [Worker.toRow, h.hjob] at this

end Ending

namespace Owners

variable {tick i : ι} {db db' : DB} {notes : ι → Note}

theorem not_claims (h : Owners tick db notes) {j : ι} (hj : j ≠ tick)
    (hphase : (notes j).phase ≠ .reading) {job : Job} (hjob : (notes j).endedJob = some job)
    : ¬(notes tick).Claims job.id := by
  have ⟨worker, ended, lease, hending⟩ := h.ending j hj hphase
  have := hending.endedJob.symm.trans hjob
  injection this with this
  rw [← this]
  exact hending.notClaimed

theorem claimed (h : Owners tick db notes) {id : JobId} (hclaims : (notes tick).Claims id)
    : ∃ job, db.jobs.get? id = some job ∧ ¬Leased db id := by
  rcases hclaims with ⟨job, hjob, hid⟩ | ⟨job, hjob, hid⟩
  . rw [← hid]
    exact ⟨job, h.ticking.queue job hjob⟩
  . rw [← hid]
    exact ⟨job, h.ticking.placing job hjob⟩

theorem fewerLeases (h : Owners tick db notes) (hschema : Schema db') (hjobs : db'.jobs = db.jobs)
    (hworkers : db'.workers = db.workers)
    (hleases : ∀ lease ∈ db'.leases.rows, lease ∈ db.leases.rows) (hnext : db.nextId ≤ db'.nextId)
    : Owners tick db' notes := by
  have hleased : ∀ id, Leased db' id → Leased db id := by
    intro id ⟨lease, hlease, hid⟩
    exact ⟨lease, hleases lease hlease, hid⟩
  refine ⟨hschema, ?_, ?_, ?_, ?_, ⟨?_, ?_, h.ticking.apart, ?_, ?_, ?_⟩, ?_, h.exclusive⟩
  . intro lease hlease
    exact Nat.lt_of_lt_of_le (h.fresh lease (hleases lease hlease)) hnext
  . rw [hworkers]
    exact h.idle
  . rw [hjobs]
    intro lease hlease
    exact h.held lease (hleases lease hlease)
  . rw [hworkers]
    intro lease hlease
    exact h.running lease (hleases lease hlease)
  . rw [hjobs]
    intro job hjob
    have ⟨hstored, hnot⟩ := h.ticking.queue job hjob
    exact ⟨hstored, fun hlease => hnot (hleased _ hlease)⟩
  . rw [hjobs]
    intro job hjob
    have ⟨hstored, hnot⟩ := h.ticking.placing job hjob
    exact ⟨hstored, fun hlease => hnot (hleased _ hlease)⟩
  . rw [hworkers]
    intro id hid
    have ⟨hnot, hrow⟩ := h.ticking.idle id hid
    exact ⟨fun lease hlease => hnot lease (hleases lease hlease), hrow⟩
  . intro id hid
    have ⟨hlt, hnot⟩ := h.ticking.drawn id hid
    exact ⟨Nat.lt_of_lt_of_le hlt hnext, fun lease hlease => hnot lease (hleases lease hlease)⟩
  . rw [hworkers]
    exact h.ticking.leased
  . intro j hj hphase
    have ⟨worker, job, lease, hending⟩ := h.ending j hj hphase
    exact ⟨worker, job, lease, hending.congr (by rw [hjobs]) (fun _ => by rw [hworkers]) hleases⟩

theorem congr (h : Owners tick db notes) (hschema : Schema db') (hjobs : db'.jobs = db.jobs)
    (hworkers : db'.workers = db.workers) (hleases : db'.leases = db.leases)
    (hnext : db.nextId ≤ db'.nextId) : Owners tick db' notes := by
  apply h.fewerLeases hschema hjobs hworkers _ hnext
  rw [hleases]
  exact fun _ hlease => hlease

theorem putJob (h : Owners tick db notes) {job' : Job}
    (hschema : Schema { db with jobs := db.jobs.upsert job' })
    (htenant : ∀ stored, db.jobs.get? job'.id = some stored → stored.tenantId = job'.tenantId)
    (hleased : ¬Leased db job'.id) (hclaims : ¬(notes tick).Claims job'.id)
    (hstatus : ∀ j ≠ tick, (notes j).phase ≠ .reading →
      ∀ job, (notes j).endedJob = some job → job.id = job'.id → job'.status ≠ .queued)
    : Owners tick { db with jobs := db.jobs.upsert job' } notes := by
  have hother : ∀ job : Job, job.id ≠ job'.id →
      (db.jobs.upsert job').get? job.id = db.jobs.get? job.id := by
    intro job hne
    exact Table.get?_upsert_of_ne _ (Ne.symm hne)
  refine ⟨hschema, h.fresh, h.idle, ?_, h.running, ⟨?_, ?_, h.ticking.apart, h.ticking.idle,
    h.ticking.drawn, h.ticking.leased⟩, ?_, h.exclusive⟩
  . intro lease hlease job hjob
    have hne : job'.id ≠ lease.jobId := by
      intro heq
      exact hleased ⟨lease, hlease, heq.symm⟩
    dsimp only at hjob
    rw [Table.get?_upsert_of_ne _ hne] at hjob
    exact h.held lease hlease job hjob
  . intro job hjob
    have hne : job.id ≠ job'.id := by
      intro heq
      exact hclaims (.inl ⟨job, hjob, heq⟩)
    dsimp only
    rw [hother job hne]
    exact h.ticking.queue job hjob
  . intro job hjob
    have hne : job.id ≠ job'.id := by
      intro heq
      exact hclaims (.inr ⟨job, hjob, heq⟩)
    dsimp only
    rw [hother job hne]
    exact h.ticking.placing job hjob
  . intro j hj hphase
    have ⟨worker, job, lease, hending⟩ := h.ending j hj hphase
    refine ⟨worker, job, lease, ?_⟩
    by_cases heq : job.id = job'.id
    . -- the report saves the job it has ended
      have ⟨stored, hstored, hstoredTenant, _⟩ := hending.stored
      rw [heq] at hstored
      refine ⟨hending.hworker, hending.hjob, hending.hlease, hending.leaseJob, hending.leaseTenant,
        ⟨job', ?_, ?_, ?_⟩, hending.notLeased, hending.notClaimed, hending.freeing⟩
      . exact Table.get?_upsert_of_eq _ heq.symm
      . rw [← htenant stored hstored]
        exact hstoredTenant
      . exact hstatus j hj hphase job hending.endedJob heq
    . exact hending.congr (hother job heq) (fun _ => rfl) (fun _ hlease => hlease)

theorem freeWorker (h : Owners tick db notes) {row : WorkerRow}
    (hschema : Schema { db with workers := db.workers.upsert row }) (hrunning : row.runningJobId = none)
    (hleases : ∀ lease ∈ db.leases.rows, lease.workerId ≠ row.id)
    (hfreeing : ∀ j ≠ tick, (notes j).phase = .freeing →
      ∀ worker, (notes j).worker = some worker → worker.id ≠ row.id)
    : Owners tick { db with workers := db.workers.upsert row } notes := by
  have hput := Table.puts_upsert db.workers row
  have hfree : ∀ id, (∀ row, db.workers.get? id = some row → row.runningJobId = none) →
      ∀ row', (db.workers.upsert row).get? id = some row' → row'.runningJobId = none := by
    intro id hold row' hrow'
    rw [Table.get?_upsert] at hrow'
    split at hrow'
    . injection hrow' with hrow'
      rw [← hrow']
      exact hrunning
    . exact hold row' hrow'
  refine ⟨hschema, h.fresh, ?_, h.held, ?_, ⟨h.ticking.queue, h.ticking.placing, h.ticking.apart, ?_,
    h.ticking.drawn, ?_⟩, ?_, h.exclusive⟩
  . refine hput.forall_mem (fun _ => hrunning) ?_
    intro other hother _
    exact h.idle other hother
  . intro lease hlease other hother
    dsimp only at hother
    rw [Table.get?_upsert_of_ne _ (Ne.symm (hleases lease hlease))] at hother
    exact h.running lease hlease other hother
  . intro id hid
    exact ⟨(h.ticking.idle id hid).left, hfree id (h.ticking.idle id hid).right⟩
  . intro id jobId hid
    exact hfree id (h.ticking.leased id jobId hid)
  . intro j hj hphase
    obtain ⟨worker, job, lease, hending⟩ := h.ending j hj hphase
    refine ⟨worker, job, lease, hending.congr rfl ?_ (fun _ hlease => hlease)⟩
    intro hphase
    exact Table.get?_upsert_of_ne _ (Ne.symm (hfreeing j hj hphase worker hending.hworker))

theorem used_savesLease (h : Owners tick db notes) {lease : Lease}
    (hmay : mayTick (notes tick) (.saveLease lease)) (id : NodeId)
    : used { db with leases := db.leases.upsert lease } id = used db id + (notes tick).owed id := by
  have ⟨job, debt, hplacing, hdebt, hassigned, hresources, _, hleaseJob, _⟩ := hmay
  have ⟨hstored, hnot⟩ := h.ticking.placing job hplacing
  have hleased : Leased { db with leases := db.leases.upsert lease } job.id :=
    ⟨lease, (Table.mem_upsert _ _ _).mpr (.inl rfl), hleaseJob⟩
  have hsum : used { db with leases := db.leases.upsert lease } id
        + db.jobs.weight (demand db id) job.id
      = used db id
        + db.jobs.weight (demand { db with leases := db.leases.upsert lease } id) job.id := by
    refine used_add_weight job.id (fun _ _ => rfl) ?_
    intro other hne
    constructor
    . intro ⟨a, ha, haid⟩
      rcases (Table.mem_upsert _ _ _).mp ha with heq | ⟨hold, _⟩
      . rw [heq, hleaseJob] at haid
        exact absurd haid.symm hne
      . exact ⟨a, hold, haid⟩
    . intro ⟨a, ha, haid⟩
      refine ⟨a, (Table.mem_upsert _ _ _).mpr (.inr ⟨ha, ?_⟩), haid⟩
      have ⟨_, _, _, _, _, _, _, _, _, _, _, hdrawn⟩ := hmay
      intro heq
      exact (h.ticking.drawn _ hdrawn).right a ha (by rw [heq])
  rw [Table.weight_of_get? hstored, Table.weight_of_get? hstored, demand_of_not_leased hnot,
    add_zero] at hsum
  rw [hsum, owed_of_some hdebt]
  congr 1
  by_cases hid : debt.nodeId = id
  . rw [if_pos hid, demand_of_leased (by rw [hassigned, hid]) hleased, hresources]
  . rw [if_neg hid, demand_of_not_assigned]
    rw [hassigned]
    intro heq
    injection heq with heq
    exact hid heq

structure Removes (db : DB) (n : Note) (id : JobId) (tenant : TenantId) (worker : Worker) (job : Job)
    (lease : Lease) : Prop where
  hworker : n.worker = some worker
  hjob : worker.runningJob = some job
  hlease : n.lease = some lease
  leaseWorker : lease.workerId = worker.id
  leaseJob : lease.jobId = job.id
  leaseTenant : lease.tenantId = job.tenantId
  jobId : lease.jobId = id
  tenant : lease.tenantId = tenant
  hrow : db.workers.get? worker.id = some worker.toRow
  hstored : db.jobs.get? job.id = some job
  hmem : lease ∈ db.leases.rows
  status : job.status ≠ .queued

theorem removes (h : Owners tick db notes) {id : JobId} {tenant : TenantId}
    (hmay : mayCall (notes i) (.deleteLease id tenant))
    (hcurrent : upToDate db notes i (.deleteLease id tenant))
    : ∃ worker job lease, Removes db (notes i) id tenant worker job lease := by
  obtain ⟨_, _, worker, job, lease, hworker, hjob, hlease, hworkerId, hjobId, htenant⟩ := hmay
  obtain ⟨hrow, hrunningJob⟩ := hcurrent.left worker hworker
  have hstored := hrunningJob job hjob
  have hmem := Table.mem_of_get? (hcurrent.right lease hlease)
  have hrunning : worker.toRow.runningJobId = some job.id := by
    simp [Worker.toRow, hjob]
  have hid : lease.jobId = job.id := by
    rcases h.running lease hmem _ (hworkerId ▸ hrow) with heq | ⟨hnone, _⟩
    . rw [hrunning] at heq
      injection heq with heq
      exact heq.symm
    . rw [hrunning] at hnone
      contradiction
  obtain ⟨other, hother, hotherTenant⟩ := h.schema.job_of_lease hmem
  rw [hid, hstored] at hother
  injection hother with hother
  subst hother
  exact ⟨worker, job, lease, hworker, hjob, hlease, hworkerId, hid, hotherTenant.symm, hjobId, htenant,
    hrow, hstored, hmem, h.held lease hmem job (hid ▸ hstored)⟩

namespace Removes

variable {n : Note} {id : JobId} {tenant : TenantId} {worker : Worker} {job : Job} {lease : Lease}

theorem mem_delete (h : Removes db n id tenant worker job lease) (hschema : Schema db) {other : Lease}
    : other ∈ (PostgresLeaseRepository.delete db id tenant).leases.rows
        ↔
      other ∈ db.leases.rows ∧ other ≠ lease := by
  rw [PostgresLeaseRepository.mem_delete, ← h.jobId, ← h.tenant]
  constructor
  . intro ⟨hmem, hne⟩
    refine ⟨hmem, ?_⟩
    intro heq
    subst heq
    exact hne ⟨rfl, rfl⟩
  . intro ⟨hmem, hne⟩
    refine ⟨hmem, ?_⟩
    intro ⟨hjob, _⟩
    exact hne (hschema.uniqueJob other hmem lease h.hmem hjob)

theorem not_leased (h : Removes db n id tenant worker job lease) (hschema : Schema db)
    : ¬Leased (PostgresLeaseRepository.delete db id tenant) job.id := by
  intro ⟨other, hother, hotherJob⟩
  have ⟨hmem, hne⟩ := (h.mem_delete hschema).mp hother
  exact hne (hschema.uniqueJob other hmem lease h.hmem (hotherJob.trans h.leaseJob.symm))

theorem used_add (h : Removes db n id tenant worker job lease) (hschema : Schema db) (nodeId : NodeId)
    : used (PostgresLeaseRepository.delete db id tenant) nodeId + demand db nodeId job
        =
      used db nodeId := by
  have hsum : used (PostgresLeaseRepository.delete db id tenant) nodeId
        + db.jobs.weight (demand db nodeId) job.id
      = used db nodeId
        + db.jobs.weight (demand (PostgresLeaseRepository.delete db id tenant) nodeId) job.id := by
    refine used_add_weight job.id (fun _ _ => rfl) ?_
    intro other hne
    constructor
    . intro ⟨a, ha, haid⟩
      exact ⟨a, ((h.mem_delete hschema).mp ha).left, haid⟩
    . intro ⟨a, ha, haid⟩
      refine ⟨a, (h.mem_delete hschema).mpr ⟨ha, ?_⟩, haid⟩
      intro heq
      rw [heq, h.leaseJob] at haid
      exact hne haid.symm
  rw [Table.weight_of_get? h.hstored, Table.weight_of_get? h.hstored,
    demand_of_not_leased (h.not_leased hschema), add_zero] at hsum
  exact hsum

end Removes

section notes

variable [DecidableEq ι] {n' : Note}

theorem update_caller (h : Owners tick db notes) (hi : i ≠ tick)
    (hending : n'.phase ≠ .reading → ∃ worker job lease, Ending db (notes tick) n' worker job lease)
    (hexclusive : n'.phase = .freeing → ∀ j ≠ tick, j ≠ i → (notes j).phase = .freeing →
      ∀ worker other, n'.worker = some worker → (notes j).worker = some other → worker.id ≠ other.id)
    : Owners tick db (Function.update notes i n') := by
  have htick : Function.update notes i n' tick = notes tick := Function.update_of_ne hi.symm _ _
  refine ⟨h.schema, h.fresh, h.idle, h.held, ?_, ?_, ?_, ?_⟩
  . rw [htick]
    exact h.running
  . rw [htick]
    exact h.ticking
  . rw [htick]
    exact (Function.forall_update_iff notes (p := fun j n => j ≠ tick → n.phase ≠ .reading →
      ∃ worker job lease, Ending db (notes tick) n worker job lease)).mpr
      ⟨fun _ => hending, fun j _ => h.ending j⟩
  . intro j hj hjphase k hk hkphase worker other hworker hother heq
    by_cases hji : j = i
    . subst hji
      by_cases hkj : k = j
      . exact hkj.symm
      . rw [Function.update_self] at hjphase hworker
        rw [Function.update_of_ne hkj] at hkphase hother
        exact absurd heq (hexclusive hjphase k hk hkj hkphase worker other hworker hother)
    . rw [Function.update_of_ne hji] at hjphase hworker
      by_cases hki : k = i
      . subst hki
        rw [Function.update_self] at hkphase hother
        exact absurd heq.symm (hexclusive hkphase j hj hji hjphase other worker hother hworker)
      . rw [Function.update_of_ne hki] at hkphase hother
        exact h.exclusive j hj hjphase k hk hkphase worker other hworker hother heq

theorem update_tick (h : Owners tick db notes) (hleased : n'.leased = (notes tick).leased)
    (hclaims : ∀ j ≠ tick, (notes j).phase ≠ .reading →
      ∀ job, (notes j).endedJob = some job → ¬n'.Claims job.id)
    (hticking : Ticking db n')
    : Owners tick db (Function.update notes tick n') := by
  have hother : ∀ j ≠ tick, Function.update notes tick n' j = notes j := by
    intro j hj
    exact Function.update_of_ne hj _ _
  refine ⟨h.schema, h.fresh, h.idle, h.held, ?_, ?_, ?_, ?_⟩
  . rw [Function.update_self, hleased]
    exact h.running
  . rw [Function.update_self]
    exact hticking
  . intro j hj
    rw [Function.update_self, hother j hj]
    intro hphase
    have ⟨worker, job, lease, hending⟩ := h.ending j hj hphase
    exact ⟨worker, job, lease, hending.claims (hclaims j hj hphase job hending.endedJob)⟩
  . intro j hj hjphase k hk hkphase
    rw [hother j hj] at hjphase ⊢
    rw [hother k hk] at hkphase ⊢
    exact h.exclusive j hj hjphase k hk hkphase

structure Alike (n n' : Note) : Prop where
  worker : n'.worker = n.worker
  lease : n'.lease = n.lease
  phase : n'.phase = n.phase
  queue : n'.queue = n.queue
  placing : n'.placing = n.placing
  idle : n'.idle = n.idle
  drawn : n'.drawn = n.drawn
  leased : n'.leased = n.leased

theorem update_alike (h : Owners tick db notes) (halike : Alike (notes i) n')
    : Owners tick db (Function.update notes i n') := by
  by_cases hi : i = tick
  . subst hi
    apply h.update_tick halike.leased
    . intro j hj hphase job hjob
      unfold Note.Claims
      rw [halike.queue, halike.placing]
      exact h.not_claims hj hphase hjob
    . refine ⟨?_, ?_, ?_, ?_, ?_, ?_⟩
      . rw [halike.queue]
        exact h.ticking.queue
      . rw [halike.placing]
        exact h.ticking.placing
      . rw [halike.queue, halike.placing]
        exact h.ticking.apart
      . rw [halike.idle]
        exact h.ticking.idle
      . rw [halike.drawn]
        exact h.ticking.drawn
      . rw [halike.leased]
        exact h.ticking.leased
  . apply h.update_caller hi
    . rw [halike.phase]
      intro hphase
      have ⟨worker, job, lease, hending⟩ := h.ending i hi hphase
      refine ⟨worker, job, lease, ?_, hending.hjob, ?_, hending.leaseJob, hending.leaseTenant,
        hending.stored, hending.notLeased, hending.notClaimed, ?_⟩
      . rw [halike.worker]
        exact hending.hworker
      . rw [halike.lease]
        exact hending.hlease
      . rw [halike.phase]
        exact hending.freeing
    . rw [halike.phase, halike.worker]
      intro hphase j hj hji hjphase worker other hworker hother heq
      exact hji (h.exclusive i hi hphase j hj hjphase worker other hworker hother heq).symm

theorem deletesLease (h : Owners tick db notes) (hi : i ≠ tick) {id : JobId} {tenant : TenantId}
    {worker : Worker} {job : Job} {lease : Lease}
    (hremoves : Removes db (notes i) id tenant worker job lease)
    : Owners tick (PostgresLeaseRepository.delete db id tenant)
        (Function.update notes i ((notes i).deletesLease tenant)) := by
  have hleases : ∀ other ∈ (PostgresLeaseRepository.delete db id tenant).leases.rows,
      other ∈ db.leases.rows ∧ other ≠ lease :=
    fun _ hother => (hremoves.mem_delete h.schema).mp hother
  have howners : Owners tick (PostgresLeaseRepository.delete db id tenant) notes :=
    h.fewerLeases (h.schema.filterLeases _) rfl rfl (fun other hother => (hleases other hother).left)
      (Nat.le_refl _)
  apply howners.update_caller hi
  . intro _
    refine ⟨worker, job, lease, hremoves.hworker, hremoves.hjob, hremoves.hlease, hremoves.leaseJob,
      hremoves.leaseTenant, ⟨job, hremoves.hstored, rfl, hremoves.status⟩,
      hremoves.not_leased h.schema, ?_, ?_⟩
    . intro hclaims
      have ⟨_, _, hnot⟩ := h.claimed hclaims
      exact hnot ⟨lease, hremoves.hmem, hremoves.leaseJob⟩
    . intro _
      refine ⟨hremoves.hrow, ?_⟩
      intro other hother hworker
      have ⟨hmem, hne⟩ := hleases other hother
      exact hne (h.schema.uniqueWorker other hmem lease hremoves.hmem
        (hworker.trans hremoves.leaseWorker.symm))
  . -- another report that has removed the lease of this worker would have left none to remove
    intro _ j hj _ hphase read other hread hother heq
    have hworker : read = worker := by
      have := hremoves.hworker.symm.trans hread
      injection this with this
      exact this.symm
    have ⟨freed, ended, freedLease, hending⟩ := h.ending j hj (by rw [hphase]; nofun)
    have hfreed : freed = other := by
      have := hending.hworker.symm.trans hother
      injection this
    apply (hending.freeing hphase).right lease hremoves.hmem
    rw [hremoves.leaseWorker, hfreed, ← hworker]
    exact heq

theorem update_reading (h : Owners tick db notes) (hi : i ≠ tick) (hphase : n'.phase = .reading)
    : Owners tick db (Function.update notes i n') := by
  apply h.update_caller hi
  . intro hne
    contradiction
  . rw [hphase]
    intro heq
    contradiction

end notes

end Owners

end NodeBooks

end AetherGrid
