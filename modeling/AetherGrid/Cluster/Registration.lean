import AetherGrid.Cluster.Concurrent
import AetherGrid.Store.Reads

/-!
This module contains registrations of one node that are served at the same time.
-/

namespace AetherGrid

open Prog Pool

namespace Registration

structure Note where
  founding : Bool := false
  drawn : Option Nat := none
  worker : Option WorkerId := none
  job : Option Job := none
  failed : Bool := false

def Note.after {α : Type} (n : Note) (r : Except Err α) : Note :=
  match r with
  | .ok _ => n
  | .error _ => { n with failed := true }

def registering : Watched signature DB Env Note where
  exec := Call.exec
  note c env db n :=
    match c with
    | .uuid4 => { n with drawn := some db.nextId }
    | .getWorkerByNode node tenant =>
      match PostgresWorkerRepository.getByNodeId env db node tenant with
      | none => { n with founding := true, drawn := none }
      | some worker => { n with worker := some worker.id, job := worker.runningJob }
    | .saveNode node => n.after (PostgresNodeRepository.save db node)
    | .saveJob job => n.after (PostgresJobRepository.save db job)
    | .saveWorker worker =>
      { n with founding := false, worker := some worker.id }.after
        (PostgresWorkerRepository.save db worker)
    | .getWorker id tenant =>
      match PostgresWorkerRepository.getById env db id tenant with
      | none => { n with failed := true }
      | some _ => n
    | _ => n

variable {ι : Type}

def oneFounder (_ : DB) (notes : ι → Note) (_ : ι) (c : Call) : Prop :=
  match c with
  | .getWorkerByNode _ _ => ∀ j, (notes j).founding = false
  | _ => True

instance [Fintype ι] (db : DB) (notes : ι → Note) (i : ι) (c : Call)
    : Decidable (oneFounder db notes i c) :=
  match c with
  | .getWorkerByNode _ _ => inferInstanceAs (Decidable (∀ j, (notes j).founding = false))
  | .utcNow | .utcNowFor | .uuid4 | .generateNodeName _
  | .saveNode _ | .getNode _ _ | .deleteNode _ _ | .listNodes | .listAvailableNodes
  | .saveJob _ | .getJob _ _ | .listJobs
  | .saveWorker _ | .getWorker _ _ | .getWorkerAcrossTenants _ | .listWorkers
  | .saveLease _ | .renewLease _ _ _ | .getLeaseByJob _ _ | .getLeaseByWorker _ _ | .listLeases
  | .deleteLease _ _ | .deleteLeaseIfExpired _ _ | .saveEvent _ _ _ => .isTrue trivial

def registrations (nodeId : NodeId) (callers : ι → TenantId × WorkerManagement) (db : DB)
    : Pool signature Err Worker DB Note ι where
  state := db
  threads := fun i => postWorkers nodeId (callers i).1 (callers i).2
  notes := fun _ => {}

section protocol

variable {nodeId : NodeId} {owner : Option TenantId} {db db' : DB} {notes : ι → Note} {n : Note}

structure Stored (nodeId : NodeId) (owner : Option TenantId) (db : DB) : Prop where
  schema : Schema db
  node : (db.nodes.get? nodeId).map (·.tenantId) = owner
  fresh : ∀ row ∈ db.workers.rows, row.id.value < db.nextId
  one : ∀ a ∈ db.workers.rows, ∀ b ∈ db.workers.rows,
    a.nodeId = nodeId → b.nodeId = nodeId → a = b

structure Knows (nodeId : NodeId) (db : DB) (n : Note) : Prop where
  founder : n.founding → ∀ row ∈ db.workers.rows, row.nodeId ≠ nodeId
  drawn : n.founding → ∀ id, n.drawn = some id → id < db.nextId ∧ db.workers.get? ⟨id⟩ = none
  worker : ∀ id, n.worker = some id → ∃ row, db.workers.get? id = some row ∧ row.nodeId = nodeId
  job : ∀ job, n.job = some job →
    ∃ stored, db.jobs.get? job.id = some stored ∧ stored.tenantId = job.tenantId
  failed : n.failed = false

structure Registered (nodeId : NodeId) (owner : Option TenantId) (db : DB) (notes : ι → Note) : Prop
    where
  stored : Stored nodeId owner db
  knows : ∀ i, Knows nodeId db (notes i)
  alone : ∀ i j, (notes i).founding → (notes j).founding → i = j

def registers (nodeId : NodeId) (owner : Option TenantId) (n : Note) (c : Call) : Prop :=
  match c with
  | .utcNow | .uuid4 | .getNode _ _ | .deleteLease _ _ => True
  | .getWorkerByNode node tenant => node = nodeId ∧ owner = some tenant
  | .getWorker id tenant => n.worker = some id ∧ owner = some tenant
  | .saveNode node => node.id = nodeId ∧ owner = some node.tenantId
  | .saveJob job =>
    job.assignedNodeId = none
      ∧ ∃ found, n.job = some found ∧ job.id = found.id ∧ job.tenantId = found.tenantId
  | .saveWorker worker =>
    worker.node.id = nodeId
      ∧ owner = some worker.tenantId
      ∧ worker.runningJob = none
      ∧ (n.worker = some worker.id ∨ n.founding ∧ n.drawn = some worker.id.value)
  | _ => False

theorem Stored.tenant_of_row (h : Stored nodeId owner db) {row : WorkerRow}
    (hrow : row ∈ db.workers.rows) (hnode : row.nodeId = nodeId) : owner = some row.tenantId := by
  have := h.schema.workerNode row hrow
  unfold PostgresWorkerRepository.nodeSameTenant at this
  rw [hnode, Option.any_eq_true] at this
  have ⟨node, hget, htenant⟩ := this
  rw [← h.node, hget, Option.map_some, of_decide_eq_true htenant]

theorem Stored.worker_found (h : Stored nodeId owner db) (env : Env) {id : WorkerId} {row : WorkerRow}
    {tenant : TenantId} (hrow : db.workers.get? id = some row) (hnode : row.nodeId = nodeId)
    (howner : owner = some tenant)
    : ∃ worker, PostgresWorkerRepository.getById env db id tenant = some worker := by
  have hmem := Table.mem_of_get? hrow
  have htenant := h.tenant_of_row hmem hnode
  rw [howner] at htenant
  injection htenant with htenant
  unfold PostgresWorkerRepository.getById
  rw [hrow, Option.filter_some, htenant, if_pos (decide_eq_true rfl), Option.bind_some]
  exact PostgresWorkerRepository.toEntity_isSome h.schema hmem

theorem Stored.saveNode_ok (h : Stored nodeId owner db) {node : Node} (hid : node.id = nodeId)
    (howner : owner = some node.tenantId)
    : PostgresNodeRepository.save db node = .ok { db with nodes := db.nodes.upsert node } := by
  unfold PostgresNodeRepository.save
  cases hget : db.nodes.get? node.id with
  | none => rfl
  | some stored =>
    have hnode := h.node
    rw [← hid, hget, howner, Option.map_some] at hnode
    injection hnode with hnode
    dsimp only
    rw [if_pos hnode]

theorem Stored.saveJob_ok {job stored : Job} (hstored : db.jobs.get? job.id = some stored)
    (htenant : stored.tenantId = job.tenantId) (hassigned : job.assignedNodeId = none)
    : PostgresJobRepository.save db job = .ok { db with jobs := db.jobs.upsert job } := by
  unfold PostgresJobRepository.save PostgresJobRepository.assignedNodeSameTenant
  rw [hstored, hassigned]
  simp [htenant]

theorem Stored.saveWorker_ok (h : Stored nodeId owner db) {worker : Worker}
    (hnode : worker.node.id = nodeId) (howner : owner = some worker.tenantId)
    (hrunning : worker.runningJob = none)
    (hrow : ∀ row, db.workers.get? worker.id = some row → row.nodeId = nodeId)
    : PostgresWorkerRepository.save db worker
        =
      .ok { db with workers := db.workers.upsert worker.toRow } := by
  have hsame : PostgresWorkerRepository.nodeSameTenant db worker.toRow := by
    have hstored := h.node
    rw [howner, Option.map_eq_some_iff] at hstored
    have ⟨node, hget, htenant⟩ := hstored
    unfold PostgresWorkerRepository.nodeSameTenant Worker.toRow
    rw [hnode, hget]
    simp [htenant]
  have hjob : PostgresWorkerRepository.runningJobSameTenant db worker.toRow := by
    unfold PostgresWorkerRepository.runningJobSameTenant Worker.toRow
    rw [hrunning]
    rfl
  have hleases : PostgresWorkerRepository.leasesSameTenant db worker.toRow := by
    unfold PostgresWorkerRepository.leasesSameTenant
    rw [List.all_eq_true]
    intro lease hlease
    rw [decide_eq_true_eq]
    intro hworker
    have ⟨row, hget, htenant⟩ := h.schema.worker_of_lease hlease
    rw [hworker] at hget
    have hrowTenant := h.tenant_of_row (Table.mem_of_get? hget) (hrow row hget)
    rw [howner] at hrowTenant
    injection hrowTenant with hrowTenant
    rw [← htenant, ← hrowTenant]
    rfl
  unfold PostgresWorkerRepository.save
  rw [hsame, hjob, hleases]
  rfl

theorem Knows.keep (h : Knows nodeId db n) (hnext : db.nextId ≤ db'.nextId)
    (hworkers : db'.workers = db.workers) (hjobs : KeepsTenants Job.tenantId db.jobs db'.jobs)
    : Knows nodeId db' n where
  founder hfounding row hrow := by
    rw [hworkers] at hrow
    exact h.founder hfounding row hrow
  drawn hfounding id hid := by
    have ⟨hlt, hnone⟩ := h.drawn hfounding id hid
    rw [hworkers]
    exact ⟨Nat.lt_of_lt_of_le hlt hnext, hnone⟩
  worker id hid := by
    rw [hworkers]
    exact h.worker id hid
  job job hjob := by
    have ⟨stored, hstored, htenant⟩ := h.job job hjob
    have ⟨stored', hstored', htenant'⟩ := hjobs _ _ hstored
    exact ⟨stored', hstored', htenant'.trans htenant⟩
  failed := h.failed

theorem Knows.drawId (h : Knows nodeId db n) (hstored : Stored nodeId owner db)
    : Knows nodeId { db with nextId := db.nextId + 1 } { n with drawn := some db.nextId } where
  founder := h.founder
  drawn _ id hid := by
    injection hid with hid
    subst hid
    refine ⟨Nat.lt_succ_self _, ?_⟩
    rw [Table.get?_eq_none_iff]
    intro row hrow heq
    have := hstored.fresh row hrow
    rw [heq] at this
    exact Nat.lt_irrefl _ this
  worker := h.worker
  job := h.job
  failed := h.failed

theorem Knows.look (h : Knows nodeId db n) (hstored : Stored nodeId owner db) {env : Env}
    {tenant : TenantId} (howner : owner = some tenant)
    : Knows nodeId db (registering.note (.getWorkerByNode nodeId tenant) env db n) := by
  dsimp only [registering]
  cases hfound : PostgresWorkerRepository.getByNodeId env db nodeId tenant with
  | none =>
    refine ⟨?_, nofun, h.worker, h.job, h.failed⟩
    intro _ row hrow hnode
    apply PostgresWorkerRepository.getByNodeId_eq_none hstored.schema hfound row hrow
    have := hstored.tenant_of_row hrow hnode
    rw [howner] at this
    injection this with this
    exact ⟨hnode, this.symm⟩
  | some worker =>
    have ⟨hcurrent, hnode, _⟩ := PostgresWorkerRepository.getByNodeId_eq_some hstored.schema hfound
    refine ⟨h.founder, h.drawn, ?_, ?_, h.failed⟩
    . intro id hid
      injection hid with hid
      rw [← hid]
      exact ⟨_, hcurrent.row, hnode⟩
    . intro job hjob
      exact ⟨job, hcurrent.job job hjob, rfl⟩

section saveWorker

variable {worker : Worker}

theorem Knows.row_of_registers (h : Knows nodeId db n)
    (hguard : n.worker = some worker.id ∨ n.founding ∧ n.drawn = some worker.id.value)
    (row : WorkerRow) (hrow : db.workers.get? worker.id = some row) : row.nodeId = nodeId := by
  rcases hguard with hworker | ⟨hfounding, hdrawn⟩
  . have ⟨row', hrow', hnode⟩ := h.worker _ hworker
    rw [hrow] at hrow'
    injection hrow' with hrow'
    rw [hrow']
    exact hnode
  . have hnone := (h.drawn hfounding _ hdrawn).right
    have hnone : db.workers.get? worker.id = none := hnone
    rw [hrow] at hnone
    contradiction

theorem Stored.saveWorker (h : Stored nodeId owner db) (hknows : Knows nodeId db n)
    (hguard : registers nodeId owner n (.saveWorker worker))
    (hsave : PostgresWorkerRepository.save db worker
      = .ok { db with workers := db.workers.upsert worker.toRow })
    : Stored nodeId owner { db with workers := db.workers.upsert worker.toRow } := by
  have ⟨hnode, howner, hrunning, hid⟩ := hguard
  have hothers : ∀ row ∈ db.workers.rows, row.nodeId = nodeId → row.id = worker.id := by
    intro row hrow hrowNode
    rcases hid with hworker | ⟨hfounding, _⟩
    . have ⟨row', hrow', hnode'⟩ := hknows.worker _ hworker
      rw [h.one row hrow row' (Table.mem_of_get? hrow') hrowNode hnode']
      exact Table.key_of_get? hrow'
    . exact absurd hrowNode (hknows.founder hfounding row hrow)
  refine ⟨h.schema.saveWorker hsave, h.node, ?_, ?_⟩
  . intro row hrow
    rcases (Table.mem_upsert _ _ _).mp hrow with rfl | ⟨hmem, _⟩
    . rcases hid with hworker | ⟨hfounding, hdrawn⟩
      . have ⟨row', hrow', _⟩ := hknows.worker _ hworker
        have hlt := h.fresh row' (Table.mem_of_get? hrow')
        have hkey : row'.id = worker.id := Table.key_of_get? hrow'
        rw [hkey] at hlt
        exact hlt
      . exact (hknows.drawn hfounding _ hdrawn).left
    . exact h.fresh row hmem
  . intro a ha b hb hanode hbnode
    rcases (Table.mem_upsert _ _ _).mp ha with rfl | ⟨ha, hane⟩
    . rcases (Table.mem_upsert _ _ _).mp hb with rfl | ⟨hb, hbne⟩
      . rfl
      . exact absurd (hothers b hb hbnode) hbne
    . exact absurd (hothers a ha hanode) hane

theorem Knows.saved (h : Knows nodeId db n) (hnode : worker.node.id = nodeId)
    : Knows nodeId { db with workers := db.workers.upsert worker.toRow }
        { n with founding := false, worker := some worker.id } where
  founder := nofun
  drawn := nofun
  worker id hid := by
    injection hid with hid
    exact ⟨worker.toRow, Table.get?_upsert_of_eq _ hid, hnode⟩
  job := h.job
  failed := h.failed

theorem Knows.saved_other (h : Knows nodeId db n) (hnode : worker.node.id = nodeId)
    (hfounding : n.founding = false)
    : Knows nodeId { db with workers := db.workers.upsert worker.toRow } n where
  founder hfounder := by
    rw [hfounding] at hfounder
    contradiction
  drawn hfounder := by
    rw [hfounding] at hfounder
    contradiction
  worker id hid := by
    have ⟨row, hrow, hrowNode⟩ := h.worker id hid
    by_cases heq : worker.toRow.id = id
    . exact ⟨worker.toRow, Table.get?_upsert_of_eq _ heq, hnode⟩
    . exact ⟨row, (Table.get?_upsert_of_ne _ heq).trans hrow, hrowNode⟩
  job := h.job
  failed := h.failed

end saveWorker

variable [DecidableEq ι]

theorem forall_update {p : Note → Prop} {i : ι} (hi : p n) (hothers : ∀ j, j ≠ i → p (notes j)) (j : ι)
    : p (Function.update notes i n j) := by
  by_cases hj : j = i
  . subst hj
    rw [Function.update_self]
    exact hi
  . rw [Function.update_of_ne hj]
    exact hothers j hj

theorem Registered.update (h : Registered nodeId owner db notes) {i : ι}
    (hstored : Stored nodeId owner db') (hn : Knows nodeId db' n)
    (hothers : ∀ j, j ≠ i → Knows nodeId db' (notes j))
    (hfounding : n.founding → (notes i).founding ∨ ∀ j, (notes j).founding = false)
    : Registered nodeId owner db' (Function.update notes i n) := by
  refine ⟨hstored, forall_update hn hothers, ?_⟩
  have halone : ∀ j, j ≠ i → n.founding → (notes j).founding → False := by
    intro j hj hnew hold
    rcases hfounding hnew with hi | hnone
    . exact hj (h.alone j i hold hi)
    . rw [hnone j] at hold
      contradiction
  intro j k hj hk
  by_cases hji : j = i
  . subst hji
    by_cases hkj : k = j
    . exact hkj.symm
    . rw [Function.update_self] at hj
      rw [Function.update_of_ne hkj] at hk
      exact (halone k hkj hj hk).elim
  . rw [Function.update_of_ne hji] at hj
    by_cases hki : k = i
    . subst hki
      rw [Function.update_self] at hk
      exact (halone j hji hk hj).elim
    . rw [Function.update_of_ne hki] at hk
      exact h.alone j k hj hk

theorem Registered.keep (h : Registered nodeId owner db notes) (i : ι)
    (hstored : Stored nodeId owner db') (hnext : db.nextId ≤ db'.nextId)
    (hworkers : db'.workers = db.workers) (hjobs : KeepsTenants Job.tenantId db.jobs db'.jobs)
    : Registered nodeId owner db' (Function.update notes i (notes i)) :=
  h.update hstored ((h.knows i).keep hnext hworkers hjobs)
    (fun j _ => (h.knows j).keep hnext hworkers hjobs) .inl

theorem Registered.step (h : Registered nodeId owner db notes) {i : ι} {c : Call} {env : Env}
    (hguard : registers nodeId owner (notes i) c) (hcall : oneFounder db notes i c)
    : Registered nodeId owner (c.exec env db).2
        (Function.update notes i (registering.note c env db (notes i))) := by
  cases c with
  | utcNow => exact h.keep i h.stored (Nat.le_refl _) rfl (.refl _)
  | getNode id tenant => exact h.keep i h.stored (Nat.le_refl _) rfl (.refl _)
  | deleteLease job tenant =>
    refine h.keep i ?_ (Nat.le_refl _) rfl (.refl _)
    exact ⟨h.stored.schema.exec (.deleteLease job tenant) env, h.stored.node, h.stored.fresh,
      h.stored.one⟩
  | uuid4 =>
    have hstored : Stored nodeId owner { db with nextId := db.nextId + 1 } := by
      refine ⟨h.stored.schema.exec .uuid4 env, h.stored.node, ?_, h.stored.one⟩
      intro row hrow
      exact Nat.lt_succ_of_lt (h.stored.fresh row hrow)
    refine h.update hstored ((h.knows i).drawId h.stored) ?_ .inl
    intro j _
    exact (h.knows j).keep (Nat.le_succ _) rfl (.refl _)
  | getWorkerByNode node tenant =>
    obtain ⟨rfl, howner⟩ := hguard
    exact h.update h.stored ((h.knows i).look h.stored howner) (fun j _ => h.knows j) (fun _ => .inr hcall)
  | getWorker id tenant =>
    have ⟨hworker, howner⟩ := hguard
    have ⟨row, hrow, hnode⟩ := (h.knows i).worker id hworker
    have ⟨worker, hfound⟩ := h.stored.worker_found env hrow hnode howner
    dsimp only [registering]
    rw [hfound]
    exact h.keep i h.stored (Nat.le_refl _) rfl (.refl _)
  | saveNode node =>
    have ⟨hid, howner⟩ := hguard
    have hsave := h.stored.saveNode_ok hid howner
    dsimp only [registering, Call.exec]
    rw [hsave]
    refine h.keep i ⟨h.stored.schema.saveNode hsave, ?_, h.stored.fresh, h.stored.one⟩ (Nat.le_refl _)
      rfl (.refl _)
    dsimp only [commit]
    rw [Table.get?_upsert_of_eq _ hid, howner, Option.map_some]
  | saveJob job =>
    have ⟨hassigned, found, hfound, hid, htenant⟩ := hguard
    have ⟨stored, hstored, hstoredTenant⟩ := (h.knows i).job found hfound
    rw [← hid] at hstored
    rw [← htenant] at hstoredTenant
    have hsave := Stored.saveJob_ok hstored hstoredTenant hassigned
    dsimp only [registering, Call.exec]
    rw [hsave]
    refine h.keep i ⟨h.stored.schema.saveJob hsave, h.stored.node, h.stored.fresh, h.stored.one⟩
      (Nat.le_refl _) rfl (.upsert ?_)
    intro stored' hstored'
    rw [hstored] at hstored'
    injection hstored' with hstored'
    rw [← hstored', hstoredTenant]
  | saveWorker worker =>
    have ⟨hnode, howner, hrunning, hid⟩ := hguard
    have hsave := h.stored.saveWorker_ok hnode howner hrunning ((h.knows i).row_of_registers hid)
    dsimp only [registering, Call.exec]
    rw [hsave]
    refine h.update (h.stored.saveWorker (h.knows i) hguard hsave) ((h.knows i).saved hnode) ?_ nofun
    intro j hj
    apply (h.knows j).saved_other hnode
    -- another founder would have kept this one from founding, and from finding a worker
    rw [Bool.eq_false_iff]
    intro hfounding
    rcases hid with hworker | ⟨hfounder, _⟩
    . have ⟨row, hrow, hrowNode⟩ := (h.knows i).worker _ hworker
      exact (h.knows j).founder hfounding row (Table.mem_of_get? hrow) hrowNode
    . exact hj (h.alone j i hfounding hfounder)
  | _ => exact hguard.elim

def protocol (nodeId : NodeId) (owner : Option TenantId) : Protocol registering (oneFounder (ι := ι)) where
  inv := Registered nodeId owner
  met x := Schema x.1 ∧ (x.1.nodes.get? nodeId).map (·.tenantId) = owner
  guard _ := registers nodeId owner
  hmet _ _ _ h := ⟨h.stored.schema, h.stored.node⟩
  hstep _ _ _ _ _ h hguard hcall := h.step hguard hcall

end protocol

section programs

variable {nodeId : NodeId} {owner : Option TenantId} {n : Note}

abbrev met (nodeId : NodeId) (owner : Option TenantId) (x : DB × Env) : Prop :=
  Schema x.1 ∧ (x.1.nodes.get? nodeId).map (·.tenantId) = owner

def Answers (nodeId : NodeId) (owner : Option TenantId) (tenant : TenantId) (r : Except Err Worker)
    (n : Note) : Prop :=
  n.failed
    ∨ match r with
      | .ok worker => n.worker = some worker.id
      | .error e => e = .nodeNotFound nodeId ∧ owner ≠ some tenant

theorem wp_save {α : Type} {c : Call} {k : c.Res → Service Unit} {f : Unit → Service α}
    {Q : Except Err α → Note → Prop} (hguard : registers nodeId owner n c)
    (h : ∀ x, met nodeId owner x → wp registering.view (met nodeId owner) (registers nodeId owner)
      (k (c.exec x.2 x.1).1 >>= f) Q (registering.note c x.2 x.1 n))
    : wp registering.view (met nodeId owner) (registers nodeId owner)
        ((.call (S := signature) c k : Service Unit) >>= f) Q n :=
  ⟨hguard, h⟩

theorem wp_saveWorker {α : Type} {worker : Worker} {f : Unit → Service α}
    {Q : Except Err α → Note → Prop} (hguard : registers nodeId owner n (.saveWorker worker))
    (herror : ∀ e n', n'.failed → Q (.error e) n')
    (h : wp registering.view (met nodeId owner) (registers nodeId owner) (f ()) Q
      { n with founding := false, worker := some worker.id })
    : wp registering.view (met nodeId owner) (registers nodeId owner)
        (WorkerRepository.save worker >>= f) Q n := by
  apply wp_save hguard
  intro x _
  dsimp only [registering, Call.exec]
  cases PostgresWorkerRepository.save x.1 worker with
  | error e => exact herror _ _ rfl
  | ok db => exact h

theorem wp_registerWorker {worker : Worker} {tenant : TenantId} (hnode : worker.node.id = nodeId)
    (howner : owner = some worker.tenantId) (hrunning : worker.runningJob = none)
    (hworker : n.worker = some worker.id)
    : wp registering.view (met nodeId owner) (registers nodeId owner) (registerWorker worker)
        (Answers nodeId owner tenant) n := by
  unfold registerWorker
  have hguard : registers nodeId owner n (.saveWorker worker.ready) :=
    ⟨hnode, howner, hrunning, .inl hworker⟩
  apply wp_saveWorker hguard (fun _ _ hfailed => .inl hfailed)
  apply Watched.wp_view_perform_bind ⟨rfl, howner⟩
  intro db env hmet answer n' hanswer hn'
  have hread : PostgresWorkerRepository.getById env db worker.id worker.tenantId = answer := hanswer
  dsimp only [registering] at hn'
  have hready : worker.ready.id = worker.id ∧ worker.ready.tenantId = worker.tenantId := ⟨rfl, rfl⟩
  rw [hready.left, hready.right, hread] at hn'
  rw [← hn']
  cases answer with
  | none => exact .inl rfl
  | some stored =>
    have ⟨_, hid, _⟩ := PostgresWorkerRepository.getById_eq_some hmet.left hread
    right
    dsimp only
    rw [hid]

theorem wp_saveCreated {worker : Worker} {tenant : TenantId} {Q : Except Err Worker → Note → Prop}
    (hguard : registers nodeId owner n (.saveWorker worker))
    (herror : ∀ e n', n'.failed → Q (.error e) n')
    (hok : ∀ n', wp registering.view (met nodeId owner) (registers nodeId owner) (registerWorker worker)
      (Answers nodeId owner tenant) n' → Q (.ok worker) n')
    : wp registering.view (met nodeId owner) (registers nodeId owner)
        (do
          WorkerRepository.save worker
          return worker) Q n := by
  apply wp_saveWorker hguard herror
  apply hok
  exact wp_registerWorker hguard.left hguard.right.left hguard.right.right.left rfl

theorem wp_reclaimJob {job : Job} {node : Node} {Q : Except Err Bool → Note → Prop}
    (hid : node.id = nodeId) (howner : owner = some node.tenantId) (hjob : n.job = some job)
    (herror : ∀ e n', n'.failed → Q (.error e) n') (hok : ∀ reclaimed, Q (.ok reclaimed) n)
    : wp registering.view (met nodeId owner) (registers nodeId owner) (reclaimJob job (some node)) Q n := by
  unfold reclaimJob
  apply Watched.wp_view_read (W := registering) trivial (fun _ _ => rfl)
  intro _ _ _ _ _
  have hguard : registers nodeId owner n (.saveNode (node.release job.resources)) := ⟨hid, howner⟩
  apply wp_save hguard
  intro x _
  dsimp only [registering, Call.exec]
  cases PostgresNodeRepository.save x.1 (node.release job.resources) with
  | error e => exact herror _ _ rfl
  | ok db =>
    apply Watched.wp_view_read (W := registering) trivial (fun _ _ => rfl)
    intro _ _ _ now _
    split
    . next job' hrun =>
      have ⟨next, _, hmoves⟩ := Job.reclaim_moves hrun
      have hguard : registers nodeId owner n (.saveJob job') :=
        ⟨hmoves.assignedNodeId, job, hjob, hmoves.id, hmoves.tenantId⟩
      apply wp_save hguard
      intro x _
      dsimp only [registering, Call.exec]
      cases PostgresJobRepository.save x.1 job' with
      | error e => exact herror _ _ rfl
      | ok db => exact hok true
    . exact hok false
    . next e _ hne hrun =>
      have ⟨_, message, heq⟩ := Job.reclaim_error hrun
      exact absurd heq (hne message)

theorem wp_postWorkers (tenant : TenantId) (managedBy : WorkerManagement)
    : wp registering.view (met nodeId owner) (registers nodeId owner)
        (postWorkers nodeId tenant managedBy) (Answers nodeId owner tenant) {} := by
  unfold postWorkers
  apply Watched.wp_view_read (W := registering) trivial (fun _ _ => rfl)
  intro db env hmet answer hanswer
  have hread : PostgresNodeRepository.getById db nodeId tenant = answer := hanswer
  cases answer with
  | none =>
    refine .inr ⟨rfl, ?_⟩
    intro howner
    have hnode := hmet.right
    rw [howner, Option.map_eq_some_iff] at hnode
    have ⟨node, hget, htenant⟩ := hnode
    unfold PostgresNodeRepository.getById at hread
    rw [hget, Option.filter_some, if_pos (decide_eq_true htenant)] at hread
    contradiction
  | some node =>
    have ⟨hget, htenant⟩ := PostgresNodeRepository.getById_eq_some hread
    have hid : node.id = nodeId := Table.key_of_get? hget
    have howner : owner = some node.tenantId := by
      rw [← hmet.right]
      dsimp only
      rw [hget, Option.map_some]
    dsimp only
    rw [wp_bind]
    unfold createWorker
    apply Watched.wp_view_perform_bind ⟨hid, howner⟩
    intro db env hmet answer n hanswer hn
    have hread : PostgresWorkerRepository.getByNodeId env db node.id node.tenantId = answer := hanswer
    dsimp only [registering] at hn
    rw [hread] at hn
    subst hn
    cases answer with
    | none =>
      apply Watched.wp_view_perform_bind trivial
      intro db env _ id n hdrawn hn
      apply Watched.wp_view_read (W := registering) trivial (fun _ _ => rfl)
      intro _ _ _ now _
      have hfounding : n.founding ∧ n.drawn = some id := by
        rw [← hn, ← hdrawn]
        exact ⟨rfl, rfl⟩
      have hguard : registers nodeId owner n
          (.saveWorker { id := ⟨id⟩, node, managedBy, status := .idle, lastSeenAt := now }) :=
        ⟨hid, howner, rfl, .inr hfounding⟩
      exact wp_saveCreated hguard (fun _ _ hfailed => .inl hfailed) (fun _ h => h)
    | some existing =>
      have ⟨_, hnode, htenant⟩ := PostgresWorkerRepository.getByNodeId_eq_some hmet.left hread
      have hexisting : owner = some existing.tenantId := by
        rw [htenant]
        exact howner
      have hguard : registers nodeId owner { worker := some existing.id, job := existing.runningJob }
          (.saveWorker { existing.recover with managedBy := managedBy }) :=
        ⟨hnode.trans hid, hexisting, rfl, .inl rfl⟩
      dsimp only
      cases hrunning : existing.runningJob with
      | none =>
        rw [hrunning] at hguard
        exact wp_saveCreated hguard (fun _ _ hfailed => .inl hfailed) (fun _ h => h)
      | some job =>
        rw [hrunning] at hguard
        dsimp only
        rw [wp_bind]
        apply wp_reclaimJob hid howner rfl (fun _ _ hfailed => .inl hfailed)
        intro _
        exact wp_saveCreated hguard (fun _ _ hfailed => .inl hfailed) (fun _ h => h)

end programs

section

variable [DecidableEq ι] {nodeId : NodeId} {callers : ι → TenantId × WorkerManagement} {db : DB}

theorem holds_registrations (hinv : Inv db)
    : (protocol nodeId ((db.nodes.get? nodeId).map (·.tenantId))).Holds
        (fun i => Answers nodeId ((db.nodes.get? nodeId).map (·.tenantId)) (callers i).1)
        (registrations nodeId callers db) := by
  have hblank : ∀ db, Knows nodeId db {} := by
    intro db
    refine ⟨?_, ?_, ?_, ?_, rfl⟩
    all_goals
      intros
      contradiction
  refine ⟨⟨⟨hinv.schema, rfl, hinv.freshWorker, ?_⟩, fun _ => hblank db, ?_⟩, ?_⟩
  . intro a ha b hb hanode hbnode
    exact hinv.oneWorker a ha b hb (hanode.trans hbnode.symm)
  . intro i j hfounding
    contradiction
  . intro i
    exact wp_postWorkers (callers i).1 (callers i).2

theorem one_worker {pool : Pool signature Err Worker DB Note ι} (hinv : Inv db)
    (hreaches : Reaches registering oneFounder (registrations nodeId callers db) pool)
    : (∀ a ∈ pool.state.workers.rows, ∀ b ∈ pool.state.workers.rows,
          a.nodeId = nodeId → b.nodeId = nodeId → a = b)
        ∧ (∀ i j a b, pool.threads i = .ret a → pool.threads j = .ret b → a.id = b.id)
        ∧ ∀ i e, pool.threads i = .raise e →
          e = .nodeNotFound nodeId ∧ PostgresNodeRepository.getById db nodeId (callers i).1 = none := by
  have hholds := Protocol.Holds.reaches (holds_registrations hinv) hreaches
  have hworker : ∀ i worker, pool.threads i = .ret worker →
      ∃ row, pool.state.workers.get? worker.id = some row ∧ row.nodeId = nodeId := by
    intro i worker hthread
    rcases hholds.result hthread with hfailed | hnote
    . rw [(hholds.inv.knows i).failed] at hfailed
      contradiction
    . exact (hholds.inv.knows i).worker _ hnote
  refine ⟨hholds.inv.stored.one, ?_, ?_⟩
  . intro i j a b ha hb
    have ⟨row, hrow, hnode⟩ := hworker i a ha
    have ⟨row', hrow', hnode'⟩ := hworker j b hb
    have heq := hholds.inv.stored.one row (Table.mem_of_get? hrow) row' (Table.mem_of_get? hrow') hnode
      hnode'
    rw [← Table.key_of_get? hrow, ← Table.key_of_get? hrow', heq]
  . intro i e hthread
    rcases hholds.error hthread with hfailed | ⟨he, howner⟩
    . rw [(hholds.inv.knows i).failed] at hfailed
      contradiction
    . refine ⟨he, ?_⟩
      unfold PostgresNodeRepository.getById
      cases hget : db.nodes.get? nodeId with
      | none => rfl
      | some node =>
        rw [hget, Option.map_some, ne_eq, Option.some.injEq] at howner
        rw [Option.filter_some, if_neg (by simpa using howner)]

end

def twice (_ : Fin 2) : TenantId × WorkerManagement :=
  (⟨0⟩, .agent)

def oneNode : List (Env × ServiceCall) :=
  oneRunningJob.take 1

theorem reachable_oneNode : Reachable anyCall ⟨replay oneNode DB.empty, []⟩ := by
  apply reachable_replay
  . exact .init pristine_empty
  . intro db call _
    trivial

def sideBySide {ι : Type} (first second : ι) : List (ι × Env) :=
  (List.replicate 7 [(first, { now := 0 }), (second, { now := 0 })]).flatten

def answered (p : Service Worker) : Option WorkerId :=
  match p with
  | .ret worker => some worker.id
  | _ => none

theorem two_workers
    : Reachable anyCall ⟨replay oneNode DB.empty, []⟩
        ∧ ∃ pool, Reaches registering anyTime (registrations ⟨0⟩ twice (replay oneNode DB.empty)) pool
          ∧ pool.state.workers.rows.map (fun row => (row.id, row.nodeId)) = [(⟨1⟩, ⟨0⟩), (⟨2⟩, ⟨0⟩)]
          ∧ answered (pool.threads 0) = some ⟨1⟩
          ∧ answered (pool.threads 1) = some ⟨2⟩ := by
  refine ⟨reachable_oneNode, ?_⟩
  exact exists_reaches_of_play (W := registering) (C := anyTime)
    (registrations ⟨0⟩ twice (replay oneNode DB.empty)) (sideBySide 0 1)
    (fun pool => pool.state.workers.rows.map (fun row => (row.id, row.nodeId)) = [(⟨1⟩, ⟨0⟩), (⟨2⟩, ⟨0⟩)]
      ∧ answered (pool.threads 0) = some ⟨1⟩
      ∧ answered (pool.threads 1) = some ⟨2⟩)
    (by decide +kernel)

def oneByOne {ι : Type} (first second : ι) : List (ι × Env) :=
  List.replicate 7 (first, { now := 0 }) ++ List.replicate 5 (second, { now := 0 })

theorem one_worker_oneByOne
    : ∃ pool, Reaches registering oneFounder (registrations ⟨0⟩ twice (replay oneNode DB.empty)) pool
        ∧ (answered (pool.threads 0)).isSome
        ∧ (answered (pool.threads 1)).isSome
        ∧ (∀ a ∈ pool.state.workers.rows, ∀ b ∈ pool.state.workers.rows,
            a.nodeId = ⟨0⟩ → b.nodeId = ⟨0⟩ → a = b)
        ∧ ∀ i j a b, pool.threads i = .ret a → pool.threads j = .ret b → a.id = b.id := by
  have ⟨pool, hreaches, hfirst, hsecond⟩ := exists_reaches_of_play (W := registering) (C := oneFounder)
    (registrations ⟨0⟩ twice (replay oneNode DB.empty)) (oneByOne 0 1)
    (fun pool => (answered (pool.threads 0)).isSome ∧ (answered (pool.threads 1)).isSome)
    (by decide +kernel)
  have ⟨hone, hsame, _⟩ := one_worker reachable_oneNode.ordered.inv hreaches
  exact ⟨pool, hreaches, hfirst, hsecond, hone, hsame⟩

end Registration

end AetherGrid
