import AetherGrid.Service.Lemmas.Reconciliation

/-!
This module contains what a reconciliation cycle does to every worker, for every state the database can
be in, when the clock stands still during the cycle.
-/

namespace AetherGrid

open Prog

def heldAt (t : Time) (env : Env) : Prop :=
  env.now = t ∧ ∀ id, env.nowFor id = t

namespace WorkerRow

def isStale (t : Time) (row : WorkerRow) : Prop :=
  heartbeatTimeout < t - row.lastSeenAt

instance (t : Time) (row : WorkerRow) : Decidable (row.isStale t) :=
  inferInstanceAs (Decidable (_ < _))

def marked (t : Time) (row : WorkerRow) : WorkerRow :=
  if row.isStale t then { row with status := .offline } else row

end WorkerRow

def leaseExpired (db : DB) (t : Time) (row : WorkerRow) : Bool :=
  db.leases.rows.any (fun lease => lease.workerId = row.id ∧ lease.expiresAt < t)

def nodeOffline (db : DB) (t : Time) (nodeId : NodeId) : Bool :=
  (db.nodes.get? nodeId).any (fun node => !node.isAlive t)

def jobUnleased (db : DB) (t : Time) (row : WorkerRow) : Bool :=
  row.runningJobId.any
    (fun jobId => db.leases.rows.all (fun lease => lease.jobId = jobId → lease.expiresAt < t))

def revived (db : DB) (t : Time) (row : WorkerRow) : Bool :=
  leaseExpired db t row || (nodeOffline db t row.nodeId && jobUnleased db t row)

def afterExpiry (db : DB) (t : Time) (row : WorkerRow) : WorkerRow :=
  if leaseExpired db t row then row.freed else row

def afterOffline (db : DB) (t : Time) (row : WorkerRow) : WorkerRow :=
  if nodeOffline db t row.nodeId && jobUnleased db t row then row.freed else row

variable {db db' : DB} {t : Time}

structure Marked (t : Time) (db db' : DB) : Prop where
  schema : Schema db'
  nodes : db'.nodes = db.nodes
  leases : db'.leases = db.leases
  workers : ∀ id, db'.workers.get? id = (db.workers.get? id).map (·.marked t)

theorem mem_map_id_list (hschema : Schema db) {env : Env} {row : WorkerRow}
    (hrow : row ∈ db.workers.rows)
    : row.id ∈ (PostgresWorkerRepository.listAcrossTenants env db).map (·.id) := by
  have hsorted := (env.workerOrder.hperm _).mem_iff.mpr hrow
  rw [← PostgresWorkerRepository.map_toRow_list hschema, List.mem_map] at hsorted
  have ⟨worker, hworker, htoRow⟩ := hsorted
  rw [← htoRow]
  exact List.mem_map_of_mem hworker

theorem MarkDeadWorkers.wp_execute_marked (hschema : Schema db)
    : wp postgres (heldAt t) noGuard execute (fun r db' => r = .ok ⟨⟩ ∧ Marked t db db') db := by
  unfold execute
  refine wp_perform_bind rfl ?_
  intro env henv
  dsimp only [Call.exec]
  apply wp_forM (fun workers db' => Schema db' ∧ db'.nodes = db.nodes ∧ db'.leases = db.leases
    ∧ (workers.map (·.id)).Nodup
    ∧ (∀ worker ∈ workers, db.workers.get? worker.id = some worker.toRow)
    ∧ db.workers.Mapped (workers.map (·.id)) (·.marked t) db'.workers)
  . refine ⟨hschema, rfl, rfl, PostgresWorkerRepository.nodup_list hschema, ?_, ?_⟩
    . intro worker hworker
      exact (PostgresWorkerRepository.current_of_mem_list hschema hworker).row
    . apply Table.mapped_self
      intro row hrow
      exact .inl (mem_map_id_list hschema hrow)
  . rintro worker workers db' ⟨hschema', hnodes, hleases, hnodup, hrows, hmapped⟩
    rw [List.map_cons, List.nodup_cons] at hnodup
    have hrow := hrows worker List.mem_cons_self
    have hrow' : db'.workers.get? worker.id = some worker.toRow := by
      rw [hmapped.get?_of_mem List.mem_cons_self]
      exact hrow
    have hrest : ∀ other ∈ workers, db.workers.get? other.id = some other.toRow := by
      intro other hother
      exact hrows other (List.mem_cons_of_mem _ hother)
    unfold mark
    refine wp_perform_bind rfl ?_
    intro env henv
    dsimp only [Call.exec]
    rw [henv.left]
    split
    . next halive =>
      have hsame : worker.toRow.marked t = worker.toRow := by
        unfold WorkerRow.marked
        rw [if_neg]
        exact Int.not_lt.mpr (of_decide_eq_true halive)
      refine ⟨hschema', hnodes, hleases, hnodup.right, hrest, ?_⟩
      apply hmapped.tail hrow hnodup.left
      . rw [hsame]
        exact Table.puts_of_get? hrow'
      . rw [hsame]
        rfl
    . next hdead =>
      have hoffline : worker.toRow.marked t = worker.offline.toRow := by
        unfold WorkerRow.marked
        rw [if_pos]
        . rfl
        . apply Int.not_le.mp
          intro hle
          exact hdead (decide_eq_true hle)
      apply wp_saveCurrent hschema' worker.offline hrow' rfl rfl (.inl rfl)
      intro hschema''
      refine ⟨hschema'', hnodes, hleases, hnodup.right, hrest, ?_⟩
      apply hmapped.tail hrow hnodup.left
      . rw [hoffline]
        apply Table.puts_upsert
      . rw [hoffline]
        rfl
  . rintro db' ⟨hschema', hnodes, hleases, _, _, hmapped⟩
    exact ⟨rfl, hschema', hnodes, hleases, hmapped.get?_of_nil⟩

def SameSeen (db db' : DB) : Prop :=
  ∀ id, (db'.nodes.get? id).map (·.lastSeenAt) = (db.nodes.get? id).map (·.lastSeenAt)

theorem SameSeen.nodeOffline (h : SameSeen db db') (t : Time) (id : NodeId)
    : nodeOffline db' t id = nodeOffline db t id := by
  have hany : ∀ db : DB, AetherGrid.nodeOffline db t id
      = ((db.nodes.get? id).map (·.lastSeenAt)).any (fun seen => !decide (t - seen ≤ heartbeatTimeout)) := by
    intro db
    unfold AetherGrid.nodeOffline
    rw [Option.any_map]
    rfl
  rw [hany, hany, h]

theorem SameSeen.releasedNodes {db1 : DB} {node : Option Node} {job : Job} (h : SameSeen db db1)
    (hnode : ∀ n, node = some n → db1.nodes.get? n.id = some n)
    (hnodes : db'.nodes = releasedNodes db1.nodes node job) : SameSeen db db' := by
  intro id
  rw [← h id, hnodes]
  unfold AetherGrid.releasedNodes
  split
  . rfl
  . next n =>
    rw [Table.get?_upsert]
    split
    . next heq =>
      have hid : n.id = id := heq
      rw [← hid, hnode n rfl]
      rfl
    . rfl

structure Expired (t : Time) (db db' : DB) : Prop where
  schema : Schema db'
  seen : SameSeen db db'
  leases : ∀ lease, lease ∈ db'.leases.rows ↔ lease ∈ db.leases.rows ∧ t ≤ lease.expiresAt
  workers : ∀ id, db'.workers.get? id = (db.workers.get? id).map (afterExpiry db t)

theorem leaseExpired_iff (hschema : Schema db) {lease : Lease} {row : WorkerRow}
    (hlease : lease ∈ db.leases.rows) (hworker : lease.workerId = row.id)
    : leaseExpired db t row = true ↔ lease.expiresAt < t := by
  unfold leaseExpired
  rw [List.any_eq_true]
  constructor
  . intro ⟨other, hother, h⟩
    have ⟨hotherWorker, hlt⟩ := of_decide_eq_true h
    rw [← hschema.uniqueWorker other hother lease hlease (hotherWorker.trans hworker.symm)]
    exact hlt
  . intro hlt
    exact ⟨lease, hlease, decide_eq_true ⟨hworker, hlt⟩⟩

structure Expiring (t : Time) (db : DB) (leases : List Lease) (db' : DB) : Prop where
  schema : Schema db'
  seen : SameSeen db db'
  nodup : leases.Nodup
  subset : ∀ lease ∈ leases, lease ∈ db.leases.rows
  stored : ∀ lease, lease ∈ db'.leases.rows
    ↔ lease ∈ db.leases.rows ∧ (t ≤ lease.expiresAt ∨ lease ∈ leases)
  mapped : db.workers.Mapped (leases.map (·.workerId)) (afterExpiry db t) db'.workers

namespace Expiring

variable {lease : Lease} {leases : List Lease} {row : WorkerRow}

theorem start (hschema : Schema db) (hperm : leases.Perm db.leases.rows)
    : Expiring t db leases db where
  schema := hschema
  seen _ := rfl
  nodup := hperm.nodup_iff.mpr (List.Nodup.of_map _ db.leases.hnodup)
  subset lease hlease := hperm.mem_iff.mp hlease
  stored lease := by
    constructor
    . intro hlease
      exact ⟨hlease, .inr (hperm.mem_iff.mpr hlease)⟩
    . exact And.left
  mapped := by
    apply Table.mapped_self
    intro row hrow
    by_cases hexpired : leaseExpired db t row
    . obtain ⟨lease, hlease, h⟩ := List.any_eq_true.mp hexpired
      obtain ⟨hworker, _⟩ := of_decide_eq_true h
      rw [← hworker]
      exact .inl (List.mem_map_of_mem (hperm.mem_iff.mpr hlease))
    . exact .inr (if_neg hexpired)

theorem mem_rows (h : Expiring t db (lease :: leases) db') : lease ∈ db'.leases.rows :=
  (h.stored lease).mpr ⟨h.subset lease List.mem_cons_self, .inr List.mem_cons_self⟩

theorem subset_tail (h : Expiring t db (lease :: leases) db')
    : ∀ other ∈ leases, other ∈ db.leases.rows := by
  intro other hother
  exact h.subset other (List.mem_cons_of_mem _ hother)

theorem worker_not_mem (hschema : Schema db) (h : Expiring t db (lease :: leases) db')
    : lease.workerId ∉ leases.map (·.workerId) := by
  intro hmem
  obtain ⟨other, hother, heq⟩ := List.mem_map.mp hmem
  have := hschema.uniqueWorker other (h.subset_tail other hother) lease
    (h.subset lease List.mem_cons_self) heq
  exact (List.nodup_cons.mp h.nodup).left (this ▸ hother)

theorem get?_worker (h : Expiring t db (lease :: leases) db')
    : db'.workers.get? lease.workerId = db.workers.get? lease.workerId :=
  h.mapped.get?_of_mem List.mem_cons_self

theorem keep (hschema : Schema db) (h : Expiring t db (lease :: leases) db')
    (hrow : db.workers.get? lease.workerId = some row) (hle : t ≤ lease.expiresAt)
    : Expiring t db leases db' where
  schema := h.schema
  seen := h.seen
  nodup := (List.nodup_cons.mp h.nodup).right
  subset := h.subset_tail
  stored other := by
    rw [h.stored other, List.mem_cons]
    constructor
    . rintro ⟨hmem, hle' | rfl | hother⟩
      . exact ⟨hmem, .inl hle'⟩
      . exact ⟨hmem, .inl hle⟩
      . exact ⟨hmem, .inr hother⟩
    . rintro ⟨hmem, hor⟩
      exact ⟨hmem, hor.imp_right .inr⟩
  mapped := by
    have hid := Table.key_of_get? hrow
    have hsame : afterExpiry db t row = row := by
      unfold afterExpiry
      rw [if_neg]
      rw [leaseExpired_iff hschema (h.subset lease List.mem_cons_self) hid.symm]
      exact Int.not_lt.mpr hle
    apply h.mapped.tail hrow (h.worker_not_mem hschema)
    . rw [hsame]
      apply Table.puts_of_get?
      rw [hid, h.get?_worker]
      exact hrow
    . rw [hsame]
      exact hid

theorem recover {db1 : DB} {worker : Worker} {job : Job} (hschema : Schema db)
    (h : Expiring t db (lease :: leases) db1)
    (hrow : db.workers.get? lease.workerId = some worker.toRow) (hlt : lease.expiresAt < t)
    (hrecovered : Recovered db1 db' worker job (job.assignedNodeId.bind db1.nodes.get?))
    (hleases : ∀ other, other ∈ db'.leases.rows
      ↔ other ∈ db1.leases.rows ∧ ¬(other.jobId = lease.jobId ∧ other.tenantId = lease.tenantId))
    : Expiring t db leases db' where
  schema := hrecovered.schema
  seen := by
    apply h.seen.releasedNodes _ hrecovered.nodes
    intro n hn
    rw [Option.bind_eq_some_iff] at hn
    obtain ⟨_, _, hget⟩ := hn
    exact db1.nodes.get?_key_of_mem (Table.mem_of_get? hget)
  nodup := (List.nodup_cons.mp h.nodup).right
  subset := h.subset_tail
  stored other := by
    rw [hleases other, h.stored other, List.mem_cons]
    constructor
    . rintro ⟨⟨hmem, hle | rfl | hother⟩, hne⟩
      . exact ⟨hmem, .inl hle⟩
      . exact absurd ⟨rfl, rfl⟩ hne
      . exact ⟨hmem, .inr hother⟩
    . rintro ⟨hmem, hor⟩
      refine ⟨⟨hmem, hor.imp_right .inr⟩, ?_⟩
      intro hand
      have heq := hschema.uniqueJob other hmem lease (h.subset lease List.mem_cons_self) hand.left
      subst heq
      cases hor with
      | inl hle => exact Int.not_lt.mpr hle hlt
      | inr hother => exact (List.nodup_cons.mp h.nodup).left hother
  mapped := by
    have hid := Table.key_of_get? hrow
    have hfreed : afterExpiry db t worker.toRow = worker.recover.toRow := by
      unfold afterExpiry
      rw [if_pos]
      . rfl
      . exact (leaseExpired_iff hschema (h.subset lease List.mem_cons_self) hid.symm).mpr hlt
    apply h.mapped.tail hrow (h.worker_not_mem hschema)
    . rw [hfreed, hrecovered.workers]
      apply Table.puts_upsert
    . rw [hfreed]
      exact hid

theorem finish (h : Expiring t db [] db') : Expired t db db' where
  schema := h.schema
  seen := h.seen
  leases lease := by
    rw [h.stored lease]
    simp
  workers := h.mapped.get?_of_nil

end Expiring

theorem RecoverExpiredLease.wp_execute_expired (hschema : Schema db)
    : wp postgres (heldAt t) noGuard execute (fun r db' => r = .ok ⟨⟩ ∧ Expired t db db') db := by
  unfold execute
  refine wp_perform_bind rfl ?_
  intro env henv
  dsimp only [Call.exec]
  apply wp_forM (Expiring t db)
  . exact Expiring.start hschema (env.leaseOrder.hperm db.leases.rows)
  . intro lease leases db1 hexpiring
    obtain ⟨row, hrow, _⟩ := hschema.worker_of_lease (hexpiring.subset lease List.mem_cons_self)
    apply RecoverExpiredLease.wp_recover_cases hexpiring.schema hexpiring.mem_rows
    . exact fun _ _ _ _ => rfl
    . exact fun _ _ _ _ _ _ _ _ => trivial
    . intro env henv hle
      rw [henv.left] at hle
      exact hexpiring.keep hschema hrow hle
    . intro env db2 worker job henv hlt hcurrent hworkerId hjob hrecovered hleases
      rw [henv.left] at hlt
      have hworker : row = worker.toRow := by
        have := hcurrent.row
        rw [hworkerId, hexpiring.get?_worker, hrow] at this
        injection this
      subst hworker
      exact hexpiring.recover hschema hrow hlt hrecovered hleases
  . intro db' hexpiring
    exact ⟨rfl, hexpiring.finish⟩

namespace RecoverOfflineNode

theorem Known.keeps {worker : Worker} (h : Known db worker)
    (hrow : db'.workers.get? worker.id = db.workers.get? worker.id)
    (hnodes : KeepsTenants Node.tenantId db.nodes db'.nodes)
    (hjobs : KeepsTenants Job.tenantId db.jobs db'.jobs) : Known db' worker where
  row := by
    rw [hrow]
    exact h.row
  node := by
    have ⟨node, hnode, htenant⟩ := h.node
    have ⟨node', hnode', htenant'⟩ := hnodes _ node hnode
    exact ⟨node', hnode', htenant'.trans htenant⟩
  job job hjob := by
    have ⟨stored, hstored, htenant⟩ := h.job job hjob
    have ⟨stored', hstored', htenant'⟩ := hjobs _ stored hstored
    exact ⟨stored', hstored', htenant'.trans htenant⟩

theorem Known.keepsTenants {worker : Worker} {job : Job} (h : Known db worker)
    (hjob : worker.runningJob = some job) (hrecovered : Recovered db db' worker job (some worker.node))
    : KeepsTenants Node.tenantId db.nodes db'.nodes
        ∧ KeepsTenants Job.tenantId db.jobs db'.jobs := by
  constructor
  . rw [hrecovered.nodes]
    apply KeepsTenants.upsert
    intro stored hstored
    have ⟨node, hnode, htenant⟩ := h.node
    have := hnode.symm.trans hstored
    injection this with this
    rw [← this, htenant]
    rfl
  . have ⟨stored, hstored, htenant⟩ := h.job job hjob
    cases hrecovered.jobs with
    | inl hsame =>
      rw [hsame.right]
      apply KeepsTenants.refl
    | inr hmoved =>
      have ⟨job', _, hmoves, _, heq⟩ := hmoved
      rw [heq]
      apply KeepsTenants.upsert
      intro other hother
      rw [hmoves.id, hstored] at hother
      injection hother with hother
      rw [← hother, htenant, hmoves.tenantId]

theorem mem_offline_iff (db : DB) (env : Env) {now : NodeId → Time} (hnow : ∀ id, now id = t)
    (nodeId : NodeId)
    : nodeId ∈ ((PostgresNodeRepository.listAcrossTenants env db).filter
          (fun node => !node.isAlive (now node.id))).map (·.id)
        ↔
      nodeOffline db t nodeId = true := by
  unfold nodeOffline PostgresNodeRepository.listAcrossTenants
  rw [List.mem_map, Option.any_eq_true]
  constructor
  . intro ⟨node, hnode, hid⟩
    rw [List.mem_filter, (env.nodeOrder.hperm _).mem_iff, hnow] at hnode
    refine ⟨node, ?_, hnode.right⟩
    rw [← hid]
    exact db.nodes.get?_key_of_mem hnode.left
  . intro ⟨node, hnode, hdead⟩
    refine ⟨node, ?_, Table.key_of_get? hnode⟩
    rw [List.mem_filter, (env.nodeOrder.hperm _).mem_iff, hnow]
    exact ⟨Table.mem_of_get? hnode, hdead⟩

theorem jobUnleased_iff {worker : Worker} {job : Job} (hjob : worker.runningJob = some job)
    : jobUnleased db t worker.toRow = true
        ↔
      ∀ lease ∈ db.leases.rows, lease.jobId = job.id → lease.expiresAt < t := by
  have hrunning : worker.toRow.runningJobId = some job.id := by
    unfold Worker.toRow
    rw [hjob]
    rfl
  unfold jobUnleased
  rw [hrunning, Option.any_some, List.all_eq_true]
  simp only [decide_eq_true_eq]

structure Recovers (t : Time) (db db' : DB) : Prop where
  schema : Schema db'
  workers : ∀ id, db'.workers.get? id = (db.workers.get? id).map (afterOffline db t)

theorem not_mem_offline_iff {offline : List NodeId}
    (hoffline : ∀ id, id ∈ offline ↔ nodeOffline db t id = true) (id : NodeId)
    : id ∉ offline ↔ nodeOffline db t id = false := by
  rw [hoffline, Bool.not_eq_true]

structure Visits (db : DB) (workers : List Worker) : Prop where
  schema : Schema db
  nodup : (workers.map (·.id)).Nodup
  known : ∀ worker ∈ workers, Known db worker

namespace Visits

variable {worker : Worker} {workers : List Worker}

theorem start (hschema : Schema db) (env : Env)
    : Visits db (PostgresWorkerRepository.listAcrossTenants env db) where
  schema := hschema
  nodup := PostgresWorkerRepository.nodup_list hschema
  known _ hworker :=
    known_of_current (PostgresWorkerRepository.current_of_mem_list hschema hworker)

theorem nodup_cons (h : Visits db (worker :: workers))
    : worker.id ∉ workers.map (·.id) ∧ (workers.map (·.id)).Nodup := by
  have := h.nodup
  rw [List.map_cons, List.nodup_cons] at this
  exact this

theorem head (h : Visits db (worker :: workers)) : Known db worker :=
  h.known worker List.mem_cons_self

theorem skip (h : Visits db (worker :: workers)) : Visits db workers where
  schema := h.schema
  nodup := h.nodup_cons.right
  known other hother := h.known other (List.mem_cons_of_mem _ hother)

theorem recover {job : Job} (h : Visits db (worker :: workers)) (hjob : worker.runningJob = some job)
    (hrecovered : Recovered db db' worker job (some worker.node)) : Visits db' workers where
  schema := hrecovered.schema
  nodup := h.nodup_cons.right
  known other hother := by
    obtain ⟨hnodes, hjobs⟩ := h.head.keepsTenants hjob hrecovered
    refine (h.skip.known other hother).keeps ?_ hnodes hjobs
    rw [hrecovered.workers]
    apply Table.get?_upsert_of_ne
    intro heq
    apply h.nodup_cons.left
    have : worker.id = other.id := heq
    rw [this]
    exact List.mem_map_of_mem hother

end Visits

structure Recovering (t : Time) (db : DB) (workers : List Worker) (db' : DB) : Prop where
  visits : Visits db' workers
  rows : ∀ worker ∈ workers, db.workers.get? worker.id = some worker.toRow
  leases : ∀ lease, lease ∈ db'.leases.rows ↔ lease ∈ db.leases.rows
  mapped : db.workers.Mapped (workers.map (·.id)) (afterOffline db t) db'.workers

namespace Recovering

variable {worker : Worker} {workers : List Worker}

theorem start (hschema : Schema db) (env : Env)
    : Recovering t db (PostgresWorkerRepository.listAcrossTenants env db) db where
  visits := Visits.start hschema env
  rows worker hworker := (PostgresWorkerRepository.current_of_mem_list hschema hworker).row
  leases _ := Iff.rfl
  mapped := by
    apply Table.mapped_self
    intro row hrow
    exact .inl (mem_map_id_list hschema hrow)

theorem skip (h : Recovering t db (worker :: workers) db')
    (hskip : nodeOffline db t worker.node.id = false ∨ jobUnleased db t worker.toRow = false)
    : Recovering t db workers db' where
  visits := h.visits.skip
  rows other hother := h.rows other (List.mem_cons_of_mem _ hother)
  leases := h.leases
  mapped := by
    have hsame : afterOffline db t worker.toRow = worker.toRow := by
      unfold afterOffline
      rw [if_neg]
      rw [Bool.and_eq_true, not_and_or, Bool.not_eq_true, Bool.not_eq_true]
      exact hskip
    apply h.mapped.tail (h.rows worker List.mem_cons_self) h.visits.nodup_cons.left
    . rw [hsame]
      exact Table.puts_of_get? h.visits.head.row
    . rw [hsame]
      rfl

theorem recover {db1 : DB} {job : Job} (hlive : ∀ lease ∈ db.leases.rows, t ≤ lease.expiresAt)
    (h : Recovering t db (worker :: workers) db1) (hjob : worker.runningJob = some job)
    (hoffline : nodeOffline db t worker.node.id = true)
    (hexpired : ∀ lease ∈ db.leases.rows, lease.jobId = job.id → lease.expiresAt < t)
    (hrecovered : Recovered db1 db' worker job (some worker.node))
    (hleases : ∀ other, other ∈ db'.leases.rows
      ↔ other ∈ db1.leases.rows ∧ ¬(other.jobId = job.id ∧ other.tenantId = job.tenantId))
    : Recovering t db workers db' where
  visits := h.visits.recover hjob hrecovered
  rows other hother := h.rows other (List.mem_cons_of_mem _ hother)
  leases lease := by
    rw [hleases lease, h.leases lease]
    constructor
    . exact And.left
    . intro hlease
      refine ⟨hlease, ?_⟩
      intro hand
      exact Int.not_lt.mpr (hlive lease hlease) (hexpired lease hlease hand.left)
  mapped := by
    have hfreed : afterOffline db t worker.toRow = worker.recover.toRow := by
      unfold afterOffline
      rw [if_pos]
      . rfl
      . rw [Bool.and_eq_true, jobUnleased_iff hjob]
        exact ⟨hoffline, hexpired⟩
    apply h.mapped.tail (h.rows worker List.mem_cons_self) h.visits.nodup_cons.left
    . rw [hfreed, hrecovered.workers]
      apply Table.puts_upsert
    . rw [hfreed]
      rfl

end Recovering

theorem recovers_of_online (hschema : Schema db) (h : ∀ id, nodeOffline db t id = false)
    : Recovers t db db where
  schema := hschema
  workers id := by
    have hid : afterOffline db t = fun row => row := by
      funext row
      rw [afterOffline, h row.nodeId]
      rfl
    rw [hid, Option.map_id']

theorem wp_execute_recovers (hschema : Schema db)
    (hlive : ∀ lease ∈ db.leases.rows, t ≤ lease.expiresAt)
    : wp postgres (heldAt t) noGuard execute (fun r db' => r = .ok ⟨⟩ ∧ Recovers t db db') db := by
  unfold execute
  refine wp_perform_bind rfl ?_
  intro env henv
  refine wp_perform_bind rfl ?_
  intro env' henv'
  dsimp only [Call.exec]
  have hoffline := mem_offline_iff db env henv'.right
  generalize ((PostgresNodeRepository.listAcrossTenants env db).filter
      (fun node => !node.isAlive (env'.nowFor node.id))).map (·.id) = offline at hoffline ⊢
  split
  . next hempty =>
    rw [List.isEmpty_iff] at hempty
    subst hempty
    refine ⟨rfl, recovers_of_online hschema ?_⟩
    intro id
    exact (not_mem_offline_iff hoffline id).mp List.not_mem_nil
  . refine wp_perform_bind rfl ?_
    intro env'' henv''
    dsimp only [Call.exec]
    apply wp_forM (Recovering t db)
    . exact Recovering.start hschema env''
    . intro worker workers db1 hrecovering
      apply wp_recover_cases hrecovering.visits.schema offline hrecovering.visits.head
      . exact fun _ _ => rfl
      . exact fun _ _ _ _ _ _ _ _ => trivial
      . rintro (hnot | hnone)
        . exact hrecovering.skip (.inl ((not_mem_offline_iff hoffline _).mp hnot))
        . apply hrecovering.skip
          right
          unfold jobUnleased Worker.toRow
          rw [hnone]
          rfl
      . intro env job lease henv hjob hlease hleaseJob hle
        apply hrecovering.skip
        right
        rw [Bool.eq_false_iff, ne_eq, jobUnleased_iff hjob]
        intro hall
        have hlease' := (hrecovering.leases lease).mp hlease
        exact Int.not_lt.mpr (hlive lease hlease') (hall lease hlease' hleaseJob)
      . intro db2 job hmem hjob hexpired hrecovered hleases
        apply hrecovering.recover hlive hjob ((hoffline _).mp hmem) _ hrecovered hleases
        intro lease hlease hleaseJob
        obtain ⟨env, henv, hlt⟩ := hexpired lease ((hrecovering.leases lease).mpr hlease) hleaseJob
        rw [henv.left] at hlt
        exact hlt
    . intro db' hrecovering
      exact ⟨rfl, hrecovering.visits.schema, hrecovering.mapped.get?_of_nil⟩

end RecoverOfflineNode

namespace ReconciliationLoop

def reconciled (db : DB) (t : Time) (row : WorkerRow) : WorkerRow :=
  if revived db t row then row.freed else row.marked t

theorem leaseExpired_marked (hmarked : Marked t db db') (row : WorkerRow)
    : leaseExpired db' t (row.marked t) = leaseExpired db t row := by
  have hid : (row.marked t).id = row.id := by
    unfold WorkerRow.marked
    split <;> rfl
  unfold leaseExpired
  rw [hmarked.leases, hid]

theorem jobUnleased_expired (hexpired : Expired t db db') (row : WorkerRow)
    : jobUnleased db' t row = jobUnleased db t row := by
  unfold jobUnleased
  congr 1
  funext jobId
  rw [Bool.eq_iff_iff, List.all_eq_true, List.all_eq_true]
  simp only [decide_eq_true_eq, hexpired.leases]
  constructor
  . intro h lease hlease hjob
    by_cases hle : t ≤ lease.expiresAt
    . exact h lease ⟨hlease, hle⟩ hjob
    . exact Int.not_le.mp hle
  . intro h lease hlease hjob
    exact h lease hlease.left hjob

theorem rows_eq {db1 db2 db3 : DB} (hmarked : Marked t db db1) (hexpired : Expired t db1 db2)
    (hrecovers : RecoverOfflineNode.Recovers t db2 db3) (id : WorkerId)
    : db3.workers.get? id = (db.workers.get? id).map (reconciled db t) := by
  rw [hrecovers.workers, hexpired.workers, hmarked.workers, Option.map_map, Option.map_map]
  congr 1
  funext row
  have hnode : (row.marked t).nodeId = row.nodeId := by
    unfold WorkerRow.marked
    split <;> rfl
  have hrunning : (row.marked t).runningJobId = row.runningJobId := by
    unfold WorkerRow.marked
    split <;> rfl
  have hoffline : nodeOffline db2 t row.nodeId = nodeOffline db t row.nodeId := by
    rw [hexpired.seen.nodeOffline]
    unfold nodeOffline
    rw [hmarked.nodes]
  have hunleased : jobUnleased db2 t (row.marked t) = jobUnleased db t row := by
    rw [jobUnleased_expired hexpired]
    unfold jobUnleased
    rw [hmarked.leases, hrunning]
  have hexpiry : afterExpiry db1 t (row.marked t)
      = if leaseExpired db t row then (row.marked t).freed else row.marked t := by
    rw [afterExpiry, leaseExpired_marked hmarked]
  have hfreed : (row.marked t).freed = row.freed := by
    unfold WorkerRow.marked
    split <;> rfl
  dsimp only [Function.comp]
  rw [hexpiry, reconciled, revived]
  cases leaseExpired db t row with
  | true =>
    have hfree : jobUnleased db2 t (row.marked t).freed = false := rfl
    rw [if_pos rfl, afterOffline, hfree, Bool.and_false, if_neg Bool.false_ne_true, Bool.true_or,
      if_pos rfl, hfreed]
  | false =>
    rw [if_neg Bool.false_ne_true, afterOffline, hnode, hoffline, hunleased, Bool.false_or, hfreed]

theorem wp_execute_reconciled (hschema : Schema db)
    : wp postgres (heldAt t) noGuard execute
        (fun r db' => r = .ok ⟨⟩
          ∧ ∀ id, db'.workers.get? id = (db.workers.get? id).map (reconciled db t)) db := by
  unfold execute
  rw [wp_bind]
  apply wp_mono (MarkDeadWorkers.wp_execute_marked hschema)
  intro r db1 ⟨hr, hmarked⟩
  subst hr
  dsimp only
  rw [wp_bind]
  apply wp_mono (RecoverExpiredLease.wp_execute_expired hmarked.schema)
  intro r db2 ⟨hr, hexpired⟩
  subst hr
  dsimp only
  have hlive : ∀ lease ∈ db2.leases.rows, t ≤ lease.expiresAt := by
    intro lease hlease
    exact ((hexpired.leases lease).mp hlease).right
  apply wp_mono (RecoverOfflineNode.wp_execute_recovers hexpired.schema hlive)
  intro r db3 ⟨hr, hrecovers⟩
  exact ⟨hr, rows_eq hmarked hexpired hrecovers⟩

theorem reconciled_isStale (db : DB) (row : WorkerRow)
    : (reconciled db t row).isStale t ↔ row.isStale t := by
  unfold reconciled WorkerRow.marked
  split
  . rfl
  . split <;> rfl

theorem reconciled_offline_iff {row : WorkerRow} (hstale : row.isStale t)
    : (reconciled db t row).status = .offline ↔ revived db t row = false := by
  unfold reconciled WorkerRow.marked
  cases revived db t row with
  | true => exact ⟨fun h => WorkerStatus.noConfusion h, fun h => Bool.noConfusion h⟩
  | false =>
    rw [if_neg Bool.false_ne_true, if_pos hstale]
    exact ⟨fun _ => rfl, fun _ => rfl⟩

theorem dead_workers_offline_iff {r : Except Err Unit} (hschema : Schema db)
    (hruns : Runs postgres (heldAt t) execute db r db')
    : r = .ok ()
        ∧ ((∀ row ∈ db'.workers.rows, row.isStale t → row.status = .offline)
          ↔
        ∀ row ∈ db.workers.rows, row.isStale t → revived db t row = false) := by
  have ⟨hr, hrows⟩ := hruns.of_wp (wp_execute_reconciled hschema)
  refine ⟨hr, ?_⟩
  constructor
  . intro hoffline row hrow hstale
    have hget : db'.workers.get? row.id = some (reconciled db t row) := by
      rw [hrows, db.workers.get?_key_of_mem hrow]
      rfl
    have hstale' := (reconciled_isStale db row).mpr hstale
    exact (reconciled_offline_iff hstale).mp (hoffline _ (Table.mem_of_get? hget) hstale')
  . intro hrevived row hrow hstale
    have hget := db'.workers.get?_key_of_mem hrow
    rw [hrows, Option.map_eq_some_iff] at hget
    have ⟨stored, hstored, heq⟩ := hget
    subst heq
    rw [reconciled_isStale] at hstale
    exact (reconciled_offline_iff hstale).mpr (hrevived stored (Table.mem_of_get? hstored) hstale)

def deadWorker : DB :=
  let node := Node.register ⟨0⟩ ⟨4, 4096, 0⟩ ⟨0⟩ none "node" 0
  let job : Job :=
    { id := ⟨1⟩
      resources := ⟨1, 1, 0⟩
      tenantId := ⟨0⟩
      status := .running
      assignedNodeId := some ⟨0⟩
      submittedAt := 0
      hcpu := Nat.one_pos
      hmemory := Nat.one_pos }
  { DB.empty with
    nodes := DB.empty.nodes.upsert node
    jobs := DB.empty.jobs.upsert job
    workers := DB.empty.workers.upsert ⟨⟨2⟩, ⟨0⟩, ⟨0⟩, .busy, .agent, some ⟨1⟩, 0⟩
    leases := DB.empty.leases.upsert ⟨⟨3⟩, ⟨2⟩, ⟨1⟩, ⟨0⟩, 0, seconds 30⟩
    nextId := 4 }

def twoMinutes : Env :=
  { now := seconds 120 }

theorem idle_deadWorker
    : Schema deadWorker
        ∧ Runs postgres (heldAt (seconds 120)) execute deadWorker
          (eval postgres twoMinutes execute deadWorker).1 (eval postgres twoMinutes execute deadWorker).2
        ∧ ∃ row ∈ (eval postgres twoMinutes execute deadWorker).2.workers.rows,
          row.isStale (seconds 120) ∧ row.status = .idle := by
  refine ⟨by decide +kernel, ?_, by decide +kernel⟩
  exact runs_eval ⟨rfl, fun _ => rfl⟩ execute deadWorker

theorem dead_workers_offline_iff_deadWorker
    : Schema deadWorker
        ∧ ((∀ row ∈ (eval postgres twoMinutes execute deadWorker).2.workers.rows,
            row.isStale (seconds 120) → row.status = .offline)
          ↔
        ∀ row ∈ deadWorker.workers.rows,
          row.isStale (seconds 120) → revived deadWorker (seconds 120) row = false) := by
  have hschema : Schema deadWorker := by decide +kernel
  have hheld : heldAt (seconds 120) twoMinutes := ⟨rfl, fun _ => rfl⟩
  exact ⟨hschema, (dead_workers_offline_iff hschema (runs_eval hheld execute deadWorker)).right⟩

end ReconciliationLoop

end AetherGrid
