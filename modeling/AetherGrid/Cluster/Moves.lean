import AetherGrid.Cluster.Invariant

/-!
This module contains the changes of the stores that a service call can amount to, each given by the
rows it writes, and the fact that each of them keeps the invariant.
-/

namespace AetherGrid

variable {db db' : DB}

theorem leased_congr (h : db'.leases = db.leases) (id : JobId) : Leased db' id ↔ Leased db id := by
  unfold Leased
  rw [h]

theorem leased_of_mem {lease : Lease} (h : lease ∈ db.leases.rows) : Leased db lease.jobId :=
  ⟨lease, h, rfl⟩

theorem Held.congr {lease : Lease} {row : WorkerRow} {job : Job} (h : Held db lease row job)
    (hworker : db'.workers.get? lease.workerId = db.workers.get? lease.workerId)
    (hjob : db'.jobs.get? lease.jobId = db.jobs.get? lease.jobId) : Held db' lease row job where
  hrow := by
    rw [hworker]
    exact h.hrow
  hjob := by
    rw [hjob]
    exact h.hjob
  running := h.running
  assigned := h.assigned
  status := h.status

namespace Keeps

theorem puts_job {job' : Job} (hjobs : db.jobs.Puts job' db'.jobs)
    (h : ∀ job, db.jobs.get? job'.id = some job →
      job'.resources = job.resources ∧ job'.tenantId = job.tenantId)
    (id : JobId) (job : Job) (hjob : db.jobs.get? id = some job)
    : ∃ job', db'.jobs.get? id = some job'
        ∧ job'.resources = job.resources
        ∧ job'.tenantId = job.tenantId := by
  rw [hjobs id]
  split
  . next heq =>
    subst heq
    exact ⟨job', rfl, h job hjob⟩
  . exact ⟨job, hjob, rfl, rfl⟩

theorem puts_worker {row' : WorkerRow} (hworkers : db.workers.Puts row' db'.workers)
    (h : row'.id.value < db.nextId → ∃ row, db.workers.get? row'.id = some row
      ∧ row'.nodeId = row.nodeId
      ∧ row'.tenantId = row.tenantId)
    (id : WorkerId) (row : WorkerRow) (hrow : db'.workers.get? id = some row)
    (hid : id.value < db.nextId)
    : ∃ stored, db.workers.get? id = some stored
        ∧ row.nodeId = stored.nodeId
        ∧ row.tenantId = stored.tenantId := by
  rw [hworkers id] at hrow
  split at hrow
  . next heq =>
    injection hrow with hrow
    subst hrow heq
    exact h hid
  . exact ⟨row, hrow, rfl, rfl⟩

theorem leases_subset (hleases : ∀ lease ∈ db'.leases.rows, lease ∈ db.leases.rows)
    (id : LeaseId) (lease' : Lease) (hlease' : db'.leases.get? id = some lease')
    : ∃ lease, db.leases.get? id = some lease
        ∧ lease'.workerId = lease.workerId
        ∧ lease'.jobId = lease.jobId
        ∧ lease'.tenantId = lease.tenantId := by
  refine ⟨lease', ?_, rfl, rfl, rfl⟩
  rw [Table.get?_eq_some_iff]
  exact ⟨hleases lease' (Table.mem_of_get? hlease'), Table.key_of_get? hlease'⟩

end Keeps

namespace Inv

theorem other_node (hinv : Inv db) {row row' : WorkerRow} (hrow : db.workers.get? row'.id = some row)
    (hnode : row'.nodeId = row.nodeId)
    : ∀ other ∈ db.workers.rows, other.id ≠ row'.id → other.nodeId ≠ row'.nodeId := by
  intro other hother hne heq
  rw [hnode] at heq
  have := hinv.oneWorker other hother row (Table.mem_of_get? hrow) heq
  rw [this, Table.key_of_get? hrow] at hne
  contradiction

theorem oneWorker_puts (hinv : Inv db) {row' : WorkerRow} (hworkers : db.workers.Puts row' db'.workers)
    (hother : ∀ other ∈ db.workers.rows, other.id ≠ row'.id → other.nodeId ≠ row'.nodeId)
    : ∀ a ∈ db'.workers.rows, ∀ b ∈ db'.workers.rows, a.nodeId = b.nodeId → a = b := by
  refine hworkers.forall_mem ?_ ?_
  . refine hworkers.forall_mem (fun _ => rfl) ?_
    intro b hb hne heq
    exact absurd heq.symm (hother b hb hne)
  . intro a ha hne
    refine hworkers.forall_mem ?_ ?_
    . intro heq
      exact absurd heq (hother a ha hne)
    . intro b hb _
      exact hinv.oneWorker a ha b hb

theorem bump (hinv : Inv db) (hnodes : db'.nodes = db.nodes) (hjobs : db'.jobs = db.jobs)
    (hworkers : db'.workers = db.workers) (hleases : db'.leases = db.leases)
    (hnext : db.nextId ≤ db'.nextId) : Good db db' := by
  have hleased := leased_congr hleases
  refine ⟨⟨hinv.schema.congr hnodes hjobs hworkers hleases, ?_, ?_, ?_, ?_, ?_, ?_, ?_, ?_, ?_⟩,
    ⟨hnext, ?_, ?_, ?_⟩, ?_⟩
  . rw [hleases]
    intro lease hlease
    have ⟨row, job, h⟩ := hinv.held lease hlease
    exact ⟨row, job, h.congr (by rw [hworkers]) (by rw [hjobs])⟩
  . rw [hworkers, hleases]
    exact hinv.running
  . rw [hworkers]
    exact hinv.idle
  . rw [hworkers]
    exact hinv.oneWorker
  . rw [hnodes]
    intro node hnode
    rw [used_congr_tables hjobs hleased]
    exact hinv.conserved node hnode
  . rw [hnodes]
    intro node hnode
    have := hinv.freshNode node hnode
    omega
  . rw [hjobs]
    intro job hjob
    have := hinv.freshJob job hjob
    omega
  . rw [hworkers]
    intro row hrow
    have := hinv.freshWorker row hrow
    omega
  . rw [hleases]
    intro lease hlease
    have := hinv.freshLease lease hlease
    omega
  . rw [hjobs]
    exact (Keeps.refl db).job
  . rw [hworkers]
    exact (Keeps.refl db).worker
  . rw [hleases]
    exact (Keeps.refl db).lease
  . intro id ⟨job, hjob, hactive, hnot⟩
    rw [hjobs] at hjob
    rw [hleased] at hnot
    exact ⟨job, hjob, hactive, hnot⟩

theorem putNode (hinv : Inv db) {node : Node} (hschema : Schema db')
    (hnodes : db.nodes.Puts node db'.nodes) (hjobs : db'.jobs = db.jobs)
    (hworkers : db'.workers = db.workers) (hleases : db'.leases = db.leases)
    (hnext : db'.nextId = db.nextId) (hfresh : node.id.value < db.nextId)
    (hbalance : node.available + used db node.id = node.capacity) : Good db db' := by
  have hgood : Good db { db' with nodes := db.nodes } :=
    hinv.bump rfl hjobs hworkers hleases (Nat.le_of_eq hnext.symm)
  have hused : ∀ nodeId, used db' nodeId = used db nodeId := by
    intro nodeId
    exact used_congr_tables hjobs (leased_congr hleases)
  refine ⟨⟨hschema, ?_, hgood.inv.running, hgood.inv.idle, hgood.inv.oneWorker, ?_, ?_,
    hgood.inv.freshJob, hgood.inv.freshWorker, hgood.inv.freshLease⟩,
    ⟨hgood.keeps.nextId, hgood.keeps.job, hgood.keeps.worker, hgood.keeps.lease⟩, hgood.stranded⟩
  . intro lease hlease
    have ⟨row, job, h⟩ := hgood.inv.held lease hlease
    exact ⟨row, job, h.congr rfl rfl⟩
  . refine hnodes.forall_mem ?_ ?_
    . rw [hused]
      exact hbalance
    . intro other hother _
      rw [hused]
      exact hinv.conserved other hother
  . rw [hnext]
    refine hnodes.forall_mem hfresh ?_
    intro other hother _
    exact hinv.freshNode other hother

theorem touchNode (hinv : Inv db) {node node' : Node} (hnode : db.nodes.get? node'.id = some node)
    (havailable : node'.available = node.available) (hcapacity : node'.capacity = node.capacity)
    (hschema : Schema { db with nodes := db.nodes.upsert node' })
    : Good db { db with nodes := db.nodes.upsert node' } := by
  have hmem := Table.mem_of_get? hnode
  have hid := Table.key_of_get? hnode
  apply hinv.putNode hschema (Table.puts_upsert _ _) rfl rfl rfl rfl
  . rw [← hid]
    exact hinv.freshNode node hmem
  . rw [havailable, hcapacity, ← hid]
    exact hinv.conserved node hmem

theorem putJob (hinv : Inv db) {job' : Job} (hschema : Schema db') (hnodes : db'.nodes = db.nodes)
    (hjobs : db.jobs.Puts job' db'.jobs) (hworkers : db'.workers = db.workers)
    (hleases : db'.leases = db.leases) (hnext : db'.nextId = db.nextId)
    (hfresh : job'.id.value < db.nextId)
    (hkeeps : ∀ job, db.jobs.get? job'.id = some job →
      job'.resources = job.resources ∧ job'.tenantId = job.tenantId)
    (hheld : Leased db job'.id → ∃ job, db.jobs.get? job'.id = some job
      ∧ job'.assignedNodeId = job.assignedNodeId
      ∧ job'.status.isHeld)
    (hactive : job'.status.isActive → Leased db job'.id ∨ Stranded db job'.id) : Good db db' := by
  have hgood : Good db { db' with jobs := db.jobs } :=
    hinv.bump hnodes rfl hworkers hleases (Nat.le_of_eq hnext.symm)
  have hleased := leased_congr hleases
  have hused : ∀ nodeId, used db' nodeId = used db nodeId := by
    intro nodeId
    apply used_congr
    intro id
    by_cases heq : job'.id = id
    . subst heq
      rw [Table.weight_of_get? hjobs.get?_self]
      by_cases hlease : Leased db job'.id
      . -- the job keeps its place on the node
        obtain ⟨job, hjob, hassigned, _⟩ := hheld hlease
        have hid := Table.key_of_get? hjob
        rw [Table.weight_of_get? hjob]
        simp only [demand, hassigned, (hkeeps job hjob).left, hid, hleased]
      . rw [demand_of_not_leased ((hleased _).not.mpr hlease), weight_demand_of_not_leased hlease]
    . exact weight_demand_congr (hjobs.get?_of_ne heq) (hleased id)
  refine ⟨⟨hschema, ?_, hgood.inv.running, hgood.inv.idle, hgood.inv.oneWorker, ?_,
    hgood.inv.freshNode, ?_, hgood.inv.freshWorker, hgood.inv.freshLease⟩,
    ⟨hgood.keeps.nextId, Keeps.puts_job hjobs hkeeps, hgood.keeps.worker, hgood.keeps.lease⟩, ?_⟩
  . rw [hleases]
    intro lease hlease
    obtain ⟨row, job, h⟩ := hinv.held lease hlease
    by_cases heq : job'.id = lease.jobId
    . obtain ⟨stored, hstored, hassigned, hstatus⟩ := hheld (heq ▸ leased_of_mem hlease)
      rw [heq, h.hjob] at hstored
      injection hstored with hstored
      subst hstored
      refine ⟨row, job', ?_, hjobs.get?_of_eq heq, h.running, ?_, hstatus⟩
      . rw [hworkers]
        exact h.hrow
      . rw [hassigned]
        exact h.assigned
    . exact ⟨row, job, h.congr (by rw [hworkers]) (hjobs.get?_of_ne heq)⟩
  . rw [hnodes]
    intro node hnode
    rw [hused]
    exact hinv.conserved node hnode
  . rw [hnext]
    refine hjobs.forall_mem hfresh ?_
    intro job hjob _
    exact hinv.freshJob job hjob
  . rintro id ⟨job, hjob, hstatus, hnot⟩
    rw [hleased] at hnot
    rw [hjobs id] at hjob
    split at hjob
    . next heq =>
      injection hjob with hjob
      subst hjob heq
      cases hactive hstatus with
      | inl hlease => contradiction
      | inr hstranded => exact hstranded
    . exact ⟨job, hjob, hstatus, hnot⟩

theorem putWorker (hinv : Inv db) {row' : WorkerRow} (hschema : Schema db')
    (hnodes : db'.nodes = db.nodes) (hjobs : db'.jobs = db.jobs)
    (hworkers : db.workers.Puts row' db'.workers) (hleases : db'.leases = db.leases)
    (hnext : db.nextId ≤ db'.nextId) (hfresh : row'.id.value < db'.nextId)
    (hstored : ∀ row, db.workers.get? row'.id = some row →
      row'.nodeId = row.nodeId
        ∧ row'.tenantId = row.tenantId
        ∧ row'.runningJobId = row.runningJobId)
    (hnew : db.workers.get? row'.id = none →
      db.nextId ≤ row'.id.value
        ∧ row'.runningJobId = none
        ∧ ∀ row ∈ db.workers.rows, row.nodeId ≠ row'.nodeId)
    (hidle : row'.status = .idle → row'.runningJobId = none) : Good db db' := by
  have hgood : Good db { db' with workers := db.workers } :=
    hinv.bump hnodes hjobs rfl hleases hnext
  refine ⟨⟨hschema, ?_, ?_, ?_, ?_, hgood.inv.conserved, hgood.inv.freshNode, hgood.inv.freshJob, ?_,
    hgood.inv.freshLease⟩,
    ⟨hnext, hgood.keeps.job, ?_, hgood.keeps.lease⟩, hgood.stranded⟩
  . rw [hleases]
    intro lease hlease
    have ⟨row, job, h⟩ := hinv.held lease hlease
    by_cases heq : row'.id = lease.workerId
    . have ⟨hnode, _, hrunning⟩ := hstored row (heq ▸ h.hrow)
      refine ⟨row', job, hworkers.get?_of_eq heq, ?_, ?_, ?_, h.status⟩
      . rw [hjobs]
        exact h.hjob
      . rw [hrunning]
        exact h.running
      . rw [hnode]
        exact h.assigned
    . exact ⟨row, job, h.congr (hworkers.get?_of_ne heq) (by rw [hjobs])⟩
  . rw [hleases]
    refine hworkers.forall_mem ?_ ?_
    . intro jobId hjobId
      cases hrow : db.workers.get? row'.id with
      | none =>
        rw [(hnew hrow).right.left] at hjobId
        contradiction
      | some row =>
        rw [(hstored row hrow).right.right] at hjobId
        have := hinv.running row (Table.mem_of_get? hrow) jobId hjobId
        rw [Table.key_of_get? hrow] at this
        exact this
    . intro row hrow _
      exact hinv.running row hrow
  . refine hworkers.forall_mem hidle ?_
    intro row hrow _
    exact hinv.idle row hrow
  . apply hinv.oneWorker_puts hworkers
    intro other hother hne
    cases hrow : db.workers.get? row'.id with
    | none => exact (hnew hrow).right.right other hother
    | some row => exact hinv.other_node hrow (hstored row hrow).left other hother hne
  . refine hworkers.forall_mem hfresh ?_
    intro row hrow _
    have := hinv.freshWorker row hrow
    omega
  . apply Keeps.puts_worker hworkers
    intro hid
    cases hrow : db.workers.get? row'.id with
    | none =>
      have := (hnew hrow).left
      omega
    | some row =>
      have ⟨hnode, htenant, _⟩ := hstored row hrow
      exact ⟨row, rfl, hnode, htenant⟩

theorem touchWorker (hinv : Inv db) {row row' : WorkerRow} (hrow : db.workers.get? row'.id = some row)
    (hnode : row'.nodeId = row.nodeId) (htenant : row'.tenantId = row.tenantId)
    (hrunning : row'.runningJobId = row.runningJobId)
    (hidle : row'.status = .idle → row'.runningJobId = none)
    (hschema : Schema { db with workers := db.workers.upsert row' })
    : Good db { db with workers := db.workers.upsert row' } := by
  apply hinv.putWorker hschema rfl rfl (Table.puts_upsert _ _) rfl (Nat.le_refl _)
  . rw [← Table.key_of_get? hrow]
    exact hinv.freshWorker row (Table.mem_of_get? hrow)
  . intro stored hstored
    rw [hrow] at hstored
    injection hstored with hstored
    subst hstored
    exact ⟨hnode, htenant, hrunning⟩
  . intro hnone
    rw [hrow] at hnone
    contradiction
  . exact hidle

theorem renewLease (hinv : Inv db) {lease : Lease} (lease' : Lease) (hschema : Schema db')
    (hnodes : db'.nodes = db.nodes) (hjobs : db'.jobs = db.jobs)
    (hworkers : db'.workers = db.workers) (hleases : db.leases.Puts lease' db'.leases)
    (hnext : db'.nextId = db.nextId) (hlease : db.leases.get? lease'.id = some lease)
    (hworker : lease'.workerId = lease.workerId) (hjob : lease'.jobId = lease.jobId)
    (htenant : lease'.tenantId = lease.tenantId) : Good db db' := by
  have hmem := Table.mem_of_get? hlease
  have hid := Table.key_of_get? hlease
  have hgood : Good db { db' with leases := db.leases } :=
    hinv.bump hnodes hjobs hworkers rfl (Nat.le_of_eq hnext.symm)
  have hback : ∀ a ∈ db'.leases.rows,
      ∃ b ∈ db.leases.rows, a.workerId = b.workerId ∧ a.jobId = b.jobId := by
    refine hleases.forall_mem ⟨lease, hmem, hworker, hjob⟩ ?_
    intro a ha _
    exact ⟨a, ha, rfl, rfl⟩
  have hforth : ∀ b ∈ db.leases.rows,
      ∃ a ∈ db'.leases.rows, a.workerId = b.workerId ∧ a.jobId = b.jobId := by
    intro b hb
    by_cases heq : b.id = lease'.id
    . have := db.leases.eq_of_key_eq hb hmem (heq.trans hid.symm)
      subst this
      exact ⟨lease', (hleases.mem_iff _).mpr (.inl rfl), hworker, hjob⟩
    . exact ⟨b, (hleases.mem_iff _).mpr (.inr ⟨hb, heq⟩), rfl, rfl⟩
  have hleased : ∀ id, Leased db' id ↔ Leased db id := by
    intro id
    constructor
    . rintro ⟨a, ha, haid⟩
      obtain ⟨b, hb, _, hbjob⟩ := hback a ha
      exact ⟨b, hb, hbjob.symm.trans haid⟩
    . rintro ⟨b, hb, hbid⟩
      obtain ⟨a, ha, _, hajob⟩ := hforth b hb
      exact ⟨a, ha, hajob.trans hbid⟩
  refine ⟨⟨hschema, ?_, ?_, hgood.inv.idle, hgood.inv.oneWorker, ?_, hgood.inv.freshNode,
    hgood.inv.freshJob, hgood.inv.freshWorker, ?_⟩,
    ⟨hgood.keeps.nextId, hgood.keeps.job, hgood.keeps.worker, ?_⟩, ?_⟩
  . intro a ha
    obtain ⟨b, hb, hbworker, hbjob⟩ := hback a ha
    obtain ⟨row, job, h⟩ := hinv.held b hb
    refine ⟨row, job, ?_, ?_, ?_, h.assigned, h.status⟩
    . rw [hworkers, hbworker]
      exact h.hrow
    . rw [hjobs, hbjob]
      exact h.hjob
    . rw [hbjob]
      exact h.running
  . rw [hworkers]
    intro row hrow jobId hjobId
    obtain ⟨b, hb, hbworker, hbjob⟩ := hinv.running row hrow jobId hjobId
    obtain ⟨a, ha, haworker, hajob⟩ := hforth b hb
    exact ⟨a, ha, haworker.trans hbworker, hajob.trans hbjob⟩
  . rw [hnodes]
    intro node hnode
    rw [used_congr_tables hjobs hleased]
    exact hinv.conserved node hnode
  . rw [hnext]
    exact hleases.forall_key hlease (p := (·.value < db.nextId)) hinv.freshLease
  . intro id a ha _
    rw [hleases id] at ha
    split at ha
    . next heq =>
      injection ha with ha
      subst ha heq
      exact ⟨lease, hlease, hworker, hjob, htenant⟩
    . exact ⟨a, ha, rfl, rfl, rfl⟩
  . rintro id ⟨job, hjob, hactive, hnot⟩
    rw [hjobs] at hjob
    rw [hleased] at hnot
    exact ⟨job, hjob, hactive, hnot⟩

end Inv

end AetherGrid
