import AetherGrid.Cluster.Moves
import AetherGrid.Store.Reads

/-!
This module contains the changes in which a job changes hands: a worker takes a queued job, the lease
of a job is settled, and a node goes away with its worker and its lease.
-/

namespace AetherGrid

namespace Inv

variable {db db' : DB}

theorem not_leased (hinv : Inv db) {id : JobId} {job : Job} (hjob : db.jobs.get? id = some job)
    (hstatus : job.status.isHeld = false) : ¬Leased db id := by
  intro ⟨lease, hlease, hid⟩
  have ⟨row, job', h⟩ := hinv.held lease hlease
  have := h.hjob
  rw [hid, hjob] at this
  injection this with this
  have := this ▸ h.status
  rw [hstatus] at this
  contradiction

theorem held_of_current (hinv : Inv db) {worker : Worker} {job : Job} (hworker : Current db worker)
    (hjob : worker.runningJob = some job)
    : ∃ lease ∈ db.leases.rows, lease.workerId = worker.id
        ∧ lease.jobId = job.id
        ∧ lease.tenantId = job.tenantId
        ∧ Held db lease worker.toRow job := by
  have hrunning : worker.toRow.runningJobId = some job.id := by
    unfold Worker.toRow
    rw [hjob]
    rfl
  have ⟨lease, hlease, hleaseWorker, hleaseJob⟩ :=
    hinv.running worker.toRow (Table.mem_of_get? hworker.row) job.id hrunning
  have ⟨row, job', h⟩ := hinv.held lease hlease
  have hrow := h.hrow
  have hjob' := h.hjob
  rw [hleaseWorker] at hrow
  rw [hleaseJob, hworker.job job hjob] at hjob'
  injection hjob' with hjob'
  have hrow' : row = worker.toRow := by
    have := hrow.symm.trans hworker.row
    injection this
  have htenant : lease.tenantId = job.tenantId := by
    have := hinv.schema.leaseJob lease hlease
    unfold PostgresLeaseRepository.jobSameTenant at this
    rw [hleaseJob, hworker.job job hjob, Option.any_some, decide_eq_true_eq] at this
    exact this.symm
  subst hrow' hjob'
  exact ⟨lease, hlease, hleaseWorker, hleaseJob, htenant, h⟩

theorem fits (hinv : Inv db) {lease : Lease} {row : WorkerRow} {job : Job} {node : Node}
    (hlease : lease ∈ db.leases.rows) (hheld : Held db lease row job)
    (hnode : db.nodes.get? row.nodeId = some node)
    : node.available + job.resources ≤ node.capacity := by
  have hid := Table.key_of_get? hheld.hjob
  have hleased : Leased db job.id := ⟨lease, hlease, hid.symm⟩
  have ⟨rest, hrest⟩ := Table.exists_sum_eq_add (demand db row.nodeId) hheld.hjob
  rw [demand_of_leased hheld.assigned hleased] at hrest
  have hconserved := hinv.conserved node (Table.mem_of_get? hnode)
  rw [Table.key_of_get? hnode] at hconserved
  unfold used at hconserved
  rw [hrest, ← add_assoc] at hconserved
  exact ResourceRequirements.le_of_add_eq hconserved

theorem assign (hinv : Inv db) {node node' : Node} {job job' : Job} {row row' : WorkerRow}
    {lease : Lease} (hschema : Schema db') (hnodes : db.nodes.Puts node' db'.nodes)
    (hjobs : db.jobs.Puts job' db'.jobs) (hworkers : db.workers.Puts row' db'.workers)
    (hleases : db.leases.Puts lease db'.leases) (hid : db.nextId ≤ lease.id.value)
    (hnext : lease.id.value < db'.nextId) (hnode : db.nodes.get? node'.id = some node)
    (hjob : db.jobs.get? job'.id = some job) (hrow : db.workers.get? row'.id = some row)
    (hcapacity : node'.capacity = node.capacity)
    (havailable : node'.available + job.resources = node.available)
    (hresources : job'.resources = job.resources) (htenant : job'.tenantId = job.tenantId)
    (hassigned : job'.assignedNodeId = some node'.id) (hscheduled : job'.status = .scheduled)
    (hqueued : job.status.isHeld = false) (hrowNode : row'.nodeId = row.nodeId)
    (hrowTenant : row'.tenantId = row.tenantId) (hon : row'.nodeId = node'.id)
    (hfree : row.runningJobId = none) (hrunning : row'.runningJobId = some job'.id)
    (hbusy : row'.status ≠ .idle) (hleaseWorker : lease.workerId = row'.id)
    (hleaseJob : lease.jobId = job'.id) : Good db db' := by
  have hnot := hinv.not_leased hjob hqueued
  have hmem : ∀ other, other ∈ db'.leases.rows ↔ other = lease ∨ other ∈ db.leases.rows := by
    intro other
    rw [hleases.mem_iff]
    constructor
    . intro h
      exact h.imp_right And.left
    . intro h
      refine h.imp_right fun hother => ⟨hother, ?_⟩
      intro heq
      have := hinv.freshLease other hother
      rw [heq] at this
      omega
  have hleased : ∀ k ≠ job'.id, (Leased db' k ↔ Leased db k) := by
    intro k hk
    constructor
    . rintro ⟨other, hother, hkey⟩
      cases (hmem other).mp hother with
      | inl heq =>
        rw [heq, hleaseJob] at hkey
        exact absurd hkey.symm hk
      | inr hother => exact ⟨other, hother, hkey⟩
    . rintro ⟨other, hother, hkey⟩
      exact ⟨other, (hmem other).mpr (.inr hother), hkey⟩
  have hleased' : Leased db' job'.id := ⟨lease, (hmem lease).mpr (.inl rfl), hleaseJob⟩
  have hworkerNe : ∀ other ∈ db.leases.rows, row'.id ≠ other.workerId := by
    intro other hother heq
    obtain ⟨row'', _, h⟩ := hinv.held other hother
    have hrow'' := h.hrow
    rw [← heq, hrow] at hrow''
    injection hrow'' with hrow''
    have := hrow'' ▸ h.running
    rw [hfree] at this
    contradiction
  have hjobNe : ∀ other ∈ db.leases.rows, job'.id ≠ other.jobId := by
    intro other hother heq
    exact hnot ⟨other, hother, heq.symm⟩
  have hused : ∀ nodeId, used db' nodeId
      = used db nodeId + if node'.id = nodeId then job.resources else 0 := by
    intro nodeId
    rw [used_of_lease (fun k hk => hjobs.get?_of_ne (Ne.symm hk)) hleased hnot hleased'
      hjobs.get?_self hassigned, hresources]
  have hle : db.nextId ≤ db'.nextId := by omega
  refine ⟨⟨hschema, ?_, ?_, ?_, ?_, ?_, ?_, ?_, ?_, ?_⟩, ⟨hle, ?_, ?_, ?_⟩, ?_⟩
  . intro other hother
    cases (hmem other).mp hother with
    | inl heq =>
      subst heq
      refine ⟨row', job', hworkers.get?_of_eq hleaseWorker.symm, hjobs.get?_of_eq hleaseJob.symm,
        ?_, ?_, ?_⟩
      . rw [hrunning, hleaseJob]
      . rw [hassigned, hon]
      . rw [hscheduled]
        rfl
    | inr hother =>
      obtain ⟨row'', job'', h⟩ := hinv.held other hother
      exact ⟨row'', job'', h.congr (hworkers.get?_of_ne (hworkerNe other hother))
        (hjobs.get?_of_ne (hjobNe other hother))⟩
  . refine hworkers.forall_mem ?_ ?_
    . intro jobId hjobId
      rw [hrunning] at hjobId
      injection hjobId with hjobId
      exact ⟨lease, (hmem lease).mpr (.inl rfl), hleaseWorker, hleaseJob.trans hjobId⟩
    . intro other hother _ jobId hjobId
      obtain ⟨l, hl, h⟩ := hinv.running other hother jobId hjobId
      exact ⟨l, (hmem l).mpr (.inr hl), h⟩
  . refine hworkers.forall_mem (fun h => absurd h hbusy) ?_
    intro other hother _
    exact hinv.idle other hother
  . exact hinv.oneWorker_puts hworkers (hinv.other_node hrow hrowNode)
  . refine hnodes.forall_mem ?_ ?_
    . have := hinv.conserved node (Table.mem_of_get? hnode)
      rw [Table.key_of_get? hnode, ← havailable] at this
      rw [hused, if_pos rfl, hcapacity, ← this]
      abel
    . intro other hother hne
      rw [hused, if_neg (Ne.symm hne), add_zero]
      exact hinv.conserved other hother
  . apply hnodes.forall_key hnode (p := (·.value < db'.nextId))
    intro other hother
    exact Nat.lt_of_lt_of_le (hinv.freshNode other hother) hle
  . apply hjobs.forall_key hjob (p := (·.value < db'.nextId))
    intro other hother
    exact Nat.lt_of_lt_of_le (hinv.freshJob other hother) hle
  . apply hworkers.forall_key hrow (p := (·.value < db'.nextId))
    intro other hother
    exact Nat.lt_of_lt_of_le (hinv.freshWorker other hother) hle
  . refine hleases.forall_mem hnext ?_
    intro other hother _
    exact Nat.lt_of_lt_of_le (hinv.freshLease other hother) hle
  . apply Keeps.puts_job hjobs
    intro stored hstored
    rw [hjob] at hstored
    injection hstored with hstored
    subst hstored
    exact ⟨hresources, htenant⟩
  . apply Keeps.puts_worker hworkers
    intro _
    exact ⟨row, hrow, hrowNode, hrowTenant⟩
  . intro id l hl hlt
    rw [hleases id] at hl
    split at hl
    . next heq =>
      rw [← heq] at hlt
      omega
    . exact ⟨l, hl, rfl, rfl, rfl⟩
  . rintro id ⟨stored, hstored, hactive, hnone⟩
    have hne : job'.id ≠ id := by
      intro heq
      exact hnone (heq ▸ hleased')
    rw [hjobs.get?_of_ne hne] at hstored
    rw [hleased id (Ne.symm hne)] at hnone
    exact ⟨stored, hstored, hactive, hnone⟩

theorem settle (hinv : Inv db) {lease : Lease} {node node' : Node} {job job' : Job}
    {row row' : WorkerRow} (hschema : Schema db') (hnodes : db.nodes.Puts node' db'.nodes)
    (hjobs : db.jobs.Puts job' db'.jobs) (hworkers : db.workers.Puts row' db'.workers)
    (hleases : ∀ other, other ∈ db'.leases.rows
      ↔ other ∈ db.leases.rows ∧ other.jobId ≠ job'.id)
    (hnext : db.nextId ≤ db'.nextId) (hlease : lease ∈ db.leases.rows)
    (hleaseJob : lease.jobId = job'.id) (hleaseWorker : lease.workerId = row'.id)
    (hnode : db.nodes.get? node'.id = some node) (hjob : db.jobs.get? job'.id = some job)
    (hrow : db.workers.get? row'.id = some row) (hon : row.nodeId = node'.id)
    (hcapacity : node'.capacity = node.capacity)
    (havailable : node'.available = node.available + job.resources)
    (hresources : job'.resources = job.resources) (htenant : job'.tenantId = job.tenantId)
    (hinactive : job'.status.isActive = false) (hrowNode : row'.nodeId = row.nodeId)
    (hrowTenant : row'.tenantId = row.tenantId) (hfree : row'.runningJobId = none)
    : Good db db' := by
  have hassigned : job.assignedNodeId = some node'.id := by
    have ⟨row'', job'', h⟩ := hinv.held lease hlease
    have hjob'' := h.hjob
    have hrow'' := h.hrow
    rw [hleaseJob, hjob] at hjob''
    rw [hleaseWorker, hrow] at hrow''
    injection hjob'' with hjob''
    injection hrow'' with hrow''
    rw [hjob'', h.assigned, ← hrow'', hon]
  have hleased : ∀ k, Leased db' k ↔ Leased db k ∧ k ≠ job'.id := by
    intro k
    constructor
    . intro ⟨other, hother, hkey⟩
      rw [hleases] at hother
      exact ⟨⟨other, hother.left, hkey⟩, hkey ▸ hother.right⟩
    . intro ⟨⟨other, hother, hkey⟩, hne⟩
      exact ⟨other, (hleases other).mpr ⟨hother, hkey ▸ hne⟩, hkey⟩
  have hleased' : Leased db job'.id := ⟨lease, hlease, hleaseJob⟩
  have hused : ∀ nodeId, used db nodeId
      = used db' nodeId + if node'.id = nodeId then job.resources else 0 := by
    intro nodeId
    apply used_of_lease _ _ _ hleased' hjob hassigned
    . intro k hk
      exact (hjobs.get?_of_ne (Ne.symm hk)).symm
    . intro k hk
      exact ((hleased k).trans (and_iff_left hk)).symm
    . intro h
      exact ((hleased _).mp h).right rfl
  have hrowMem : ∀ other ∈ db'.leases.rows, row'.id ≠ other.workerId := by
    intro other hother heq
    rw [hleases] at hother
    have := hinv.schema.uniqueWorker other hother.left lease hlease
      (heq.symm.trans hleaseWorker.symm)
    exact hother.right (this ▸ hleaseJob)
  refine ⟨⟨hschema, ?_, ?_, ?_, ?_, ?_, ?_, ?_, ?_, ?_⟩, ⟨hnext, ?_, ?_, ?_⟩, ?_⟩
  . intro other hother
    have hother' := (hleases other).mp hother
    have ⟨row'', job'', h⟩ := hinv.held other hother'.left
    exact ⟨row'', job'', h.congr (hworkers.get?_of_ne (hrowMem other hother))
      (hjobs.get?_of_ne (Ne.symm hother'.right))⟩
  . refine hworkers.forall_mem ?_ ?_
    . intro jobId hjobId
      rw [hfree] at hjobId
      contradiction
    . intro other hother hne jobId hjobId
      have ⟨l, hl, hlworker, hljob⟩ := hinv.running other hother jobId hjobId
      refine ⟨l, (hleases l).mpr ⟨hl, ?_⟩, hlworker, hljob⟩
      intro heq
      have := hinv.schema.uniqueJob l hl lease hlease (heq.trans hleaseJob.symm)
      rw [this, hleaseWorker] at hlworker
      exact hne hlworker.symm
  . refine hworkers.forall_mem (fun _ => hfree) ?_
    intro other hother _
    exact hinv.idle other hother
  . exact hinv.oneWorker_puts hworkers (hinv.other_node hrow hrowNode)
  . refine hnodes.forall_mem ?_ ?_
    . have := hinv.conserved node (Table.mem_of_get? hnode)
      rw [Table.key_of_get? hnode, hused, if_pos rfl] at this
      rw [hcapacity, ← this, havailable]
      abel
    . intro other hother hne
      have := hused other.id
      rw [if_neg (Ne.symm hne), add_zero] at this
      rw [← this]
      exact hinv.conserved other hother
  . apply hnodes.forall_key hnode (p := (·.value < db'.nextId))
    intro other hother
    exact Nat.lt_of_lt_of_le (hinv.freshNode other hother) hnext
  . apply hjobs.forall_key hjob (p := (·.value < db'.nextId))
    intro other hother
    exact Nat.lt_of_lt_of_le (hinv.freshJob other hother) hnext
  . apply hworkers.forall_key hrow (p := (·.value < db'.nextId))
    intro other hother
    exact Nat.lt_of_lt_of_le (hinv.freshWorker other hother) hnext
  . intro other hother
    exact Nat.lt_of_lt_of_le (hinv.freshLease other ((hleases other).mp hother).left) hnext
  . apply Keeps.puts_job hjobs
    intro stored hstored
    rw [hjob] at hstored
    injection hstored with hstored
    subst hstored
    exact ⟨hresources, htenant⟩
  . apply Keeps.puts_worker hworkers
    intro _
    exact ⟨row, hrow, hrowNode, hrowTenant⟩
  . intro id l hl _
    exact Keeps.leases_subset (fun other hother => ((hleases other).mp hother).left) id l hl
  . intro id ⟨stored, hstored, hactive, hnone⟩
    rw [hjobs id] at hstored
    split at hstored
    . injection hstored with hstored
      rw [← hstored, hinactive] at hactive
      contradiction
    . next hne =>
      refine ⟨stored, hstored, hactive, ?_⟩
      intro h
      exact hnone ((hleased id).mpr ⟨h, Ne.symm hne⟩)

theorem giveBack (hinv : Inv db) {lease : Lease} {row : WorkerRow} {job job' : Job} {node : Node}
    (copy : Node) (worker : Worker) (hlease : lease ∈ db.leases.rows) (hheld : Held db lease row job)
    (hnode : db.nodes.get? row.nodeId = some node) (hcopy : copy.id = node.id)
    (hcapacity : copy.capacity = node.capacity) (havailable : copy.available = node.available)
    (hworker : worker.id = lease.workerId) (hworkerNode : worker.node.id = row.nodeId)
    (hworkerTenant : worker.tenantId = row.tenantId) (hfree : worker.runningJob = none)
    (hjob : job'.id = lease.jobId) (hresources : job'.resources = job.resources)
    (htenant : job'.tenantId = job.tenantId) (hinactive : job'.status.isActive = false)
    (hschema : Schema db') (hnodes : db.nodes.Puts (copy.release job.resources) db'.nodes)
    (hjobs : db.jobs.Puts job' db'.jobs) (hworkers : db.workers.Puts worker.toRow db'.workers)
    (hleases : ∀ other, other ∈ db'.leases.rows
      ↔ other ∈ db.leases.rows ∧ ¬(other.jobId = lease.jobId ∧ other.tenantId = lease.tenantId))
    (hnext : db.nextId ≤ db'.nextId) : Good db db' := by
  have hid := Table.key_of_get? hnode
  have hrow : db.workers.get? worker.toRow.id = some row := by
    have := hheld.hrow
    rw [← hworker] at this
    exact this
  have hleases' : ∀ other, other ∈ db'.leases.rows
      ↔ other ∈ db.leases.rows ∧ other.jobId ≠ job'.id := by
    intro other
    rw [hleases, hjob]
    constructor
    . intro ⟨hmem, hnot⟩
      refine ⟨hmem, ?_⟩
      intro heq
      have := hinv.schema.uniqueJob other hmem lease hlease heq
      exact hnot ⟨heq, by rw [this]⟩
    . intro ⟨hmem, hne⟩
      exact ⟨hmem, fun hand => hne hand.left⟩
  have hnode' : db.nodes.get? (copy.release job.resources).id = some node := by
    have : (copy.release job.resources).id = row.nodeId := hcopy.trans hid
    rw [this]
    exact hnode
  have hjob' : db.jobs.get? job'.id = some job := by
    rw [hjob]
    exact hheld.hjob
  apply hinv.settle hschema hnodes hjobs hworkers hleases' hnext hlease hjob.symm hworker.symm hnode'
    hjob' hrow
  . rw [← hid, ← hcopy]
    rfl
  . exact hcapacity
  . have := hinv.fits hlease hheld hnode
    rw [← havailable, ← hcapacity] at this
    rw [Node.release_available this, havailable]
  . exact hresources
  . exact htenant
  . exact hinactive
  . exact hworkerNode
  . exact hworkerTenant
  . unfold Worker.toRow
    rw [hfree]
    rfl

end Inv

section removeNode

open PostgresNodeRepository

variable {db : DB} {nodeId : NodeId} {tenantId : TenantId}

def withoutNode (db : DB) (nodeId : NodeId) : DB :=
  { db with
    nodes := db.nodes.filter (·.id ≠ nodeId)
    workers := db.workers.filter (·.nodeId ≠ nodeId)
    leases := db.leases.filter (fun lease => !onNode db nodeId lease.workerId)
    jobs := db.jobs.modify (clearNode nodeId) (clearNode_id nodeId) }

theorem delete_eq (db : DB) (nodeId : NodeId) (tenantId : TenantId)
    : PostgresNodeRepository.delete db nodeId tenantId = db
        ∨ PostgresNodeRepository.delete db nodeId tenantId = withoutNode db nodeId := by
  unfold PostgresNodeRepository.delete
  split
  . exact .inl rfl
  . exact .inr rfl

theorem clearNode_of_ne {job : Job} (h : job.assignedNodeId ≠ some nodeId)
    : clearNode nodeId job = job := by
  unfold clearNode
  rw [if_neg h]

theorem clearNode_assignedNodeId_ne (job : Job) {other : NodeId}
    (h : job.assignedNodeId ≠ some other)
    : (clearNode nodeId job).assignedNodeId ≠ some other := by
  unfold clearNode
  split
  . simp
  . exact h

theorem onNode_eq {id : WorkerId} {row : WorkerRow} (h : db.workers.get? id = some row)
    : onNode db nodeId id = decide (row.nodeId = nodeId) := by
  unfold onNode
  rw [h]
  rfl

theorem mem_withoutNode_leases {lease : Lease}
    : lease ∈ (withoutNode db nodeId).leases.rows
        ↔
      lease ∈ db.leases.rows ∧ onNode db nodeId lease.workerId = false := by
  unfold withoutNode
  simp [Table.filter, List.mem_filter]

theorem get?_withoutNode_jobs (id : JobId)
    : (withoutNode db nodeId).jobs.get? id = (db.jobs.get? id).map (clearNode nodeId) := by
  unfold withoutNode
  rw [Table.get?_modify]

theorem get?_withoutNode_workers (id : WorkerId)
    : (withoutNode db nodeId).workers.get? id
        =
      (db.workers.get? id).filter (·.nodeId ≠ nodeId) := by
  unfold withoutNode
  rw [Table.get?_filter]

theorem used_withoutNode (hinv : Inv db) {other : NodeId} (hne : other ≠ nodeId)
    : used (withoutNode db nodeId) other = used db other := by
  apply used_congr
  intro id
  unfold Table.weight
  rw [get?_withoutNode_jobs]
  cases hjob : db.jobs.get? id with
  | none => rfl
  | some job =>
    have hid := Table.key_of_get? hjob
    simp only [Option.map_some, Option.elim_some]
    by_cases hassigned : job.assignedNodeId = some other
    . have hclear : job.assignedNodeId ≠ some nodeId := by
        rw [hassigned]
        simpa using hne
      have hleased : Leased (withoutNode db nodeId) job.id ↔ Leased db job.id := by
        constructor
        . intro ⟨lease, hlease, hkey⟩
          exact ⟨lease, (mem_withoutNode_leases.mp hlease).left, hkey⟩
        . intro ⟨lease, hlease, hkey⟩
          refine ⟨lease, mem_withoutNode_leases.mpr ⟨hlease, ?_⟩, hkey⟩
          have ⟨row, job', h⟩ := hinv.held lease hlease
          have hjob' := h.hjob
          rw [hkey, hid, hjob] at hjob'
          injection hjob' with hjob'
          have hassigned' := h.assigned
          rw [← hjob', hassigned] at hassigned'
          injection hassigned' with hassigned'
          rw [onNode_eq h.hrow, ← hassigned']
          simpa using hne
      rw [clearNode_of_ne hclear]
      simp only [demand, hleased]
    . rw [demand_of_not_assigned hassigned]
      rw [demand_of_not_assigned (clearNode_assignedNodeId_ne job hassigned)]

theorem Inv.withoutNode (hinv : Inv db) (hschema : Schema (withoutNode db nodeId))
    : Inv (withoutNode db nodeId) := by
  have hsub : ∀ row ∈ (AetherGrid.withoutNode db nodeId).workers.rows,
      row ∈ db.workers.rows ∧ row.nodeId ≠ nodeId := by
    intro row hrow
    simpa [AetherGrid.withoutNode, Table.filter, List.mem_filter] using hrow
  refine ⟨hschema, ?_, ?_, ?_, ?_, ?_, ?_, ?_, ?_, ?_⟩
  . intro lease hlease
    obtain ⟨hmem, hoff⟩ := mem_withoutNode_leases.mp hlease
    obtain ⟨row, job, h⟩ := hinv.held lease hmem
    rw [onNode_eq h.hrow, decide_eq_false_iff_not] at hoff
    refine ⟨row, job, h.congr ?_ ?_⟩
    . rw [get?_withoutNode_workers, h.hrow]
      simp [hoff]
    . rw [get?_withoutNode_jobs, h.hjob, Option.map_some, clearNode_of_ne]
      rw [h.assigned]
      simpa using hoff
  . intro row hrow jobId hjobId
    obtain ⟨hmem, hoff⟩ := hsub row hrow
    obtain ⟨lease, hlease, hworker, hjob⟩ := hinv.running row hmem jobId hjobId
    refine ⟨lease, mem_withoutNode_leases.mpr ⟨hlease, ?_⟩, hworker, hjob⟩
    rw [hworker, onNode_eq (db.workers.get?_key_of_mem hmem)]
    simpa using hoff
  . intro row hrow
    exact hinv.idle row (hsub row hrow).left
  . intro a ha b hb
    exact hinv.oneWorker a (hsub a ha).left b (hsub b hb).left
  . intro node hnode
    obtain ⟨hmem, hne⟩ : node ∈ db.nodes.rows ∧ node.id ≠ nodeId := by
      simpa [AetherGrid.withoutNode, Table.filter, List.mem_filter] using hnode
    rw [used_withoutNode hinv hne]
    exact hinv.conserved node hmem
  . intro node hnode
    exact hinv.freshNode node (List.mem_of_mem_filter hnode)
  . intro job hjob
    obtain ⟨job', hjob', heq⟩ := List.mem_map.mp hjob
    rw [← heq, clearNode_id]
    exact hinv.freshJob job' hjob'
  . intro row hrow
    exact hinv.freshWorker row (hsub row hrow).left
  . intro lease hlease
    exact hinv.freshLease lease (mem_withoutNode_leases.mp hlease).left

theorem Keeps.withoutNode (db : DB) (nodeId : NodeId) : Keeps db (withoutNode db nodeId) := by
  refine ⟨Nat.le_refl _, ?_, ?_, ?_⟩
  . intro id job hjob
    rw [get?_withoutNode_jobs, hjob]
    refine ⟨_, rfl, ?_⟩
    unfold clearNode
    split <;> simp
  . intro id row hrow _
    rw [get?_withoutNode_workers, Option.filter_eq_some_iff] at hrow
    exact ⟨row, hrow.left, rfl, rfl⟩
  . intro id lease hlease _
    exact Keeps.leases_subset (fun l hl => (mem_withoutNode_leases.mp hl).left) id lease hlease

def Vacant (db : DB) (nodeId : NodeId) : Prop :=
  ∀ lease ∈ db.leases.rows, onNode db nodeId lease.workerId →
    (db.jobs.get? lease.jobId).all (!·.status.isActive)

instance (db : DB) (nodeId : NodeId) : Decidable (Vacant db nodeId) :=
  inferInstanceAs (Decidable (∀ lease ∈ db.leases.rows, _))

theorem Stranded.of_withoutNode (hvacant : Vacant db nodeId) {id : JobId}
    (h : Stranded (withoutNode db nodeId) id) : Stranded db id := by
  obtain ⟨job', hjob', hactive, hnot⟩ := h
  rw [get?_withoutNode_jobs, Option.map_eq_some_iff] at hjob'
  obtain ⟨job, hjob, heq⟩ := hjob'
  have hstatus : job.status.isActive := by
    rw [← heq] at hactive
    unfold clearNode at hactive
    split at hactive <;> exact hactive
  refine ⟨job, hjob, hstatus, ?_⟩
  rintro ⟨lease, hlease, hkey⟩
  apply hnot
  refine ⟨lease, mem_withoutNode_leases.mpr ⟨hlease, ?_⟩, hkey⟩
  rw [← Bool.not_eq_true]
  intro hon
  have := hvacant lease hlease hon
  rw [hkey, hjob] at this
  simp [hstatus] at this

end removeNode

end AetherGrid
