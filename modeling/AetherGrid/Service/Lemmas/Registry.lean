import AetherGrid.Cluster.Handover
import AetherGrid.Service.Impl.Registry
import AetherGrid.Service.Lemmas.Lease

/-!
This module contains the proof that the services which create nodes, jobs and workers and which keep
them alive leave the stores in order.
-/

namespace AetherGrid

open Prog

variable {H : Env → Prop} {db : DB} {n : Nat}

theorem used_eq_zero (hschema : Schema db) {nodeId : NodeId} (h : db.nodes.get? nodeId = none)
    : used db nodeId = 0 := by
  apply Table.sum_eq_zero_of_weight
  intro id
  cases hjob : db.jobs.get? id with
  | none => exact Table.weight_of_none hjob
  | some job =>
    rw [Table.weight_of_get? hjob, demand_of_not_assigned]
    intro hassigned
    have := hschema.jobNode job (Table.mem_of_get? hjob)
    unfold PostgresJobRepository.assignedNodeSameTenant at this
    rw [hassigned, Option.all_some, h] at this
    contradiction

theorem not_leased_of_none (hschema : Schema db) {id : JobId} (h : db.jobs.get? id = none)
    : ¬Leased db id := by
  intro ⟨lease, hlease, hid⟩
  have := hschema.leaseJob lease hlease
  unfold PostgresLeaseRepository.jobSameTenant at this
  rw [hid, h] at this
  contradiction

theorem wp_createNode (hinv : Inv db) (capacity : ResourceRequirements) (tenant : TenantId)
    (name : Option String)
    : wp postgres H (lawful n) (createNode capacity tenant name) (fun _ db' => Good db db') db := by
  have hbump : Good db { db with nextId := db.nextId + 1 } :=
    hinv.bump rfl rfl rfl rfl (Nat.le_succ _)
  have hnone : db.nodes.get? ⟨db.nextId⟩ = none := by
    rw [Table.get?_eq_none_iff]
    intro node hnode hid
    have := hinv.freshNode node hnode
    rw [hid] at this
    exact Nat.lt_irrefl _ this
  unfold createNode
  refine wp_perform_bind rfl ?_
  intro env henv
  dsimp only [Call.exec]
  refine wp_perform_bind rfl ?_
  intro env henv
  dsimp only [Call.exec]
  refine wp_perform_bind rfl ?_
  intro env henv
  dsimp only [Call.exec]
  rw [wp_bind]
  apply wp_saveNode hbump.inv.schema
  . intro stored hstored
    have := hnone.symm.trans hstored
    contradiction
  . intro hschema
    apply hbump.trans
    apply hbump.inv.putNode hschema (Table.puts_upsert _ _) rfl rfl rfl rfl
    . exact Nat.lt_succ_self _
    . have := used_eq_zero hbump.inv.schema hnone
      dsimp only [Node.register]
      rw [this, add_zero]

theorem Job.new_eq_ok {id : JobId} {resources : ResourceRequirements} {tenant : TenantId}
    {command : Option (List String)} {now : Time} {job : Job}
    (h : Job.new id resources tenant command now = .ok job)
    : job.id = id
        ∧ job.assignedNodeId = none
        ∧ job.status = .submitted
        ∧ job.retryCount ≤ job.maxRetries := by
  unfold Job.new at h
  split at h
  . split at h
    . injection h with h
      subst h
      exact ⟨rfl, rfl, rfl, Nat.le_refl _⟩
    . contradiction
  . contradiction

theorem wp_createJob (hinv : Inv db) (resources : ResourceRequirements) (tenant : TenantId)
    (command : Option (List String))
    : wp postgres H (lawful n) (createJob resources tenant command) (fun _ db' => Good db db') db := by
  have hbump : Good db { db with nextId := db.nextId + 1 } :=
    hinv.bump rfl rfl rfl rfl (Nat.le_succ _)
  have hnone : db.jobs.get? ⟨db.nextId⟩ = none := by
    rw [Table.get?_eq_none_iff]
    intro job hjob hid
    have := hinv.freshJob job hjob
    rw [hid] at this
    exact Nat.lt_irrefl _ this
  unfold createJob
  refine wp_perform_bind rfl ?_
  intro env henv
  dsimp only [Call.exec]
  refine wp_perform_bind rfl ?_
  intro env henv
  dsimp only [Call.exec]
  rw [wp_bind, wp_ofExcept]
  split
  . next job hnew =>
    have ⟨hid, hassigned, hsubmitted, hbudget⟩ := Job.new_eq_ok hnew
    rw [wp_bind, wp_runCommand]
    cases hrun : Job.queue.run job with
    | error e job' => exact hbump
    | ok _ job' =>
      have hmoves := Job.queue_moves hrun hsubmitted
      have hid' : job'.id = ⟨db.nextId⟩ := hmoves.id.trans hid
      have hnone' : db.jobs.get? job'.id = none := by
        rw [hid']
        exact hnone
      dsimp only
      rw [wp_bind]
      apply wp_saveJob hbump.inv.schema
      . intro stored hstored
        have := hnone'.symm.trans hstored
        contradiction
      . unfold PostgresJobRepository.assignedNodeSameTenant
        rw [hmoves.assignedNodeId, hassigned]
        rfl
      . dsimp only [lawful]
        rw [hnone']
        exact hmoves.becomes.budget hbudget
      . intro hschema
        have hput := hbump.inv.putJob hschema rfl (Table.puts_upsert _ job') rfl rfl rfl
          (by rw [hid']; exact Nat.lt_succ_self _)
          (by
            intro stored hstored
            have := hnone'.symm.trans hstored
            contradiction)
          (by
            intro hleased
            exact absurd hleased (not_leased_of_none hbump.inv.schema hnone'))
          (by
            intro hactive
            rw [hmoves.status] at hactive
            contradiction)
        dsimp only
        rw [wp_bind]
        apply wp_recordForJob (Table.get?_upsert_self _ job') rfl
        intro events
        apply (hbump.trans hput).trans
        exact hput.inv.bump rfl rfl rfl rfl (Nat.le_succ _)
  . exact hbump

theorem wp_touchNode (hinv : Inv db) {node node' : Node} (hnode : db.nodes.get? node'.id = some node)
    (htenant : node'.tenantId = node.tenantId) (havailable : node'.available = node.available)
    (hcapacity : node'.capacity = node.capacity) {Q : Except Err Unit → DB → Prop}
    (h : Good db { db with nodes := db.nodes.upsert node' }
      → Q (.ok ()) { db with nodes := db.nodes.upsert node' })
    : wp postgres H (lawful n) (NodeRepository.save node') Q db := by
  apply wp_saveNode hinv.schema
  . intro stored hstored
    rw [hnode] at hstored
    injection hstored with hstored
    rw [← hstored, htenant]
  . intro hschema
    apply h
    exact hinv.touchNode hnode havailable hcapacity hschema

theorem wp_touchWorker (hinv : Inv db) {worker : Worker} (worker' : Worker)
    (hworker : db.workers.get? worker.id = some worker.toRow)
    (hid : worker'.id = worker.id) (hnode : worker'.node = worker.node)
    (hrunning : worker'.runningJob.map (·.id) = worker.runningJob.map (·.id))
    (hidle : worker'.status = .idle → worker'.runningJob = none) {Q : Except Err Unit → DB → Prop}
    (h : Good db { db with workers := db.workers.upsert worker'.toRow }
      → Q (.ok ()) { db with workers := db.workers.upsert worker'.toRow })
    : wp postgres H (lawful n) (WorkerRepository.save worker') Q db := by
  have hmem := Table.mem_of_get? hworker
  have hrow : db.workers.get? worker'.toRow.id = some worker.toRow := by
    rw [← hid] at hworker
    exact hworker
  have htenant : worker'.tenantId = worker.tenantId := by
    unfold Worker.tenantId
    rw [hnode]
  have hnodeId : worker'.toRow.nodeId = worker.toRow.nodeId := by
    unfold Worker.toRow
    rw [hnode]
  have hrunning' : worker'.toRow.runningJobId = worker.toRow.runningJobId := hrunning
  apply wp_saveWorker hinv.schema
  . intro row hstored
    have := hrow.symm.trans hstored
    injection this with this
    rw [← this, htenant]
    rfl
  . have := hinv.schema.workerNode worker.toRow hmem
    unfold PostgresWorkerRepository.nodeSameTenant at this ⊢
    rw [hnodeId]
    have htenant' : worker'.toRow.tenantId = worker.toRow.tenantId := htenant
    rw [htenant']
    exact this
  . have := hinv.schema.workerJob worker.toRow hmem
    unfold PostgresWorkerRepository.runningJobSameTenant at this ⊢
    have htenant' : worker'.toRow.tenantId = worker.toRow.tenantId := htenant
    rw [hrunning', htenant']
    exact this
  . intro hschema
    apply h
    apply hinv.touchWorker hrow hnodeId htenant hrunning' _ hschema
    intro hstatus
    have := hidle hstatus
    unfold Worker.toRow
    rw [this]
    rfl

theorem wp_heartbeatNode (hinv : Inv db) (id : NodeId) (tenant : TenantId)
    : wp postgres H (lawful n) (heartbeatNode id tenant) (fun _ db' => Good db db') db := by
  unfold heartbeatNode
  refine wp_perform_bind rfl ?_
  intro env henv
  dsimp only [Call.exec]
  split
  . exact Good.refl hinv
  . next node hnode =>
    have ⟨hget, _⟩ := PostgresNodeRepository.getById_eq_some hnode
    refine wp_perform_bind rfl ?_
    intro env henv
    have hnode' : db.nodes.get? (node.heartbeat env.now).id = some node :=
      db.nodes.get?_key_of_mem (Table.mem_of_get? hget)
    rw [wp_bind]
    exact wp_touchNode hinv hnode' rfl rfl rfl (fun h => h)

theorem wp_drainNode (hinv : Inv db) (id : NodeId) (tenant : TenantId)
    : wp postgres H (lawful n) (drainNode id tenant) (fun _ db' => Good db db') db := by
  unfold drainNode
  refine wp_perform_bind rfl ?_
  intro env henv
  dsimp only [Call.exec]
  split
  . exact Good.refl hinv
  . next node hnode =>
    have ⟨hget, _⟩ := PostgresNodeRepository.getById_eq_some hnode
    have hnode' : db.nodes.get? node.drain.id = some node :=
      db.nodes.get?_key_of_mem (Table.mem_of_get? hget)
    rw [wp_bind]
    exact wp_touchNode hinv hnode' rfl rfl rfl (fun h => h)

theorem wp_workerHeartbeat (hinv : Inv db) (id : WorkerId) (tenant : TenantId)
    : wp postgres H (lawful n) (workerHeartbeat id tenant) (fun _ db' => Good db db') db := by
  unfold workerHeartbeat
  refine wp_perform_bind rfl ?_
  intro env henv
  dsimp only [Call.exec]
  split
  . exact Good.refl hinv
  . next worker hworker =>
    have ⟨hcurrent, _, _⟩ := PostgresWorkerRepository.getById_eq_some hinv.schema hworker
    split
    . exact Good.refl hinv
    . refine wp_perform_bind rfl ?_
      intro env henv
      dsimp only [Call.exec]
      rw [wp_bind]
      have hsame : (worker.heartbeat env.now).id = worker.id
          ∧ (worker.heartbeat env.now).node = worker.node
          ∧ (worker.heartbeat env.now).runningJob = worker.runningJob := by
        unfold Worker.heartbeat
        split <;> exact ⟨rfl, rfl, rfl⟩
      apply wp_touchWorker hinv _ hcurrent.row hsame.1 hsame.2.1 (by rw [hsame.2.2]) _ (fun h => h)
      -- a heartbeat makes a worker idle only when it holds no job
      intro hidle
      rw [hsame.2.2]
      unfold Worker.heartbeat at hidle
      split at hidle
      . next hoffline => exact hoffline.right
      . have := hinv.idle worker.toRow (Table.mem_of_get? hcurrent.row) hidle
        exact Option.map_eq_none_iff.mp this

theorem wp_registerWorker (hinv : Inv db) {worker : Worker}
    (hrow : db.workers.get? worker.id = some worker.toRow) (hfree : worker.runningJob = none)
    : wp postgres H (lawful n) (registerWorker worker) (fun _ db' => Good db db') db := by
  unfold registerWorker
  dsimp only
  rw [wp_bind]
  apply wp_touchWorker hinv worker.ready hrow rfl rfl rfl (fun _ => hfree)
  intro hgood
  refine wp_perform_bind rfl ?_
  intro env henv
  dsimp only [Call.exec]
  split <;> exact hgood

theorem wp_createWorker_existing [Releasing] (hinv : Inv db) {node : Node} (hnode : db.nodes.get? node.id = some node)
    {worker : Worker} (hworker : Current db worker) (hon : worker.node.id = node.id)
    (managedBy : WorkerManagement) {job : Job} (hjob : worker.runningJob = some job)
    : wp postgres H (lawful n)
        (do
          let _ ← reclaimJob job (some node)
          WorkerRepository.save { worker.recover with managedBy := managedBy })
        (fun r db' => r = .ok ()
          ∧ Good db db'
          ∧ db'.workers = db.workers.upsert { worker.recover with managedBy := managedBy }.toRow)
        db := by
  have ⟨lease, hlease, hleaseWorker, hleaseJob, hleaseTenant, hheld⟩ :=
    hinv.held_of_current hworker hjob
  have hstored := hworker.job job hjob
  have hnodeTenant : node.tenantId = worker.tenantId := by
    have ⟨node', hnode', htenant⟩ := hworker.node_tenantId
    rw [hon, hnode] at hnode'
    injection hnode' with hnode'
    rw [hnode', htenant]
  have hnode' : db.nodes.get? worker.toRow.nodeId = some node := by
    have : worker.toRow.nodeId = node.id := hon
    rw [this]
    exact hnode
  rw [wp_bind]
  apply wp_reclaimJob hinv.schema hstored rfl
  . intro n hn n' hn'
    injection hn with hn
    rw [← hn, hnode] at hn'
    injection hn' with hn'
    rw [← hn', ← hn]
  . intro n hn
    injection hn with hn
    rw [← hn]
    exact releases_of_le (hinv.fits hlease hheld hnode')
  . intro db' now job' hjobs hleases hrun
    exact lawful_reclaim hstored hjobs (not_leased_delete hinv.schema hstored rfl hleases) hrun
  . intro jobs' reclaimed hreclaimed db1 hschema1
    have ⟨job', hputs, hid, hresources, htenant, hinactive⟩ := hreclaimed.puts hstored
    dsimp only
    apply wp_saveWorker hschema1
    . intro row hrow
      have := hworker.row.symm.trans hrow
      injection this with this
      rw [← this]
      rfl
    . unfold PostgresWorkerRepository.nodeSameTenant
      have hid' : (node.release job.resources).id = worker.node.id := hon.symm
      have : db1.nodes.get? worker.node.id = some (node.release job.resources) :=
        Table.get?_upsert_of_eq _ hid'
      simp only [Worker.toRow, Worker.recover, this, Option.any_some]
      exact decide_eq_true hnodeTenant
    . rfl
    . intro hschema2
      refine ⟨rfl, ?_, rfl⟩
      apply hinv.giveBack node { worker.recover with managedBy := managedBy } hlease hheld hnode' rfl
        rfl rfl hleaseWorker.symm rfl rfl rfl (hid.trans hleaseJob.symm) hresources htenant hinactive
        hschema2 (Table.puts_upsert _ _) hputs (Table.puts_upsert _ _)
      . intro other
        rw [hleaseJob, hleaseTenant]
        exact PostgresLeaseRepository.mem_delete
      . exact Nat.le_refl _

theorem wp_createWorker [Releasing] (hinv : Inv db) {node : Node} (hnode : db.nodes.get? node.id = some node)
    (managedBy : WorkerManagement)
    : wp postgres H (lawful n) (createWorker node managedBy)
        (fun r db' => Good db db' ∧ ∀ worker, r = .ok worker →
          db'.workers.get? worker.id = some worker.toRow ∧ worker.runningJob = none) db := by
  unfold createWorker
  refine wp_perform_bind rfl ?_
  intro env henv
  dsimp only [Call.exec]
  split
  . next worker hworker =>
    obtain ⟨hcurrent, hon, _⟩ := PostgresWorkerRepository.getByNodeId_eq_some hinv.schema hworker
    have hdone : ∀ db', Good db db' →
        db'.workers = db.workers.upsert { worker.recover with managedBy := managedBy }.toRow →
        Good db db' ∧ ∀ worker',
          (.ok { worker.recover with managedBy := managedBy } : Except Err Worker) = .ok worker' →
          db'.workers.get? worker'.id = some worker'.toRow ∧ worker'.runningJob = none := by
      intro db' hgood hworkers
      refine ⟨hgood, ?_⟩
      intro worker' heq
      injection heq with heq
      subst heq
      rw [hworkers]
      exact ⟨Table.get?_upsert_self _ _, rfl⟩
    split
    . next job hjob =>
      have := wp_createWorker_existing (H := H) (n := n) hinv hnode hcurrent hon managedBy hjob
      rw [wp_bind] at this
      simp only [wp_bind]
      apply wp_mono this
      intro r db' h
      cases r with
      | error e =>
        have := h.left
        contradiction
      | ok _ =>
        apply wp_mono h
        rintro r' db'' ⟨hr, hgood, hworkers⟩
        subst hr
        exact hdone db'' hgood hworkers
    . next hnone =>
      have hfree : worker.runningJob = none := by
        cases hjob : worker.runningJob with
        | none => rfl
        | some job => exact absurd hjob (hnone job)
      rw [wp_bind]
      apply wp_touchWorker hinv { worker.recover with managedBy := managedBy } hcurrent.row rfl rfl
        (by rw [hfree]; rfl) (fun _ => rfl)
      intro hgood
      exact hdone _ hgood rfl
  . next hnone =>
    have hnobody := PostgresWorkerRepository.getByNodeId_eq_none hinv.schema hnone
    refine wp_perform_bind rfl ?_
    intro env henv
    refine wp_perform_bind rfl ?_
    intro env henv
    dsimp only [Call.exec]
    have hfresh : db.workers.get? ⟨db.nextId⟩ = none := by
      rw [Table.get?_eq_none_iff]
      intro row hrow hid
      have := hinv.freshWorker row hrow
      rw [hid] at this
      exact Nat.lt_irrefl _ this
    have hbump : Good db { db with nextId := db.nextId + 1 } :=
      hinv.bump rfl rfl rfl rfl (Nat.le_succ _)
    rw [wp_bind]
    apply wp_saveWorker hbump.inv.schema
    . intro row hrow
      have := hfresh.symm.trans hrow
      contradiction
    . unfold PostgresWorkerRepository.nodeSameTenant
      simp only [Worker.toRow, Worker.ready, Worker.tenantId, hnode, Option.any_some, decide_true]
    . rfl
    . intro hschema
      refine ⟨?_, ?_⟩
      . apply hinv.putWorker hschema rfl rfl (Table.puts_upsert _ _) rfl (Nat.le_succ _)
        . exact Nat.lt_succ_self _
        . intro row hrow
          have := hfresh.symm.trans hrow
          contradiction
        . intro _
          refine ⟨Nat.le_refl _, rfl, ?_⟩
          intro row hrow heq
          apply hnobody row hrow
          refine ⟨heq, ?_⟩
          have := hinv.schema.workerNode row hrow
          unfold PostgresWorkerRepository.nodeSameTenant at this
          have heq' : row.nodeId = node.id := heq
          rw [heq', hnode, Option.any_some, decide_eq_true_eq] at this
          exact this.symm
        . intro _
          rfl
      . intro worker heq
        injection heq with heq
        subst heq
        exact ⟨Table.get?_upsert_self _ _, rfl⟩

theorem wp_postWorkers [Releasing] (hinv : Inv db) (id : NodeId) (tenant : TenantId)
    (managedBy : WorkerManagement)
    : wp postgres H (lawful n) (postWorkers id tenant managedBy) (fun _ db' => Good db db') db := by
  unfold postWorkers
  refine wp_perform_bind rfl ?_
  intro env henv
  dsimp only [Call.exec]
  split
  . exact Good.refl hinv
  . next node hnode =>
    have ⟨hget, _⟩ := PostgresNodeRepository.getById_eq_some hnode
    have hnode' := db.nodes.get?_key_of_mem (Table.mem_of_get? hget)
    rw [wp_bind]
    apply wp_mono (wp_createWorker hinv hnode' managedBy)
    intro r db' ⟨hgood, hworker⟩
    cases r with
    | error e => exact hgood
    | ok worker =>
      have ⟨hrow, hfree⟩ := hworker worker rfl
      apply wp_mono (wp_registerWorker hgood.inv hrow hfree)
      intro _ db'' hgood'
      exact hgood.trans hgood'

theorem wp_removeOfflineNode (hinv : Inv db) (id : NodeId) (tenant : TenantId)
    : wp postgres H (lawful n) (removeOfflineNode id tenant)
        (fun _ db' => Inv db'
          ∧ Keeps db db'
          ∧ (Vacant db id → ∀ jobId, Stranded db' jobId → Stranded db jobId)) db := by
  have hrefl : Inv db ∧ Keeps db db
      ∧ (Vacant db id → ∀ jobId, Stranded db jobId → Stranded db jobId) :=
    ⟨hinv, .refl db, fun _ _ h => h⟩
  unfold removeOfflineNode
  refine wp_perform_bind rfl ?_
  intro env henv
  dsimp only [Call.exec]
  split
  . exact hrefl
  . refine wp_perform_bind rfl ?_
    intro env henv
    dsimp only [Call.exec]
    split
    . exact hrefl
    . refine wp_performCall rfl ?_
      intro env henv
      have hschema := hinv.schema.deleteNode id tenant
      dsimp only [Call.exec]
      cases delete_eq db id tenant with
      | inl heq =>
        rw [heq]
        exact hrefl
      | inr heq =>
        rw [heq] at hschema ⊢
        exact ⟨hinv.withoutNode hschema, .withoutNode db id,
          fun hvacant _ h => h.of_withoutNode hvacant⟩

end AetherGrid
