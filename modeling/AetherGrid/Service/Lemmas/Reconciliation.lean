import AetherGrid.Service.Impl.Reconciliation
import AetherGrid.Service.Lemmas.Registry

/-!
This module contains the proof that the reconciliation services leave the stores in order.
-/

namespace AetherGrid

open Prog

variable {H : Env → Prop} {db : DB} {n : Nat}

namespace MarkDeadWorkers

theorem wp_mark (hinv : Inv db) {worker : Worker}
    (hrow : db.workers.get? worker.id = some worker.toRow) {Q : Except Err PUnit → DB → Prop}
    (h : ∀ db', Good db db' → (∀ id ≠ worker.id, db'.workers.get? id = db.workers.get? id) →
      Q (.ok ⟨⟩) db')
    : wp postgres H (lawful n) (mark worker) Q db := by
  unfold mark
  refine wp_perform_bind rfl ?_
  intro env henv
  dsimp only [Call.exec]
  split
  . exact h db (Good.refl hinv) (fun _ _ => rfl)
  . apply wp_touchWorker hinv worker.offline hrow rfl rfl rfl
    . intro hidle
      contradiction
    . intro hgood
      apply h _ hgood
      intro id hid
      have hne : worker.offline.toRow.id ≠ id := Ne.symm hid
      exact Table.get?_upsert_of_ne _ hne

theorem wp_execute (hinv : Inv db)
    : wp postgres H (lawful n) execute (fun r db' => r = .ok ⟨⟩ ∧ Good db db') db := by
  unfold execute
  refine wp_perform_bind rfl ?_
  intro env henv
  dsimp only [Call.exec]
  apply wp_forM (fun workers db' => Good db db'
    ∧ (workers.map (·.id)).Nodup
    ∧ ∀ worker ∈ workers, db'.workers.get? worker.id = some worker.toRow)
  . refine ⟨Good.refl hinv, PostgresWorkerRepository.nodup_list hinv.schema, ?_⟩
    intro worker hworker
    exact (PostgresWorkerRepository.current_of_mem_list hinv.schema hworker).row
  . intro worker workers db' ⟨hgood, hnodup, hrows⟩
    rw [List.map_cons, List.nodup_cons] at hnodup
    apply wp_mark hgood.inv (hrows worker List.mem_cons_self)
    intro db'' hgood' hothers
    refine ⟨hgood.trans hgood', hnodup.right, ?_⟩
    intro other hother
    rw [hothers]
    . exact hrows other (List.mem_cons_of_mem _ hother)
    . intro heq
      apply hnodup.left
      rw [← heq]
      exact List.mem_map_of_mem hother
  . intro db' ⟨hgood, _⟩
    exact ⟨rfl, hgood⟩

end MarkDeadWorkers

structure Recovered (db db' : DB) (worker : Worker) (job : Job) (node : Option Node) : Prop where
  schema : Schema db'
  nodes : db'.nodes = releasedNodes db.nodes node job
  jobs : Reclaimed job db.jobs db'.jobs
  workers : db'.workers = db.workers.upsert worker.recover.toRow
  nextId : db.nextId ≤ db'.nextId

section recovered

variable {db' : DB} {lease : Lease} {worker : Worker} {job : Job} {node : Node}

theorem wp_reclaimRecord [Releasing] {G : DB → Call → Prop} [Lenient G] {stored : Job} {node : Option Node}
    {deleted : Bool} (hschema : Schema db) (hjob : db.jobs.get? job.id = some stored)
    (htenant : stored.tenantId = job.tenantId)
    (hnode : ∀ n, node = some n → ∀ n', db.nodes.get? n.id = some n' → n'.tenantId = n.tenantId)
    (hreleases : ∀ n, node = some n → Releases n job)
    (hguard : ∀ db' now job', db'.jobs = db.jobs →
      db'.leases = (if deleted then db else
        PostgresLeaseRepository.delete db job.id job.tenantId).leases →
      (Job.reclaim now).run job = .ok () job' → G db' (.saveJob job'))
    (type : EventType) {Q : Except Err PUnit → DB → Prop}
    (h : ∀ jobs' events nextId, Reclaimed job db.jobs jobs' → db.nextId ≤ nextId →
      let db' :=
        { (if deleted then db else PostgresLeaseRepository.delete db job.id job.tenantId) with
          nodes := releasedNodes db.nodes node job
          jobs := jobs'
          events := events
          nextId := nextId }
      Schema db' → Q (.ok ⟨⟩) db')
    : wp postgres H G
        (do
          let reclaimed ← reclaimJob job node deleted
          if reclaimed then
            RecordJobEventsService.recordForJob job type) Q db := by
  rw [wp_bind]
  apply wp_reclaimJob hschema hjob htenant hnode hreleases hguard
  intro jobs' reclaimed hreclaimed db1 hschema1
  have hnext : db1.nextId = db.nextId := by
    dsimp only [db1]
    split <;> rfl
  dsimp only
  split
  . have ⟨job', hget, htenant'⟩ : ∃ job', db1.jobs.get? job.id = some job'
        ∧ job'.tenantId = job.tenantId := by
      cases hreclaimed with
      | inl hsame =>
        have hjobs : db1.jobs = db.jobs := hsame.right
        exact ⟨stored, by rw [hjobs]; exact hjob, htenant⟩
      | inr hmoved =>
        have ⟨job', _, hmoves, _, heq⟩ := hmoved
        have hjobs : db1.jobs = db.jobs.upsert job' := heq
        refine ⟨job', ?_, hmoves.tenantId⟩
        rw [hjobs]
        exact Table.get?_upsert_of_eq _ hmoves.id
    apply wp_recordForJob hget htenant'
    intro events
    exact h jobs' events _ hreclaimed (by omega) (hschema1.congr rfl rfl rfl rfl)
  . exact h jobs' db1.events db1.nextId hreclaimed (Nat.le_of_eq hnext.symm) hschema1

structure Reclaims (db db' : DB) (worker : Worker) (job : Job) : Prop where
  good : Good db db'
  nodes : ∀ id ≠ worker.node.id, db'.nodes.get? id = db.nodes.get? id
  jobs : ∀ id ≠ job.id, db'.jobs.get? id = db.jobs.get? id
  workers : ∀ id ≠ worker.id, db'.workers.get? id = db.workers.get? id

theorem Recovered.reclaims {copy : Node} (h : Recovered db db' worker job (some copy)) (hinv : Inv db)
    (hlease : lease ∈ db.leases.rows) (hheld : Held db lease worker.toRow job)
    (hid : lease.workerId = worker.id) (hnode : db.nodes.get? worker.node.id = some node)
    (hcopy : copy.id = node.id) (hcapacity : copy.capacity = node.capacity)
    (havailable : copy.available = node.available)
    (hleases : ∀ other, other ∈ db'.leases.rows
      ↔ other ∈ db.leases.rows ∧ ¬(other.jobId = lease.jobId ∧ other.tenantId = lease.tenantId))
    : Reclaims db db' worker job := by
  have hjobId : job.id = lease.jobId := Table.key_of_get? hheld.hjob
  have hjob : db.jobs.get? job.id = some job := by
    rw [hjobId]
    exact hheld.hjob
  have hnodeId : node.id = worker.node.id := Table.key_of_get? hnode
  have ⟨job', hputs, hid', hresources, htenant', hinactive⟩ := h.jobs.puts hjob
  have hnodes : db.nodes.Puts (copy.release job.resources) db'.nodes := by
    rw [h.nodes]
    apply Table.puts_upsert
  have hworkers : db.workers.Puts worker.recover.toRow db'.workers := by
    rw [h.workers]
    apply Table.puts_upsert
  refine ⟨?_, ?_, ?_, ?_⟩
  . exact hinv.giveBack copy worker.recover hlease hheld hnode hcopy hcapacity havailable hid.symm
      rfl rfl rfl (hid'.trans hjobId) hresources htenant' hinactive h.schema hnodes hputs hworkers
      hleases h.nextId
  . intro id hne
    exact hnodes.get?_of_ne (fun heq => hne (heq.symm.trans (hcopy.trans hnodeId)))
  . intro id hne
    exact hputs.get?_of_ne (fun heq => hne (heq.symm.trans hid'))
  . intro id hne
    exact hworkers.get?_of_ne (Ne.symm hne)

end recovered

theorem mem_deleteIfExpired_of_true (hschema : Schema db) {env : Env} {lease : Lease}
    {jobId : JobId} {tenant : TenantId} (hlease : lease ∈ db.leases.rows)
    (hjobId : lease.jobId = jobId) (htenant : lease.tenantId = tenant)
    (h : (PostgresLeaseRepository.deleteIfExpired env db jobId tenant).1 = true) (other : Lease)
    : other ∈ (PostgresLeaseRepository.deleteIfExpired env db jobId tenant).2.leases.rows
        ↔
      other ∈ db.leases.rows ∧ ¬(other.jobId = lease.jobId ∧ other.tenantId = lease.tenantId) := by
  subst hjobId htenant
  rw [PostgresLeaseRepository.deleteIfExpired_eq_true_iff] at h
  have ⟨expired, hexpired, hjob, _, htime⟩ := h
  have heq := hschema.uniqueJob expired hexpired lease hlease hjob
  subst heq
  rw [PostgresLeaseRepository.mem_deleteIfExpired]
  constructor
  . intro ⟨hmem, hnot⟩
    refine ⟨hmem, ?_⟩
    intro ⟨hjob', htenant'⟩
    have := hschema.uniqueJob other hmem expired hexpired hjob'
    rw [this] at hnot
    exact hnot ⟨rfl, rfl, htime⟩
  . intro ⟨hmem, hnot⟩
    exact ⟨hmem, fun hand => hnot ⟨hand.left, hand.right.left⟩⟩

theorem not_leased_of_taken (hschema : Schema db) {db' : DB} {lease : Lease} {jobId : JobId}
    (hlease : lease ∈ db.leases.rows) (hjobId : jobId = lease.jobId)
    (hleases : ∀ other, other ∈ db'.leases.rows
      ↔ other ∈ db.leases.rows ∧ ¬(other.jobId = lease.jobId ∧ other.tenantId = lease.tenantId))
    : ¬Leased db' jobId := by
  rintro ⟨other, hother, hid⟩
  obtain ⟨hmem, hnot⟩ := (hleases other).mp hother
  have heq := hschema.uniqueJob other hmem lease hlease (hid.trans hjobId)
  rw [heq] at hnot
  exact hnot ⟨rfl, rfl⟩

theorem wp_takeExpired {G : DB → Call → Prop} [Lenient G] (hschema : Schema db) {lease : Lease}
    {jobId : JobId} {tenant : TenantId} (hlease : lease ∈ db.leases.rows)
    (hjobId : lease.jobId = jobId) (htenant : lease.tenantId = tenant) {taken : Service Unit}
    {Q : Except Err PUnit → DB → Prop}
    (hkeep : ∀ env, H env → env.now ≤ lease.expiresAt → Q (.ok ⟨⟩) db)
    (htake : ∀ env db1, H env → lease.expiresAt < env.now → Schema db1 → db1.nodes = db.nodes →
      db1.jobs = db.jobs → db1.workers = db.workers → db1.nextId = db.nextId →
      (∀ other, other ∈ db1.leases.rows
        ↔ other ∈ db.leases.rows
          ∧ ¬(other.jobId = lease.jobId ∧ other.tenantId = lease.tenantId)) →
      wp postgres H G taken Q db1)
    : wp postgres H G
        (do
          let now ← utcNow
          if !lease.isExpired now then
            return
          else if !(← LeaseRepository.deleteIfExpired jobId tenant) then
            return
          else
            taken) Q db := by
  refine wp_perform_bind rfl ?_
  intro env henv
  dsimp only [Call.exec]
  split
  . next hnot =>
    apply hkeep env henv
    unfold Lease.isExpired at hnot
    simp only [Bool.not_eq_eq_eq_not, Bool.not_true, decide_eq_false_iff_not] at hnot
    exact Int.le_of_lt (Int.not_le.mp hnot)
  . refine wp_perform_bind rfl ?_
    intro env henv
    dsimp only [Call.exec]
    cases hdeleted : (PostgresLeaseRepository.deleteIfExpired env db jobId tenant).1 with
    | false =>
      -- another caller renewed the lease between the read and the delete
      rw [deleteIfExpired_of_false hdeleted]
      apply hkeep env henv
      rw [← Bool.not_eq_true, PostgresLeaseRepository.deleteIfExpired_eq_true_iff] at hdeleted
      apply Int.not_lt.mp
      intro hlt
      exact hdeleted ⟨lease, hlease, hjobId, htenant, hlt⟩
    | true =>
      have hschema1 := hschema.exec (.deleteLeaseIfExpired jobId tenant) env
      have hleases := mem_deleteIfExpired_of_true hschema hlease hjobId htenant hdeleted
      simp only [Bool.not_true, Bool.false_eq_true, if_false]
      apply htake env _ henv _ hschema1 rfl rfl rfl rfl hleases
      rw [PostgresLeaseRepository.deleteIfExpired_eq_true_iff] at hdeleted
      obtain ⟨other, hother, hjob, _, hlt⟩ := hdeleted
      rw [← hschema.uniqueJob other hother lease hlease (hjob.trans hjobId.symm)]
      exact hlt

theorem getWorker_of_lease (env : Env) {db1 : DB} (hschema : Schema db) {lease : Lease}
    (hlease : lease ∈ db.leases.rows) (hnodes : db1.nodes = db.nodes) (hjobs : db1.jobs = db.jobs)
    (hworkers : db1.workers = db.workers)
    : ∃ worker,
        PostgresWorkerRepository.getById env db1 lease.workerId lease.tenantId = some worker
          ∧ Current db worker
          ∧ worker.id = lease.workerId := by
  have ⟨row, hrow, htenant⟩ := hschema.worker_of_lease hlease
  have hmem := Table.mem_of_get? hrow
  have ⟨worker, hentity⟩ : ∃ worker, PostgresWorkerRepository.toEntity env db row = some worker :=
    PostgresWorkerRepository.toEntity_isSome hschema hmem
  have ⟨hcurrent, htoRow⟩ := PostgresWorkerRepository.toEntity_eq_some hschema hmem hentity
  refine ⟨worker, ?_, hcurrent, ?_⟩
  . unfold PostgresWorkerRepository.getById
    rw [hworkers, hrow, Option.filter_some, if_pos (decide_eq_true htenant), Option.bind_some]
    unfold PostgresWorkerRepository.toEntity at hentity ⊢
    rw [hnodes, hjobs]
    exact hentity
  . have := Table.key_of_get? hrow
    rw [← htoRow] at this
    exact this

namespace RecoverExpiredLease

theorem assignedNode_eq (hschema : Schema db) {job : Job} {tenant : TenantId} {nodeId : NodeId}
    (hjob : job ∈ db.jobs.rows) (htenant : job.tenantId = tenant)
    (hassigned : job.assignedNodeId = some nodeId)
    : PostgresNodeRepository.getById db nodeId tenant = db.nodes.get? nodeId := by
  have := hschema.jobNode job hjob
  unfold PostgresJobRepository.assignedNodeSameTenant at this
  rw [hassigned, Option.all_some, Option.any_eq_true] at this
  have ⟨node, hnode, hnodeTenant⟩ := this
  unfold PostgresNodeRepository.getById
  rw [hnode, Option.filter_some, if_pos]
  rw [← htenant]
  exact hnodeTenant

theorem wp_reclaim [Releasing] {G : DB → Call → Prop} [Lenient G] {worker : Worker} {job : Job}
    {db1 : DB} (hschema : Schema db1) (hnodes : db1.nodes = db.nodes) (hjobs : db1.jobs = db.jobs)
    (hworkers : db1.workers = db.workers) (hnext : db1.nextId = db.nextId)
    (hrow : db.workers.get? worker.id = some worker.toRow) (hjob : db.jobs.get? job.id = some job)
    (hreleases : ∀ n, job.assignedNodeId.bind db.nodes.get? = some n → Releases n job)
    (hguard : ∀ db' now job', db'.jobs = db.jobs → db'.leases = db1.leases →
      (Job.reclaim now).run job = .ok () job' → G db' (.saveJob job'))
    {Q : Except Err PUnit → DB → Prop}
    (h : ∀ db', Recovered db db' worker job (job.assignedNodeId.bind db.nodes.get?) →
      db'.leases = db1.leases → Q (.ok ⟨⟩) db')
    : wp postgres H G
        (do
          recoverWorker (some worker)
          reclaim job job.tenantId) Q db1 := by
  rw [wp_bind]
  unfold recoverWorker
  have hrow1 : db1.workers.get? worker.id = some worker.toRow := by
    rw [hworkers]
    exact hrow
  apply wp_saveCurrent hschema worker.recover hrow1 rfl rfl (.inr rfl)
  intro hschema2
  dsimp only
  have hreclaim : ∀ node, node = job.assignedNodeId.bind db.nodes.get? → ∀ type,
      wp postgres H G
        (do
          let reclaimed ← reclaimJob job node true
          if reclaimed then
            RecordJobEventsService.recordForJob job type) Q
        { db1 with workers := db1.workers.upsert worker.recover.toRow } := by
    intro node hnode type
    apply wp_reclaimRecord hschema2 (by rw [hjobs]; exact hjob) rfl
    . intro n hn n' hn'
      rw [hnode, Option.bind_eq_some_iff] at hn
      obtain ⟨nodeId, _, hget⟩ := hn
      dsimp only at hn'
      rw [hnodes, Table.key_of_get? hget, hget] at hn'
      injection hn' with hn'
      rw [hn']
    . intro n hn
      exact hreleases n (hnode.symm.trans hn)
    . intro db' now job' hjobs' hleases'
      exact hguard db' now job' (hjobs'.trans hjobs) hleases'
    . intro jobs' events nextId hreclaimed hle db' hschema'
      apply h db' _ rfl
      refine ⟨hschema', ?_, ?_, ?_, ?_⟩
      . rw [← hnode, ← hnodes]
      . rw [← hjobs]
        exact hreclaimed
      . rw [← hworkers]
        rfl
      . rw [← hnext]
        exact hle
  unfold reclaim findNode
  rw [wp_bind]
  cases hassigned : job.assignedNodeId with
  | none =>
    apply hreclaim
    rw [hassigned]
    rfl
  | some nodeId =>
    refine wp_performCall rfl ?_
    intro env henv
    apply hreclaim
    have hmem : job ∈ db.jobs.rows := Table.mem_of_get? hjob
    dsimp only [Call.exec]
    rw [assignedNode_eq hschema2 (by rw [hjobs]; exact hmem) rfl hassigned, hassigned,
      Option.bind_some, hnodes]

theorem wp_recover_cases [Releasing] {G : DB → Call → Prop} [Lenient G] (hschema : Schema db) {lease : Lease}
    (hlease : lease ∈ db.leases.rows) {Q : Except Err PUnit → DB → Prop}
    (hreleases : ∀ job, db.jobs.get? lease.jobId = some job →
      ∀ n, job.assignedNodeId.bind db.nodes.get? = some n → Releases n job)
    (hguard : ∀ db' now job job', db.jobs.get? job.id = some job → db'.jobs = db.jobs →
      ¬Leased db' job.id → (Job.reclaim now).run job = .ok () job' → G db' (.saveJob job'))
    (hkeep : ∀ env, H env → env.now ≤ lease.expiresAt → Q (.ok ⟨⟩) db)
    (hrecover : ∀ env db' worker job, H env → lease.expiresAt < env.now →
      Current db worker → worker.id = lease.workerId → db.jobs.get? lease.jobId = some job →
      Recovered db db' worker job (job.assignedNodeId.bind db.nodes.get?) →
      (∀ other, other ∈ db'.leases.rows
        ↔ other ∈ db.leases.rows
          ∧ ¬(other.jobId = lease.jobId ∧ other.tenantId = lease.tenantId)) →
      Q (.ok ⟨⟩) db')
    : wp postgres H G (recover lease) Q db := by
  unfold recover
  apply wp_takeExpired hschema hlease rfl rfl hkeep
  intro env db1 henv hexpired hschema1 hnodes hjobs hworkers hnext hleases
  refine wp_perform_bind rfl ?_
  intro env' henv'
  obtain ⟨worker, hgetWorker, hcurrent, hid⟩ :=
    getWorker_of_lease env' hschema hlease hnodes hjobs hworkers
  obtain ⟨job, hjob, hjobTenant⟩ := hschema.job_of_lease hlease
  have hjobId := Table.key_of_get? hjob
  have hjob' : db.jobs.get? job.id = some job := by
    rw [hjobId]
    exact hjob
  dsimp only [Call.exec]
  rw [hgetWorker]
  refine wp_perform_bind rfl ?_
  intro env'' henv''
  have hgetJob : PostgresJobRepository.getById db1 lease.jobId lease.tenantId = some job := by
    rw [← hjobTenant]
    apply PostgresJobRepository.getById_of_get?
    rw [hjobs]
    exact hjob
  dsimp only [Call.exec]
  rw [hgetJob]
  dsimp only
  rw [← hjobTenant]
  apply wp_reclaim hschema1 hnodes hjobs hworkers hnext hcurrent.row hjob' (hreleases job hjob)
  . intro db' now job' hjobs' hleases'
    apply hguard db' now job job' hjob' hjobs'
    apply not_leased_of_taken hschema hlease hjobId
    rw [hleases']
    exact hleases
  . intro db' hrecovered hleases'
    apply hrecover env db' worker job henv hexpired hcurrent hid hjob hrecovered
    rw [hleases']
    exact hleases

theorem wp_recover [Releasing] (hinv : Inv db) {lease : Lease} (hlease : lease ∈ db.leases.rows)
    {Q : Except Err PUnit → DB → Prop}
    (h : ∀ db', Good db db' →
      (∀ other ∈ db.leases.rows, other ≠ lease → other ∈ db'.leases.rows) → Q (.ok ⟨⟩) db')
    : wp postgres H (lawful n) (recover lease) Q db := by
  apply wp_recover_cases hinv.schema hlease
  . intro job hjob node hnode
    have ⟨row, stored, hheld⟩ := hinv.held lease hlease
    have heq : stored = job := by
      have := hheld.hjob.symm.trans hjob
      injection this
    subst heq
    rw [hheld.assigned, Option.bind_some] at hnode
    exact releases_of_le (hinv.fits hlease hheld hnode)
  . intro db' now job job' hjob hjobs hnot hrun
    exact lawful_reclaim hjob hjobs hnot hrun
  . intro _ _ _
    exact h db (Good.refl hinv) (fun _ hother _ => hother)
  . intro _ db' worker job _ _ hcurrent hid hjob hrecovered hleases
    have ⟨row, stored, hheld⟩ := hinv.held lease hlease
    have hrow : row = worker.toRow := by
      have := hheld.hrow
      rw [← hid, hcurrent.row] at this
      injection this with this
      exact this.symm
    have heq : stored = job := by
      have := hheld.hjob.symm.trans hjob
      injection this
    subst hrow heq
    have ⟨node, hnode, _⟩ := hcurrent.node
    have hassigned : stored.assignedNodeId = some worker.node.id := hheld.assigned
    rw [hassigned, Option.bind_some, hnode] at hrecovered
    have hreclaims :=
      hrecovered.reclaims hinv hlease hheld hid.symm hnode rfl rfl rfl hleases
    apply h db' hreclaims.good
    intro other hother hne
    rw [hleases]
    refine ⟨hother, ?_⟩
    intro hand
    exact hne (hinv.schema.uniqueJob other hother lease hlease hand.left)

theorem wp_execute [Releasing] (hinv : Inv db)
    : wp postgres H (lawful n) execute (fun r db' => r = .ok ⟨⟩ ∧ Good db db') db := by
  unfold execute
  refine wp_perform_bind rfl ?_
  intro env henv
  dsimp only [Call.exec]
  apply wp_forM (fun leases db' => Good db db'
    ∧ leases.Nodup
    ∧ ∀ lease ∈ leases, lease ∈ db'.leases.rows)
  . refine ⟨Good.refl hinv, ?_, ?_⟩
    . exact (env.leaseOrder.hperm _).nodup_iff.mpr (List.Nodup.of_map _ db.leases.hnodup)
    . intro lease hlease
      exact (env.leaseOrder.hperm _).mem_iff.mp hlease
  . intro lease leases db' ⟨hgood, hnodup, hmem⟩
    rw [List.nodup_cons] at hnodup
    apply wp_recover hgood.inv (hmem lease List.mem_cons_self)
    intro db'' hgood' hothers
    refine ⟨hgood.trans hgood', hnodup.right, ?_⟩
    intro other hother
    apply hothers other (hmem other (List.mem_cons_of_mem _ hother))
    intro heq
    exact hnodup.left (heq ▸ hother)
  . intro db' ⟨hgood, _⟩
    exact ⟨rfl, hgood⟩

end RecoverExpiredLease

namespace RecoverOfflineNode

structure Known (db : DB) (worker : Worker) : Prop where
  row : db.workers.get? worker.id = some worker.toRow
  node : ∃ node, db.nodes.get? worker.node.id = some node ∧ node.tenantId = worker.tenantId
  job : ∀ job, worker.runningJob = some job →
    ∃ stored, db.jobs.get? job.id = some stored ∧ stored.tenantId = job.tenantId

theorem known_of_current (h : Current db worker) : Known db worker where
  row := h.row
  node := h.node_tenantId
  job job hjob := ⟨job, h.job job hjob, rfl⟩

theorem wp_reclaim [Releasing] {G : DB → Call → Prop} [Lenient G] {worker : Worker} {job : Job} {deleted : Bool}
    (hknown : Known db worker) (hjob : worker.runningJob = some job) (db1 : DB) (hschema : Schema db1)
    (hnodes : db1.nodes = db.nodes) (hjobs : db1.jobs = db.jobs) (hworkers : db1.workers = db.workers)
    (hnext : db1.nextId = db.nextId) (hreleases : Releases worker.node job)
    (hguard : ∀ db' now job', db'.jobs = db.jobs →
      db'.leases = (if deleted then db1 else
        PostgresLeaseRepository.delete db1 job.id job.tenantId).leases →
      (Job.reclaim now).run job = .ok () job' → G db' (.saveJob job'))
    {Q : Except Err PUnit → DB → Prop}
    (h : ∀ db', Recovered db db' worker job (some worker.node) →
      db'.leases = (if deleted then db1 else
        PostgresLeaseRepository.delete db1 job.id job.tenantId).leases → Q (.ok ⟨⟩) db')
    : wp postgres H G (reclaim worker job deleted) Q db1 := by
  have ⟨stored, hstored, htenant⟩ := hknown.job job hjob
  unfold reclaim
  dsimp only
  rw [wp_bind]
  have hrow : db1.workers.get? worker.id = some worker.toRow := by
    rw [hworkers]
    exact hknown.row
  apply wp_saveCurrent hschema worker.recover hrow rfl rfl (.inr rfl)
  intro hschema2
  apply wp_reclaimRecord hschema2 (by rw [hjobs]; exact hstored) htenant
  . intro n hn n' hn'
    injection hn with hn
    subst hn
    have ⟨node, hnode, hnodeTenant⟩ := hknown.node
    dsimp only at hn'
    rw [hnodes, hnode] at hn'
    injection hn' with hn'
    rw [← hn', hnodeTenant]
    rfl
  . intro n hn
    injection hn with hn
    rw [← hn]
    exact hreleases
  . intro db' now job' hjobs' hleases'
    apply hguard db' now job' (hjobs'.trans hjobs)
    rw [hleases']
    cases deleted <;> rfl
  . intro jobs' events nextId hreclaimed hle db' hschema'
    have hdb' : db'.workers = db1.workers.upsert worker.recover.toRow
        ∧ db'.leases = (if deleted then db1 else
          PostgresLeaseRepository.delete db1 job.id job.tenantId).leases := by
      dsimp only [db']
      cases deleted <;> exact ⟨rfl, rfl⟩
    apply h db' _ hdb'.right
    refine ⟨hschema', ?_, ?_, ?_, ?_⟩
    . rw [← hnodes]
    . rw [← hjobs]
      exact hreclaimed
    . rw [← hworkers]
      exact hdb'.left
    . rw [← hnext]
      exact hle

theorem wp_recover_cases [Releasing] {G : DB → Call → Prop} [Lenient G] (hschema : Schema db)
    (offline : List NodeId) {worker : Worker} (hknown : Known db worker)
    {Q : Except Err PUnit → DB → Prop}
    (hreleases : ∀ job, worker.runningJob = some job → Releases worker.node job)
    (hguard : ∀ db' now job job', worker.runningJob = some job → db'.jobs = db.jobs →
      ¬Leased db' job.id → (Job.reclaim now).run job = .ok () job' → G db' (.saveJob job'))
    (hskip : worker.node.id ∉ offline ∨ worker.runningJob = none → Q (.ok ⟨⟩) db)
    (hkeep : ∀ env job lease, H env → worker.runningJob = some job → lease ∈ db.leases.rows →
      lease.jobId = job.id → env.now ≤ lease.expiresAt → Q (.ok ⟨⟩) db)
    (hrecover : ∀ db' job, worker.node.id ∈ offline → worker.runningJob = some job →
      (∀ lease ∈ db.leases.rows, lease.jobId = job.id → ∃ env, H env ∧ lease.expiresAt < env.now) →
      Recovered db db' worker job (some worker.node) →
      (∀ other, other ∈ db'.leases.rows
        ↔ other ∈ db.leases.rows ∧ ¬(other.jobId = job.id ∧ other.tenantId = job.tenantId)) →
      Q (.ok ⟨⟩) db')
    : wp postgres H G (recover offline worker) Q db := by
  unfold recover
  split
  . next hnot => exact hskip (.inl hnot)
  . next hoffline =>
    rw [not_not] at hoffline
    split
    . next hnone => exact hskip (.inr hnone)
    . next job hjob =>
      have ⟨stored, hstored, htenant⟩ := hknown.job job hjob
      refine wp_perform_bind rfl ?_
      intro env henv
      dsimp only [Call.exec]
      split
      . next hnone =>
        have hnone' := PostgresLeaseRepository.getByJobId_eq_none hnone
        apply wp_reclaim hknown hjob db hschema rfl rfl rfl rfl (hreleases job hjob)
        . intro db' now job' hjobs hleases
          exact hguard db' now job job' hjob hjobs (not_leased_delete hschema hstored htenant hleases)
        . intro db' hrecovered hleases
          apply hrecover db' job hoffline hjob _ hrecovered
          . intro other
            rw [hleases]
            exact PostgresLeaseRepository.mem_delete
          . intro lease hlease hid
            have ⟨job', hjob', hleaseTenant⟩ := hschema.job_of_lease hlease
            rw [hid, hstored] at hjob'
            injection hjob' with hjob'
            have : lease.tenantId = job.tenantId := by
              rw [← hleaseTenant, ← hjob', htenant]
            exact absurd ⟨hid, this⟩ (hnone' lease hlease)
      . next lease hget =>
        have ⟨hlease, hleaseJob, hleaseTenant⟩ := PostgresLeaseRepository.getByJobId_eq_some hget
        apply wp_takeExpired hschema hlease hleaseJob hleaseTenant
        . intro env henv hle
          exact hkeep env job lease henv hjob hlease hleaseJob hle
        . intro env db1 henv hexpired hschema1 hnodes hjobs hworkers hnext hleases
          apply wp_reclaim hknown hjob db1 hschema1 hnodes hjobs hworkers hnext (hreleases job hjob)
          . intro db' now job' hjobs' hleases'
            apply hguard db' now job job' hjob hjobs'
            apply not_leased_of_taken hschema hlease hleaseJob.symm
            rw [hleases']
            exact hleases
          . intro db' hrecovered hleases'
            apply hrecover db' job hoffline hjob _ hrecovered
            . intro other
              rw [hleases', ← hleaseJob, ← hleaseTenant]
              exact hleases other
            . intro other hother hid
              rw [hschema.uniqueJob other hother lease hlease (hid.trans hleaseJob.symm)]
              exact ⟨env, henv, hexpired⟩

theorem wp_recover [Releasing] (hinv : Inv db) (offline : List NodeId) {worker : Worker}
    (hcurrent : Current db worker) {Q : Except Err PUnit → DB → Prop}
    (h : ∀ db', Good db db' →
      (∀ other, Current db other → other.id ≠ worker.id → Current db' other) → Q (.ok ⟨⟩) db')
    : wp postgres H (lawful n) (recover offline worker) Q db := by
  have hsame : Q (.ok ⟨⟩) db := h db (Good.refl hinv) (fun _ hother _ => hother)
  apply wp_recover_cases hinv.schema offline (known_of_current hcurrent)
  . intro job hjob
    have ⟨lease, hlease, _, _, _, hheld⟩ := hinv.held_of_current hcurrent hjob
    have ⟨node, hnode, hcopy⟩ := hcurrent.node
    have hfits := hinv.fits hlease hheld hnode
    apply releases_of_le
    rw [hcopy]
    exact hfits
  . intro db' now job job' hjob hjobs hnot hrun
    exact lawful_reclaim (hcurrent.job job hjob) hjobs hnot hrun
  . intro _
    exact hsame
  . intro _ _ _ _ _ _ _ _
    exact hsame
  . intro db' job _ hjob _ hrecovered hleases
    have ⟨lease, hlease, hid, hleaseJob, hleaseTenant, hheld⟩ :=
      hinv.held_of_current hcurrent hjob
    have ⟨node, hnode, hcopy⟩ := hcurrent.node
    rw [← hleaseJob, ← hleaseTenant] at hleases
    have hreclaims := hrecovered.reclaims hinv hlease hheld hid hnode (by rw [hcopy])
      (by rw [hcopy]) (by rw [hcopy]) hleases
    apply h db' hreclaims.good
    intro other hother hne
    apply hother.congr
    . exact hreclaims.workers other.id hne
    . apply hreclaims.nodes
      intro heq
      have := hinv.oneWorker other.toRow (Table.mem_of_get? hother.row) worker.toRow
        (Table.mem_of_get? hcurrent.row) heq
      exact hne (congrArg WorkerRow.id this)
    . intro job' hjob'
      apply hreclaims.jobs
      intro heq
      have ⟨lease', hlease', hid', hleaseJob', _⟩ := hinv.held_of_current hother hjob'
      have := hinv.schema.uniqueJob lease' hlease' lease hlease
        (hleaseJob'.trans (heq.trans hleaseJob.symm))
      rw [this, hid] at hid'
      exact hne hid'.symm

theorem wp_execute [Releasing] (hinv : Inv db)
    : wp postgres H (lawful n) execute (fun r db' => r = .ok ⟨⟩ ∧ Good db db') db := by
  unfold execute
  refine wp_perform_bind rfl ?_
  intro env henv
  refine wp_perform_bind rfl ?_
  intro env henv
  dsimp only [Call.exec]
  split
  . exact ⟨rfl, Good.refl hinv⟩
  . refine wp_perform_bind rfl ?_
    intro env henv
    dsimp only [Call.exec]
    apply wp_forM (fun workers db' => Good db db'
      ∧ (workers.map (·.id)).Nodup
      ∧ ∀ worker ∈ workers, Current db' worker)
    . refine ⟨Good.refl hinv, PostgresWorkerRepository.nodup_list hinv.schema, ?_⟩
      intro worker hworker
      exact PostgresWorkerRepository.current_of_mem_list hinv.schema hworker
    . intro worker workers db' ⟨hgood, hnodup, hcurrent⟩
      rw [List.map_cons, List.nodup_cons] at hnodup
      apply wp_recover hgood.inv _ (hcurrent worker List.mem_cons_self)
      intro db'' hgood' hothers
      refine ⟨hgood.trans hgood', hnodup.right, ?_⟩
      intro other hother
      apply hothers other (hcurrent other (List.mem_cons_of_mem _ hother))
      intro heq
      apply hnodup.left
      rw [← heq]
      exact List.mem_map_of_mem hother
    . intro db' ⟨hgood, _⟩
      exact ⟨rfl, hgood⟩

end RecoverOfflineNode

end AetherGrid
