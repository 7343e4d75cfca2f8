import AetherGrid.Cluster.NodeBooks

/-!
This module contains the fact that the calls of a scheduler tick, of heartbeats, of drains and of
reported outcomes keep the books of the nodes, whatever the order in which they are executed.
-/

namespace AetherGrid

open Prog Pool

namespace NodeBooks

variable {ι : Type} [Fintype ι]

structure Sound (tick : ι) (db : DB) (notes : ι → Note) : Prop where
  owners : Owners tick db notes
  balanced : Balanced db notes

theorem sound_pending {tick : ι} {db : DB} (hinv : Inv db)
    : Sound tick db (fun _ => ({} : Note)) := by
  have hticking : Ticking db {} := by
    constructor
    case leased =>
      intro _ _ h
      contradiction
    all_goals
      intro _ h
      contradiction
  refine ⟨⟨hinv.schema, hinv.freshLease, hinv.idle, ?_, ?_, hticking, ?_, ?_⟩, ⟨?_, ?_, ?_, fun _ => rfl⟩⟩
  . intro lease hlease job hjob hqueued
    have ⟨_, stored, hheld⟩ := hinv.held lease hlease
    have heq := hheld.hjob.symm.trans hjob
    injection heq with heq
    have hstatus := hheld.status
    rw [heq, hqueued] at hstatus
    contradiction
  . intro lease hlease row hrow
    have ⟨stored, _, hheld⟩ := hinv.held lease hlease
    have heq := hheld.hrow.symm.trans hrow
    injection heq with heq
    rw [← heq]
    exact .inl hheld.running
  . intro i _ hphase
    exact absurd rfl hphase
  . intro i _ hphase
    contradiction
  . intro node hnode
    have hnothing : ∑ i : ι, ({} : Note).owed node.id = 0 := by
      apply Finset.sum_eq_zero
      intro i _
      exact owed_of_none rfl _
    rw [hnothing, add_zero]
    exact hinv.conserved node hnode
  . intro i debt hdebt
    contradiction
  . intro i id hid
    contradiction

variable [DecidableEq ι]

theorem fails_of_none {n : Note} (h : n.debt = none) : n.fails = n := by
  have hfailed : (n.failed || n.debt.isSome) = n.failed := by simp [h]
  unfold Note.fails
  rw [hfailed]

section statements

variable {db : DB}

theorem exec_saveNode_of_stored (env : Env) {node stored : Node}
    (hstored : db.nodes.get? node.id = some stored) (htenant : node.tenantId = stored.tenantId)
    : (Call.saveNode node).exec env db = (.ok (), { db with nodes := db.nodes.upsert node }) := by
  have hexec : (Call.saveNode node).exec env db = commit db (PostgresNodeRepository.save db node) := rfl
  rw [hexec]
  unfold PostgresNodeRepository.save
  rw [hstored]
  dsimp only
  rw [if_pos htenant.symm]
  rfl

theorem exec_saveEvent_of_stored (env : Env) {id : JobId} {tenant : TenantId} {job : Job}
    (type : EventType) (hstored : db.jobs.get? id = some job) (htenant : job.tenantId = tenant)
    : ((Call.saveEvent id tenant type).exec env db).1 = .ok () := by
  have hexec : (Call.saveEvent id tenant type).exec env db
      = commit db (PostgresEventRepository.save { db with nextId := db.nextId + 1 }
        ⟨db.nextId, id, type, tenant, env.now⟩) := rfl
  rw [hexec]
  unfold PostgresEventRepository.save
  dsimp only
  rw [hstored, if_pos (by simpa using htenant)]
  rfl

theorem exec_saveJob_of_stored (env : Env) {job stored : Job}
    (hstored : db.jobs.get? job.id = some stored) (htenant : stored.tenantId = job.tenantId)
    (hnode : PostgresJobRepository.assignedNodeSameTenant db job)
    : ((Call.saveJob job).exec env db).1 = .ok () := by
  have hexec : (Call.saveJob job).exec env db = commit db (PostgresJobRepository.save db job) := rfl
  rw [hexec]
  unfold PostgresJobRepository.save
  rw [hstored, if_neg (by simpa using htenant), if_pos hnode]
  rfl

theorem exec_saveWorker_of_stored (env : Env) {worker : Worker} (hschema : Schema db)
    (hrow : db.workers.get? worker.id = some worker.toRow)
    (hleases : ∀ lease ∈ db.leases.rows, lease.workerId ≠ worker.id)
    : ((Call.saveWorker worker.recover).exec env db).1 = .ok () := by
  have hexec : (Call.saveWorker worker.recover).exec env db
      = commit db (PostgresWorkerRepository.save db worker.recover) := rfl
  have hstored := hschema.workerNode worker.toRow (Table.mem_of_get? hrow)
  have hnode : PostgresWorkerRepository.nodeSameTenant db worker.recover.toRow := hstored
  have hjob : PostgresWorkerRepository.runningJobSameTenant db worker.recover.toRow := rfl
  have hsame : PostgresWorkerRepository.leasesSameTenant db worker.recover.toRow := by
    unfold PostgresWorkerRepository.leasesSameTenant
    rw [List.all_eq_true]
    intro lease hlease
    rw [decide_eq_true_eq]
    intro heq
    exact absurd heq (hleases lease hlease)
  rw [hexec]
  unfold PostgresWorkerRepository.save
  rw [hnode, hjob, hsame]
  rfl

theorem exec_saveLease_of_free (env : Env) {lease : Lease} {job : Job}
    (hworker : ∀ other ∈ db.leases.rows, other.workerId ≠ lease.workerId)
    (hleased : ¬Leased db lease.jobId) (hjob : db.jobs.get? lease.jobId = some job)
    (htenant : job.tenantId = lease.tenantId)
    : (Call.saveLease lease).exec env db = (.error (.workerNotFound lease.workerId), db)
        ∨ (Call.saveLease lease).exec env db = (.ok (), { db with leases := db.leases.upsert lease }) := by
  have hexec : (Call.saveLease lease).exec env db
      = commit db (PostgresLeaseRepository.save db lease) := rfl
  have hfreeWorker : (db.leases.rows.filter (·.id ≠ lease.id)).any (·.workerId = lease.workerId)
      = false := by
    rw [List.any_eq_false]
    intro other hother
    simpa using hworker other (List.mem_of_mem_filter hother)
  have hfreeJob : (db.leases.rows.filter (·.id ≠ lease.id)).any (·.jobId = lease.jobId) = false := by
    rw [List.any_eq_false]
    intro other hother heq
    exact hleased ⟨other, List.mem_of_mem_filter hother, of_decide_eq_true heq⟩
  have hjobTenant : (db.jobs.get? lease.jobId).any (·.tenantId = lease.tenantId) = true := by
    rw [hjob]
    simpa using htenant
  rw [hexec]
  unfold PostgresLeaseRepository.save
  dsimp only
  rw [hfreeWorker, hfreeJob, hjobTenant]
  cases (db.workers.get? lease.workerId).any (·.tenantId = lease.tenantId) with
  | true => exact .inr rfl
  | false => exact .inl rfl

theorem used_upsertJob {job : Job} (h : ¬Leased db job.id) (id : NodeId)
    : used { db with jobs := db.jobs.upsert job } id = used db id := by
  have hleased : ∀ id, Leased { db with jobs := db.jobs.upsert job } id ↔ Leased db id :=
    leased_congr rfl
  apply used_congr
  intro jobId
  by_cases heq : job.id = jobId
  . subst heq
    rw [Table.weight_of_get? (Table.get?_upsert_self _ _),
      demand_of_not_leased ((hleased _).not.mpr h)]
    cases hjob : db.jobs.get? job.id with
    | none => rw [Table.weight_of_none hjob]
    | some stored =>
      rw [Table.weight_of_get? hjob, demand_of_not_leased]
      rw [Table.key_of_get? hjob]
      exact h
  . exact weight_demand_congr (Table.get?_upsert_of_ne _ heq) (hleased jobId)

end statements

namespace Sound

variable {tick i : ι} {db : DB} {notes : ι → Note} {n' : Note} {env : Env}

theorem self (h : Sound tick db notes) : Sound tick db (Function.update notes i (notes i)) := by
  rw [Function.update_eq_self]
  exact h

theorem fails (h : Sound tick db notes) (hdebt : (notes i).debt = none)
    : Sound tick db (Function.update notes i (notes i).fails) := by
  rw [fails_of_none hdebt]
  exact h.self

theorem alike (h : Sound tick db notes) (halike : Owners.Alike (notes i) n')
    (hdebt : n'.debt = (notes i).debt) (hdraining : n'.draining = (notes i).draining)
    (hfailed : n'.failed = (notes i).failed) : Sound tick db (Function.update notes i n') :=
  ⟨h.owners.update_alike halike, h.balanced.congr rfl (fun _ => rfl) hdebt hdraining hfailed⟩

theorem saveNode (h : Sound tick db notes) {node : Node} (hwritable : Writable (notes i) node)
    (hcurrent : db.nodes.get? node.id = (notes i).nodes node.id)
    : Sound tick ((Call.saveNode node).exec env db).2
        (Function.update notes i (recording.note (.saveNode node) env db (notes i))) := by
  have ⟨seen, hseen, htenant, _⟩ := hwritable
  have hexec := exec_saveNode_of_stored env (hcurrent.trans hseen) htenant
  have hschema := h.owners.schema.exec (.saveNode node) env
  dsimp only [recording]
  rw [hexec] at hschema ⊢
  refine ⟨?_, h.balanced.saveNode hwritable hcurrent⟩
  have howners : Owners tick { db with nodes := db.nodes.upsert node } notes :=
    h.owners.congr hschema rfl rfl rfl (Nat.le_refl _)
  exact howners.update_alike ⟨rfl, rfl, rfl, rfl, rfl, rfl, rfl, rfl⟩

theorem saveEvent (h : Sound tick db notes) {id : JobId} {tenant : TenantId} {type : EventType}
    (hdebt : (notes i).debt = none ∨ ∃ job, db.jobs.get? id = some job ∧ job.tenantId = tenant)
    : Sound tick ((Call.saveEvent id tenant type).exec env db).2
        (Function.update notes i (recording.note (.saveEvent id tenant type) env db (notes i))) := by
  have hschema := h.owners.schema.exec (.saveEvent id tenant type) env
  dsimp only [recording]
  rcases Call.exec_saveEvent env db id tenant type with ⟨e, hexec⟩ | ⟨events, hexec⟩
  . rcases hdebt with hdebt | ⟨job, hjob, htenant⟩
    . rw [hexec]
      exact h.fails hdebt
    . have hok := exec_saveEvent_of_stored env type hjob htenant
      rw [hexec] at hok
      contradiction
  . rw [hexec] at hschema ⊢
    dsimp only
    rw [Function.update_eq_self]
    refine ⟨h.owners.congr hschema rfl rfl rfl (Nat.le_succ _), ?_⟩
    have hused : ∀ node, used { db with events := events, nextId := db.nextId + 1 } node
        = used db node := by
      intro node
      exact used_congr_tables rfl (leased_congr rfl)
    exact ⟨fun node hnode => by rw [hused]; exact h.balanced.books node hnode, h.balanced.creditor,
      h.balanced.draining, h.balanced.sound⟩

section tick

theorem uuid4 (h : Sound tick db notes)
    : Sound tick { db with nextId := db.nextId + 1 }
        (Function.update notes tick { notes tick with drawn := some db.nextId }) := by
  have howners : Owners tick { db with nextId := db.nextId + 1 } notes :=
    h.owners.congr (h.owners.schema.congr rfl rfl rfl rfl) rfl rfl rfl (Nat.le_succ _)
  constructor
  . refine howners.update_tick rfl ?_ ?_
    . intro j hj hphase job hjob
      exact h.owners.not_claims hj hphase hjob
    . refine ⟨howners.ticking.queue, howners.ticking.placing, howners.ticking.apart,
        howners.ticking.idle, ?_, howners.ticking.leased⟩
      intro id hid
      injection hid with hid
      subst hid
      exact ⟨Nat.lt_succ_self _, fun lease hlease => Nat.ne_of_lt (h.owners.fresh lease hlease)⟩
  . refine h.balanced.congr rfl ?_ rfl rfl rfl
    intro id
    exact used_congr_tables rfl (leased_congr rfl)

theorem listJobs (h : Sound tick db notes) (hplacing : (notes tick).placing = none)
    : Sound tick db
        (Function.update notes tick { notes tick with queue := db.jobs.rows.filter (·.isQueued) }) := by
  have hqueued : ∀ job ∈ db.jobs.rows.filter (·.isQueued),
      db.jobs.get? job.id = some job ∧ job.status = .queued := by
    intro job hjob
    obtain ⟨hmem, hstatus⟩ := List.mem_filter.mp hjob
    exact ⟨db.jobs.get?_key_of_mem hmem, by simpa [Job.isQueued] using hstatus⟩
  constructor
  . refine h.owners.update_tick rfl ?_ ?_
    . intro j hj hphase job hjob hclaims
      obtain ⟨worker, ended, lease, hending⟩ := h.owners.ending j hj hphase
      have heq := hending.endedJob.symm.trans hjob
      injection heq with heq
      subst heq
      rcases hclaims with ⟨listed, hlisted, hid⟩ | ⟨placed, hplaced, _⟩
      . -- the job a report has ended is not queued
        obtain ⟨stored, hstored, _, hstatus⟩ := hending.stored
        obtain ⟨hget, hlistedStatus⟩ := hqueued listed hlisted
        rw [hid, hstored] at hget
        injection hget with hget
        rw [hget] at hstatus
        contradiction
      . rw [hplacing] at hplaced
        contradiction
    . refine ⟨?_, h.owners.ticking.placing, ?_, h.owners.ticking.idle, h.owners.ticking.drawn,
        h.owners.ticking.leased⟩
      . intro job hjob
        obtain ⟨hget, hstatus⟩ := hqueued job hjob
        refine ⟨hget, ?_⟩
        rintro ⟨lease, hlease, hid⟩
        rw [← hid] at hget
        exact h.owners.held lease hlease job hget hstatus
      . intro job _ placed hplaced
        rw [hplacing] at hplaced
        contradiction
  . exact h.balanced.congr rfl (fun _ => rfl) rfl rfl rfl

theorem listWorkers (h : Sound tick db notes) (hleased : (notes tick).leased = none)
    : Sound tick db (Function.update notes tick
        { notes tick with idle := (db.workers.rows.filter (·.status = .idle)).map (·.id) }) := by
  constructor
  . refine h.owners.update_tick rfl ?_ ?_
    . intro j hj hphase job hjob
      exact h.owners.not_claims hj hphase hjob
    . refine ⟨h.owners.ticking.queue, h.owners.ticking.placing, h.owners.ticking.apart, ?_,
        h.owners.ticking.drawn, h.owners.ticking.leased⟩
      intro id hid
      have ⟨row, hrow, hrowId⟩ := List.mem_map.mp hid
      have ⟨hmem, hstatus⟩ := List.mem_filter.mp hrow
      have hfree := h.owners.idle row hmem (of_decide_eq_true hstatus)
      have hget : db.workers.get? id = some row := by
        rw [← hrowId]
        exact db.workers.get?_key_of_mem hmem
      constructor
      . intro lease hlease heq
        rw [← heq] at hget
        rcases h.owners.running lease hlease row hget with hrunning | ⟨_, hassigning⟩
        . rw [hfree] at hrunning
          contradiction
        . rw [hleased] at hassigning
          contradiction
      . intro other hother
        rw [hget] at hother
        injection hother with hother
        rw [← hother]
        exact hfree
  . exact h.balanced.congr rfl (fun _ => rfl) rfl rfl rfl

theorem drops (h : Sound tick db notes) (id : JobId)
    : Owners tick db (Function.update notes tick ((notes tick).drops id)) := by
  refine h.owners.update_tick rfl ?_ ?_
  . intro j hj hphase ended hended hclaims
    exact h.owners.not_claims hj hphase hended (Note.claims_drops hclaims).left
  . refine ⟨?_, ?_, ?_, h.owners.ticking.idle, h.owners.ticking.drawn, h.owners.ticking.leased⟩
    . intro listed hlisted
      exact h.owners.ticking.queue listed (Note.mem_queue_drops hlisted).left
    . intro placed hplaced
      contradiction
    . intro _ _ placed hplaced
      contradiction

theorem savesJob (h : Sound tick db notes) {job : Job} (hclaims : (notes tick).Claims job.id)
    (hschema : Schema { db with jobs := db.jobs.upsert job })
    (htenant : ∀ stored, db.jobs.get? job.id = some stored → stored.tenantId = job.tenantId)
    : Sound tick { db with jobs := db.jobs.upsert job }
        (Function.update notes tick ((notes tick).savesJob job)) := by
  have ⟨_, _, hleased⟩ := h.owners.claimed hclaims
  have hput : Owners tick { db with jobs := db.jobs.upsert job }
      (Function.update notes tick ((notes tick).drops job.id)) := by
    apply (h.drops job.id).putJob hschema htenant hleased
    . rw [Function.update_self]
      intro hclaims
      exact (Note.claims_drops hclaims).right rfl
    . intro j hj
      rw [Function.update_of_ne hj]
      intro hphase ended hended heq
      rw [← heq] at hclaims
      exact absurd hclaims (h.owners.not_claims hj hphase hended)
  have hticking := hput.ticking
  rw [Function.update_self] at hticking
  refine ⟨?_, h.balanced.congr rfl (used_upsertJob hleased) rfl rfl rfl⟩
  rw [← Function.update_idem ((notes tick).drops job.id) ((notes tick).savesJob job) notes]
  apply hput.update_tick
  . rw [Function.update_self]
    rfl
  . intro j hj
    rw [Function.update_of_ne hj]
    intro hphase ended hended hclaimed
    exact h.owners.not_claims hj hphase hended (Note.claims_savesJob hclaims hclaimed)
  . refine ⟨hticking.queue, ?_, ?_, hticking.idle, hticking.drawn, hticking.leased⟩
    . intro placed hplaced
      injection hplaced with hplaced
      subst hplaced
      exact ⟨Table.get?_upsert_self _ _, hleased⟩
    . intro listed hlisted placed hplaced
      injection hplaced with hplaced
      rw [← hplaced]
      exact (Note.mem_queue_drops hlisted).right

theorem saveJob (h : Sound tick db notes) {job : Job} (hmay : mayTick (notes tick) (.saveJob job))
    : Sound tick ((Call.saveJob job).exec env db).2
        (Function.update notes tick (recording.note (.saveJob job) env db (notes tick))) := by
  have hclaims : (notes tick).Claims job.id := by
    rcases hmay with ⟨listed, hlisted, hid, _⟩ | ⟨_, hplaced⟩
    . exact .inl ⟨listed, hlisted, hid⟩
    . exact .inr hplaced
  have hschema := h.owners.schema.exec (.saveJob job) env
  dsimp only [recording]
  rcases Call.exec_saveJob env db job with ⟨e, hexec⟩ | ⟨hexec, htenant, _⟩
  . rw [hexec]
    apply h.fails
    rcases hmay with ⟨listed, hlisted, hid, htenant, hdebt⟩ | ⟨hnone, _⟩
    . -- a tick in debt saves the job with the node it has allocated
      cases howes : (notes tick).debt with
      | none => rfl
      | some debt =>
        have ⟨hassigned, hjobTenant⟩ := hdebt debt howes
        have ⟨node, hnode, hnodeTenant⟩ := h.balanced.creditor tick debt howes
        have ⟨hstored, _⟩ := h.owners.ticking.queue listed hlisted
        rw [hid] at hstored
        have hok := exec_saveJob_of_stored env hstored htenant (by
          unfold PostgresJobRepository.assignedNodeSameTenant
          rw [hassigned, Option.all_some, hnode, hjobTenant]
          simpa using hnodeTenant)
        rw [hexec] at hok
        contradiction
    . exact hnone
  . rw [hexec] at hschema ⊢
    exact h.savesJob hclaims hschema htenant

theorem getLeaseByJob (h : Sound tick db notes) {id : JobId} {tenant : TenantId}
    (hmay : mayTick (notes tick) (.getLeaseByJob id tenant))
    : Sound tick db
        (Function.update notes tick (recording.note (.getLeaseByJob id tenant) env db (notes tick))) := by
  dsimp only [recording]
  cases hlease : PostgresLeaseRepository.getByJobId db id tenant with
  | none => exact h.self
  | some lease =>
    have ⟨hmem, hid, _⟩ := PostgresLeaseRepository.getByJobId_eq_some hlease
    rcases hmay with hdebt | ⟨placed, hplaced, hplacedId⟩
    . exact h.fails hdebt
    . have hnot := (h.owners.ticking.placing placed hplaced).right
      rw [hplacedId] at hnot
      exact absurd ⟨lease, hmem, hid⟩ hnot

theorem savesLease_owners (h : Sound tick db notes) {lease : Lease}
    (hmay : mayTick (notes tick) (.saveLease lease))
    (hschema : Schema { db with leases := db.leases.upsert lease })
    : Owners tick { db with leases := db.leases.upsert lease }
        (Function.update notes tick ((notes tick).savesLease lease)) := by
  have ⟨job, debt, hplacing, _, _, _, hstatus, hleaseJob, _, hidle, hassigning, hdrawn⟩ := hmay
  have ⟨hstored, hnot⟩ := h.owners.ticking.placing job hplacing
  have ⟨hfree, hrow⟩ := h.owners.ticking.idle _ hidle
  have hother : ∀ j ≠ tick,
      Function.update notes tick ((notes tick).savesLease lease) j = notes j := by
    intro j hj
    exact Function.update_of_ne hj _ _
  have hput := Table.puts_upsert db.leases lease
  have hleased : ∀ id, id ≠ job.id → ¬Leased db id →
      ¬Leased { db with leases := db.leases.upsert lease } id := by
    intro id hne hid ⟨other, hmem, hotherJob⟩
    rcases (hput.mem_iff other).mp hmem with heq | ⟨hold, _⟩
    . rw [heq, hleaseJob] at hotherJob
      exact hne hotherJob.symm
    . exact hid ⟨other, hold, hotherJob⟩
  refine ⟨hschema, ?_, h.owners.idle, ?_, ?_, ?_, ?_, ?_⟩
  . refine hput.forall_mem (h.owners.ticking.drawn _ hdrawn).left ?_
    intro other hmem _
    exact h.owners.fresh other hmem
  . refine hput.forall_mem ?_ ?_
    . intro stored hget
      rw [hleaseJob] at hget
      have heq := hstored.symm.trans hget
      injection heq with heq
      rw [← heq]
      exact hstatus
    . intro other hmem _
      exact h.owners.held other hmem
  . rw [Function.update_self]
    refine hput.forall_mem ?_ ?_
    . intro row hget
      exact .inr ⟨hrow row hget, rfl⟩
    . intro other hmem _ row hget
      rcases h.owners.running other hmem row hget with hrunning | ⟨_, hleasedBefore⟩
      . exact .inl hrunning
      . rw [hassigning] at hleasedBefore
        contradiction
  . rw [Function.update_self]
    refine ⟨?_, ?_, ?_, ?_, ?_, ?_⟩
    . intro listed hlisted
      have ⟨hget, hlistedNot⟩ := h.owners.ticking.queue listed hlisted
      exact ⟨hget, hleased _ (h.owners.ticking.apart listed hlisted job hplacing) hlistedNot⟩
    . intro placed hplaced
      contradiction
    . intro _ _ placed hplaced
      contradiction
    . intro id hid
      contradiction
    . intro id hid
      contradiction
    . intro id jobId hid
      injection hid with hid
      injection hid with hid
      rw [← hid]
      exact hrow
  . intro j hj
    rw [hother j hj, Function.update_self]
    intro hphase
    have ⟨worker, ended, endedLease, hending⟩ := h.owners.ending j hj hphase
    have hne : ended.id ≠ job.id := by
      intro heq
      exact hending.notClaimed (.inr ⟨job, hplacing, heq.symm⟩)
    refine ⟨worker, ended, endedLease, hending.hworker, hending.hjob, hending.hlease, hending.leaseJob,
      hending.leaseTenant, hending.stored, hleased _ hne hending.notLeased, ?_, ?_⟩
    . rintro (hqueue | ⟨placed, hplaced, _⟩)
      . exact hending.notClaimed (.inl hqueue)
      . contradiction
    . intro hfreeing
      refine ⟨(hending.freeing hfreeing).left, ?_⟩
      refine hput.forall_mem (hending.ne_of_free hrow hfreeing) ?_
      intro other hmem _
      exact (hending.freeing hfreeing).right other hmem
  . intro j hj hjphase k hk hkphase
    rw [hother j hj] at hjphase ⊢
    rw [hother k hk] at hkphase ⊢
    exact h.owners.exclusive j hj hjphase k hk hkphase

theorem saveLease (h : Sound tick db notes) {lease : Lease}
    (hmay : mayTick (notes tick) (.saveLease lease))
    : Sound tick ((Call.saveLease lease).exec env db).2
        (Function.update notes tick (recording.note (.saveLease lease) env db (notes tick))) := by
  have ⟨job, debt, hplacing, _, _, _, _, hleaseJob, htenant, hidle, _⟩ := hmay
  have ⟨hstored, hnot⟩ := h.owners.ticking.placing job hplacing
  rw [← hleaseJob] at hstored hnot
  have hschema := h.owners.schema.exec (.saveLease lease) env
  dsimp only [recording]
  rcases exec_saveLease_of_free env (h.owners.ticking.idle _ hidle).left hnot hstored htenant.symm
    with hexec | hexec
  . rw [hexec]
    exact h.self
  . rw [hexec] at hschema ⊢
    refine ⟨h.savesLease_owners hmay hschema, h.balanced.move rfl ?_ ?_ rfl (h.balanced.sound tick)⟩
    . intro id
      have hpaid : ((notes tick).savesLease lease).owed id = 0 := owed_of_none rfl id
      rw [h.owners.used_savesLease hmay, hpaid, add_zero]
    . intro debt hdebt
      contradiction

theorem assign_owners (h : Sound tick db notes) {worker : Worker}
    (hmay : mayTick (notes tick) (.saveWorker worker))
    (hschema : Schema { db with workers := db.workers.upsert worker.toRow })
    : Owners tick { db with workers := db.workers.upsert worker.toRow }
        (Function.update notes tick (notes tick).savesWorker) := by
  obtain ⟨jobId, hleased, hidle, _, hrunning, hstatus⟩ := hmay
  have hfree := h.owners.ticking.leased _ _ hleased
  have hput := Table.puts_upsert db.workers worker.toRow
  have hother : ∀ j ≠ tick, Function.update notes tick (notes tick).savesWorker j = notes j := by
    intro j hj
    exact Function.update_of_ne hj _ _
  refine ⟨hschema, h.owners.fresh, ?_, h.owners.held, ?_, ?_, ?_, ?_⟩
  . refine hput.forall_mem ?_ ?_
    . intro hidle
      exact absurd hidle hstatus
    . intro row hrow _
      exact h.owners.idle row hrow
  . intro lease hlease row hrow
    dsimp only at hrow
    rw [hput lease.workerId] at hrow
    split at hrow
    . -- the lease of the worker is the one the tick has just saved
      next heq =>
      injection hrow with hrow
      have heq : worker.id = lease.workerId := heq
      obtain ⟨stored, hstored, _⟩ := h.owners.schema.worker_of_lease hlease
      rcases h.owners.running lease hlease stored hstored with hbefore | ⟨_, hassigning⟩
      . rw [hfree stored (heq ▸ hstored)] at hbefore
        contradiction
      . rw [hleased] at hassigning
        injection hassigning with hassigning
        injection hassigning with _ hjob
        rw [← hrow, hrunning, hjob]
        exact .inl rfl
    . next hne =>
      have hne : worker.id ≠ lease.workerId := hne
      rcases h.owners.running lease hlease row hrow with hbefore | ⟨_, hassigning⟩
      . exact .inl hbefore
      . rw [hleased] at hassigning
        injection hassigning with hassigning
        injection hassigning with hworker
        exact absurd hworker hne
  . rw [Function.update_self]
    refine ⟨h.owners.ticking.queue, h.owners.ticking.placing, h.owners.ticking.apart, ?_,
      h.owners.ticking.drawn, ?_⟩
    . intro id hid
      have hid : id ∈ (notes tick).idle := hid
      rw [hidle] at hid
      contradiction
    . intro id jobId hid
      contradiction
  . intro j hj
    rw [hother j hj, Function.update_self]
    intro hphase
    obtain ⟨other, ended, lease, hending⟩ := h.owners.ending j hj hphase
    refine ⟨other, ended, lease, ?_⟩
    have hkept : Ending { db with workers := db.workers.upsert worker.toRow } (notes tick) (notes j)
        other ended lease := by
      refine hending.congr rfl ?_ (fun _ hlease => hlease)
      intro hfreeing
      exact Table.get?_upsert_of_ne _ (hending.ne_of_free hfree hfreeing)
    exact hkept.claims hending.notClaimed
  . intro j hj hjphase k hk hkphase
    rw [hother j hj] at hjphase ⊢
    rw [hother k hk] at hkphase ⊢
    exact h.owners.exclusive j hj hjphase k hk hkphase

theorem assign (h : Sound tick db notes) {worker : Worker}
    (hmay : mayTick (notes tick) (.saveWorker worker))
    : Sound tick ((Call.saveWorker worker).exec env db).2
        (Function.update notes tick (recording.note (.saveWorker worker) env db (notes tick))) := by
  have ⟨_, _, _, hdebt, _⟩ := hmay
  have hschema := h.owners.schema.exec (.saveWorker worker) env
  dsimp only [recording]
  rcases Call.exec_saveWorker env db worker with ⟨e, hexec⟩ | ⟨hexec, _⟩
  . rw [hexec]
    exact h.fails hdebt
  . rw [hexec] at hschema ⊢
    refine ⟨h.assign_owners hmay hschema, h.balanced.congr rfl ?_ rfl rfl rfl⟩
    intro id
    exact used_congr_tables rfl (leased_congr rfl)

theorem step_tick (h : Sound tick db notes) {c : Call} (hmay : mayTick (notes tick) c)
    (hcurrent : upToDate db notes tick c)
    : Sound tick (c.exec env db).2
        (Function.update notes tick (recording.note c env db (notes tick))) := by
  cases c with
  | utcNow => exact h.self
  | utcNowFor => exact h.self
  | uuid4 => exact h.uuid4
  | listAvailableNodes => exact h.alike ⟨rfl, rfl, rfl, rfl, rfl, rfl, rfl, rfl⟩ rfl rfl rfl
  | listJobs => exact h.listJobs hmay
  | listWorkers => exact h.listWorkers hmay
  | saveNode node => exact h.saveNode hmay hcurrent
  | saveJob job => exact h.saveJob hmay
  | saveEvent id tenant type =>
    apply h.saveEvent
    apply hmay.imp_right
    rintro ⟨placed, hplaced, rfl, rfl⟩
    exact ⟨placed, (h.owners.ticking.placing placed hplaced).left, rfl⟩
  | getLeaseByJob id tenant => exact h.getLeaseByJob hmay
  | saveLease lease => exact h.saveLease hmay
  | saveWorker worker => exact h.assign hmay
  | _ => contradiction

end tick

section calls

variable (hi : i ≠ tick)

theorem getNode (h : Sound tick db notes) {id : NodeId} {tenant : TenantId}
    (hmay : mayCall (notes i) (.getNode id tenant))
    : Sound tick db
        (Function.update notes i (recording.note (.getNode id tenant) env db (notes i))) := by
  dsimp only [recording]
  cases hnode : PostgresNodeRepository.getById db id tenant with
  | some node => exact h.alike ⟨rfl, rfl, rfl, rfl, rfl, rfl, rfl, rfl⟩ rfl rfl rfl
  | none =>
    apply h.fails
    cases hdebt : (notes i).debt with
    | none => rfl
    | some debt =>
      obtain ⟨rfl, rfl⟩ := hmay debt hdebt
      have ⟨node, hget, htenant⟩ := h.balanced.creditor i debt hdebt
      unfold PostgresNodeRepository.getById at hnode
      rw [hget] at hnode
      simp [htenant] at hnode

include hi

theorem reads (h : Sound tick db notes) (hphase : n'.phase = .reading)
    (hdebt : n'.debt = (notes i).debt) (hdraining : n'.draining = (notes i).draining)
    (hfailed : n'.failed = (notes i).failed) : Sound tick db (Function.update notes i n') :=
  ⟨h.owners.update_reading hi hphase, h.balanced.congr rfl (fun _ => rfl) hdebt hdraining hfailed⟩

theorem deleteLease (h : Sound tick db notes) {id : JobId} {tenant : TenantId}
    (hmay : mayCall (notes i) (.deleteLease id tenant))
    (hcurrent : upToDate db notes i (.deleteLease id tenant))
    : Sound tick (PostgresLeaseRepository.delete db id tenant)
        (Function.update notes i ((notes i).deletesLease tenant)) := by
  have ⟨worker, job, lease, hremoves⟩ := h.owners.removes hmay hcurrent
  have hdebt : ((notes i).deletesLease tenant).debt
      = job.assignedNodeId.map (fun nodeId => ⟨nodeId, tenant, job.resources⟩) := by
    have hended : (notes i).endedJob = some job := by
      unfold Note.endedJob
      rw [hremoves.hworker]
      exact hremoves.hjob
    unfold Note.deletesLease
    rw [hended]
    rfl
  refine ⟨h.owners.deletesLease hi hremoves, h.balanced.move rfl ?_ ?_ rfl (h.balanced.sound i)⟩
  . intro nodeId
    rw [owed_of_none hmay.right.left, add_zero, ← hremoves.used_add h.owners.schema]
    congr 1
    cases hassigned : job.assignedNodeId with
    | none =>
      rw [hassigned] at hdebt
      rw [owed_of_none hdebt, demand_of_not_assigned]
      rw [hassigned]
      nofun
    | some assigned =>
      rw [hassigned] at hdebt
      rw [owed_of_some hdebt]
      unfold demand
      have hleased : Leased db job.id := ⟨lease, hremoves.hmem, hremoves.leaseJob⟩
      simp only [hassigned, Option.some.injEq, hleased, and_true]
  . intro debt howes
    rw [hdebt, Option.map_eq_some_iff] at howes
    have ⟨nodeId, hassigned, heq⟩ := howes
    have hnode := h.owners.schema.jobNode job (Table.mem_of_get? hremoves.hstored)
    unfold PostgresJobRepository.assignedNodeSameTenant at hnode
    rw [hassigned, Option.all_some, Option.any_eq_true] at hnode
    have ⟨node, hget, htenant⟩ := hnode
    rw [← heq]
    refine ⟨node, hget, ?_⟩
    rw [of_decide_eq_true htenant, ← hremoves.leaseTenant]
    exact hremoves.tenant

theorem freeWorker (h : Sound tick db notes) {worker : Worker}
    (hmay : mayCall (notes i) (.saveWorker worker))
    : Sound tick ((Call.saveWorker worker).exec env db).2
        (Function.update notes i (recording.note (.saveWorker worker) env db (notes i))) := by
  obtain ⟨hphase, read, hread, rfl⟩ := hmay
  have ⟨other, job, lease, hending⟩ := h.owners.ending i hi (by rw [hphase]; nofun)
  have heq := hending.hworker.symm.trans hread
  injection heq with heq
  subst heq
  have ⟨hrow, hleases⟩ := hending.freeing hphase
  have hschema := h.owners.schema.exec (.saveWorker other.recover) env
  have hok := exec_saveWorker_of_stored env h.owners.schema hrow hleases
  dsimp only [recording]
  rcases Call.exec_saveWorker env db other.recover with ⟨e, hexec⟩ | ⟨hexec, _⟩
  . rw [hexec] at hok
    contradiction
  . rw [hexec] at hschema ⊢
    have hfreed : (notes i).savesWorker.phase = .freed := by
      unfold Note.savesWorker
      dsimp only
      rw [if_pos hphase]
    constructor
    . have howners : Owners tick db (Function.update notes i (notes i).savesWorker) := by
        apply h.owners.update_caller hi
        . intro _
          refine ⟨other, job, lease, hending.hworker, hending.hjob, hending.hlease, hending.leaseJob,
            hending.leaseTenant, hending.stored, hending.notLeased, hending.notClaimed, ?_⟩
          rw [hfreed]
          nofun
        . rw [hfreed]
          nofun
      apply howners.freeWorker hschema rfl hleases
      intro j hj
      by_cases hji : j = i
      . subst hji
        rw [Function.update_self, hfreed]
        nofun
      . rw [Function.update_of_ne hji]
        intro hjphase worker hworker hid
        exact hji (h.owners.exclusive j hj hjphase i hi hphase worker other hworker hread hid)
    . refine h.balanced.congr rfl ?_ rfl rfl rfl
      intro id
      exact used_congr_tables rfl (leased_congr rfl)

theorem endsJob (h : Sound tick db notes) {job : Job} (hmay : mayCall (notes i) (.saveJob job))
    : Sound tick ((Call.saveJob job).exec env db).2
        (Function.update notes i (recording.note (.saveJob job) env db (notes i))) := by
  have ⟨hphase, hdebt, ended, hended, hid, hstatus⟩ := hmay
  have ⟨worker, other, lease, hending⟩ := h.owners.ending i hi hphase
  have heq := hending.endedJob.symm.trans hended
  injection heq with heq
  subst heq
  have hnot := hending.notLeased
  have hclaims := hending.notClaimed
  rw [← hid] at hnot hclaims
  have hschema := h.owners.schema.exec (.saveJob job) env
  dsimp only [recording]
  rcases Call.exec_saveJob env db job with ⟨e, hexec⟩ | ⟨hexec, htenant, _⟩
  . rw [hexec]
    exact h.fails hdebt
  . rw [hexec] at hschema ⊢
    refine ⟨?_, h.balanced.congr rfl (used_upsertJob hnot) rfl rfl rfl⟩
    have howners := h.owners.putJob hschema htenant hnot hclaims (fun _ _ _ _ _ _ => hstatus)
    apply howners.update_caller hi
    . intro _
      have ⟨worker, other, lease, hending⟩ := howners.ending i hi hphase
      exact ⟨worker, other, lease, hending.hworker, hending.hjob, hending.hlease, hending.leaseJob,
        hending.leaseTenant, hending.stored, hending.notLeased, hending.notClaimed, hending.freeing⟩
    . intro hfreeing j hj hji hjphase a b ha hb hab
      exact hji (h.owners.exclusive i hi hfreeing j hj hjphase a b ha hb hab).symm

theorem step_call (h : Sound tick db notes) {c : Call} (hmay : mayCall (notes i) c)
    (hcurrent : upToDate db notes i c)
    : Sound tick (c.exec env db).2 (Function.update notes i (recording.note c env db (notes i))) := by
  cases c with
  | utcNow => exact h.self
  | getJob id tenant => exact h.self
  | getNode id tenant => exact h.getNode hmay
  | saveNode node => exact h.saveNode hmay hcurrent
  | getWorker id tenant => exact h.reads hi hmay rfl rfl rfl
  | getLeaseByWorker id tenant => exact h.reads hi hmay rfl rfl rfl
  | deleteLease id tenant => exact h.deleteLease hi hmay hcurrent
  | saveEvent id tenant type =>
    apply h.saveEvent
    apply hmay.imp_right
    rintro ⟨hphase, read, hread, rfl, rfl⟩
    have ⟨worker, job, lease, hending⟩ := h.owners.ending i hi hphase
    have heq := hending.hlease.symm.trans hread
    injection heq with heq
    subst heq
    have ⟨stored, hstored, htenant, _⟩ := hending.stored
    rw [hending.leaseJob, hending.leaseTenant]
    exact ⟨stored, hstored, htenant⟩
  | saveWorker worker => exact h.freeWorker hi hmay
  | saveJob job => exact h.endsJob hi hmay
  | _ => contradiction

end calls

end Sound

end NodeBooks

end AetherGrid
