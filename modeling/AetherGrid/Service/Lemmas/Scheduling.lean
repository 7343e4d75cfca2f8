import AetherGrid.Service.Impl.Scheduling
import AetherGrid.Service.Lemmas.Registry

/-!
This module contains what the scheduling tick does with one job, for every state the database can be in,
and the proof that a tick leaves stores that are in order in order.
-/

namespace AetherGrid

open Prog

variable {H : Env → Prop} {db db' : DB} {I : DB → Prop} {G : DB → Call → Prop}

def Worker.taking (worker : Worker) (job : Job) : Worker :=
  { worker with runningJob := some job, status := .busy }

structure Assigned (db db' : DB) (job : Job) (worker : Worker) (lease : Lease) : Prop where
  current : Current db worker
  idle : worker.isIdle
  assigned : job.assignedNodeId = some worker.node.id
  nodes : db'.nodes = db.nodes
  jobs : db'.jobs = db.jobs
  workers : db'.workers = db.workers.upsert (worker.taking job).toRow
  leases : db'.leases = db.leases.upsert lease
  leaseId : lease.id.value = db.nextId
  nextId : db.nextId < db'.nextId
  leaseWorker : lease.workerId = worker.id
  leaseJob : lease.jobId = job.id

structure Blocked (db db' : DB) (job : Job) (worker : Worker) (e : Err) : Prop where
  current : Current db worker
  idle : worker.isIdle
  jobs : db'.jobs = db.jobs
  leased : ∃ lease ∈ db.leases.rows, lease.jobId = job.id ∨ lease.workerId = worker.id
  error : ∀ message, e ≠ .noAvailableNode message

def NoIdleWorker (db : DB) (nodeId : NodeId) : Prop :=
  ∀ row ∈ db.workers.rows, row.nodeId = nodeId → row.status ≠ .idle

theorem noIdleWorker_of_find?_eq_none {env : Env} {nodeId : NodeId} (hschema : Schema db)
    (h : (PostgresWorkerRepository.listAcrossTenants env db).find?
      (fun worker => worker.node.id = nodeId && worker.isIdle) = none)
    : NoIdleWorker db nodeId := by
  intro row hrow hnode hidle
  have hsorted := (env.workerOrder.hperm _).mem_iff.mpr hrow
  rw [← PostgresWorkerRepository.map_toRow_list hschema, List.mem_map] at hsorted
  have ⟨worker, hworker, htoRow⟩ := hsorted
  rw [List.find?_eq_none] at h
  have := h worker hworker
  subst htoRow
  have hid : worker.node.id = nodeId := hnode
  have hstatus : worker.status = .idle := hidle
  simp [hid, Worker.isIdle, hstatus] at this

structure Granted (db db' : DB) (worker : Worker) (job : Job) (lease : Lease) : Prop where
  schema : Schema db'
  nodes : db'.nodes = db.nodes
  jobs : db'.jobs = db.jobs
  workers : db'.workers = db.workers
  leases : db'.leases = db.leases.upsert lease
  leaseId : lease.id.value = db.nextId
  nextId : db.nextId < db'.nextId
  leaseWorker : lease.workerId = worker.id
  leaseJob : lease.jobId = job.id

theorem wp_acquireLease [Settling I G] (hschema : Schema db)
    (hguard : ∀ db' lease, db.nextId ≤ lease.id.value → G db' (.saveLease lease)) {worker : Worker} {job : Job}
    (hworker : Current db worker) (hjob : db.jobs.get? job.id = some job)
    (htenant : worker.tenantId = job.tenantId) {Q : Except Err Lease → DB → Prop}
    (howes : ∀ db' lease, Granted db db' worker job lease → ∃ held, Owes I held db')
    (hok : ∀ db' lease, Granted db db' worker job lease → Q (.ok lease) db')
    (hleased : ∀ db' message, db'.jobs = db.jobs → Leased db job.id →
      Q (.error (.valueError message)) db')
    (hunique : ∀ db' message, db'.jobs = db.jobs →
      (∃ lease ∈ db.leases.rows, lease.jobId = job.id ∨ lease.workerId = worker.id) →
      Q (.error (.uniqueViolation message)) db')
    : wp postgres H G (acquireLease worker job) Q db := by
  unfold acquireLease
  rw [if_neg (by simp [htenant])]
  refine wp_perform_bind rfl ?_
  intro env henv
  dsimp only [Call.exec]
  split
  . next lease hlease =>
    obtain ⟨hmem, hid, _⟩ := PostgresLeaseRepository.getByJobId_eq_some hlease
    exact hleased _ _ rfl ⟨lease, hmem, hid⟩
  . refine wp_perform_bind rfl ?_
    intro env henv
    refine wp_perform_bind rfl ?_
    intro env' henv'
    dsimp only [Call.exec]
    rw [wp_bind]
    refine ⟨hguard _ _ (Nat.le_refl _), ?_⟩
    intro env'' henv''
    -- both foreign keys are met, so only the unique keys can refuse the lease
    have hworkerTenant : (db.workers.get? worker.id).any (·.tenantId = worker.tenantId) = true := by
      rw [hworker.row]
      simp [Worker.toRow]
    have hjobTenant : (db.jobs.get? job.id).any (·.tenantId = worker.tenantId) = true := by
      rw [hjob]
      simp [htenant]
    generalize hlease : Lease.create ⟨db.nextId⟩ worker.id job.id worker.tenantId env.now = lease
    have hleaseWorker : lease.workerId = worker.id := by rw [← hlease]; rfl
    have hleaseJob : lease.jobId = job.id := by rw [← hlease]; rfl
    have hleaseId : lease.id.value = db.nextId := by rw [← hlease]; rfl
    have hleaseTenant : lease.tenantId = worker.tenantId := by rw [← hlease]; rfl
    have hschema1 : Schema { db with nextId := db.nextId + 1 } := hschema.congr rfl rfl rfl rfl
    have hschema2 := hschema1.exec (.saveLease lease) env''
    dsimp only [postgres, Call.exec] at hschema2 ⊢
    unfold PostgresLeaseRepository.save at hschema2 ⊢
    dsimp only at hschema2 ⊢
    rw [hleaseWorker, hleaseJob, hleaseTenant, hworkerTenant, hjobTenant] at hschema2 ⊢
    split
    . next hany =>
      rw [List.any_eq_true] at hany
      obtain ⟨other, hother, hid⟩ := hany
      apply hunique
      . rfl
      . exact ⟨other, List.mem_of_mem_filter hother, .inr (by simpa using hid)⟩
    . next hfreeWorker =>
      rw [if_neg hfreeWorker] at hschema2
      split
      . next hany =>
        rw [List.any_eq_true] at hany
        obtain ⟨other, hother, hid⟩ := hany
        apply hunique
        . rfl
        . exact ⟨other, List.mem_of_mem_filter hother, .inl (by simpa using hid)⟩
      . next hfreeJob =>
        rw [if_neg hfreeJob] at hschema2
        simp only [Bool.not_true, Bool.false_eq_true, if_false, commit, wp_ofExcept] at hschema2 ⊢
        have hgranted : Granted db
            { db with leases := db.leases.upsert lease, nextId := db.nextId + 1 } worker job lease :=
          ⟨hschema2, rfl, rfl, rfl, rfl, hleaseId, Nat.lt_succ_self _, hleaseWorker, hleaseJob⟩
        rw [wp_bind]
        apply wp_recordEvent
        . apply Settling.event (I := I)
          . intro h
            contradiction
          . intro _
            exact howes _ lease hgranted
        . exact hjob
        . rfl
        . intro events
          apply hok
          exact { hgranted with
            schema := hschema2.congr rfl rfl rfl rfl
            nextId := Nat.lt_succ_of_lt hgranted.nextId }

namespace Granted

variable {db1 : DB} {worker : Worker} {job : Job} {lease : Lease}

theorem assigned (h : Granted db db1 worker job lease) (hcurrent : Current db worker) (hidle : worker.isIdle)
    (hassigned : job.assignedNodeId = some worker.node.id)
    : Assigned db (withWorker (worker.taking job).toRow db1) job worker lease := by
  refine ⟨hcurrent, hidle, hassigned, h.nodes, h.jobs, ?_, h.leases, h.leaseId, h.nextId, h.leaseWorker,
    h.leaseJob⟩
  dsimp only [withWorker]
  rw [h.workers]

theorem save_taking (h : Granted db db1 worker job lease) (hschema : Schema db) (hcurrent : Current db worker)
    (hjob : db.jobs.get? job.id = some job) (htenant : worker.tenantId = job.tenantId)
    : PostgresWorkerRepository.save db1 (worker.taking job)
        = .ok (withWorker (worker.taking job).toRow db1) := by
  apply saveWorker_eq_ok h.schema
  . intro row hrow
    rw [h.workers] at hrow
    have := hcurrent.row.symm.trans hrow
    injection this with this
    rw [← this]
    rfl
  . have := hschema.workerNode worker.toRow (Table.mem_of_get? hcurrent.row)
    unfold PostgresWorkerRepository.nodeSameTenant at this ⊢
    rw [h.nodes]
    exact this
  . unfold PostgresWorkerRepository.runningJobSameTenant Worker.toRow Worker.taking
    rw [Option.map_some, Option.all_some, h.jobs, hjob, Option.any_some, decide_eq_true_eq]
    exact htenant.symm

theorem owes (h : Granted db db1 worker job lease) (hcurrent : Current db worker)
    (hsettled : I (withWorker (worker.taking job).toRow db1))
    : Owes I (worker.taking job).toRow db1 := by
  refine ⟨h.schema, ⟨worker.toRow, ?_, rfl⟩, ⟨lease, ?_, h.leaseWorker⟩, hsettled⟩
  . rw [h.workers]
    exact hcurrent.row
  . rw [h.leases]
    exact (Table.mem_upsert _ _ _).mpr (.inl rfl)

end Granted

theorem wp_assignWorker [Settling I G] (hschema : Schema db)
    (hguard : ∀ db' lease, db.nextId ≤ lease.id.value → G db' (.saveLease lease)) {job : Job} {nodeId : NodeId}
    (hjob : db.jobs.get? job.id = some job) (hassigned : job.assignedNodeId = some nodeId)
    (hclose : ∀ db' worker lease, Schema db' → Assigned db db' job worker lease → I db')
    {Q : Except Err Worker → DB → Prop}
    (hnone : NoIdleWorker db nodeId → Q (.error noIdleWorker) db)
    (hassign : ∀ db' worker lease, Schema db' → Assigned db db' job worker lease →
      Q (.ok (worker.taking job)) db')
    (hblocked : ∀ db' worker e, worker.node.id = nodeId → Blocked db db' job worker e →
      Q (.error e) db')
    : wp postgres H G (assignWorker job) Q db := by
  unfold assignWorker
  rw [hassigned]
  refine wp_perform_bind rfl ?_
  intro env henv
  dsimp only [Call.exec]
  split
  . next hfind => exact hnone (noIdleWorker_of_find?_eq_none hschema hfind)
  . next worker hfind =>
    have hmem := List.mem_of_find?_eq_some hfind
    have hcurrent := PostgresWorkerRepository.current_of_mem_list hschema hmem
    have ⟨hnode, hidle⟩ : worker.node.id = nodeId ∧ worker.isIdle := by
      simpa using List.find?_some hfind
    -- the node of the worker is the node of the job, so all three belong to one tenant
    have htenant : worker.tenantId = job.tenantId := by
      have ⟨node, hget, hnodeTenant⟩ := hcurrent.node_tenantId
      have := hschema.jobNode job (Table.mem_of_get? hjob)
      unfold PostgresJobRepository.assignedNodeSameTenant at this
      rw [hassigned, Option.all_some, ← hnode, hget, Option.any_some, decide_eq_true_eq] at this
      rw [← hnodeTenant, this]
    rw [← hnode] at hassigned
    rw [wp_bind, wp_catching]
    apply wp_acquireLease (I := I) hschema hguard hcurrent hjob htenant
    . intro db1 lease hgranted
      have hsave := hgranted.save_taking hschema hcurrent hjob htenant
      exact ⟨_, hgranted.owes hcurrent
        (hclose _ worker lease (hgranted.schema.saveWorker hsave) (hgranted.assigned hcurrent hidle hassigned))⟩
    . intro db1 lease hgranted
      have hwritten := hgranted.assigned hcurrent hidle hassigned
      dsimp only
      rw [wp_bind, wp_runCommand, Worker.accept_run hidle hassigned]
      dsimp only
      rw [wp_bind]
      apply wp_saveWorker_of_eq hgranted.schema (hgranted.save_taking hschema hcurrent hjob htenant)
      intro hschema2
      dsimp only
      rw [wp_bind]
      apply wp_recordEvent
      . apply Settling.event (I := I)
        . intro _
          exact hclose _ worker lease hschema2 hwritten
        . intro h
          contradiction
      . dsimp only [withWorker]
        rw [hgranted.jobs]
        exact hjob
      . rfl
      . intro events
        apply hassign
        . exact hschema2.congr rfl rfl rfl rfl
        . exact { hwritten with nextId := Nat.lt_succ_of_lt hgranted.nextId }
    . intro db1 message hjobs hleased
      have ⟨lease, hlease, hid⟩ := hleased
      exact hblocked db1 worker _ hnode
        ⟨hcurrent, hidle, hjobs, ⟨lease, hlease, .inl hid⟩, fun _ => by simp⟩
    . intro db1 message hjobs hleased
      exact hblocked db1 worker _ hnode ⟨hcurrent, hidle, hjobs, hleased, fun _ => by simp⟩

namespace SchedulerLoop

def UpToDate (db : DB) (nodes : List Node) : Prop :=
  ∀ node ∈ nodes, db.nodes.get? node.id = some node

theorem putBack_eq_self {nodes : List Node} {node : Node} (hnodes : UpToDate db nodes)
    (hnode : node ∈ nodes) : putBack node nodes = nodes := by
  have hsame : ∀ other ∈ nodes, (if other.id = node.id then node else other) = id other := by
    intro other hother
    split
    . next heq =>
      have := hnodes other hother
      rw [heq, hnodes node hnode] at this
      injection this
    . rfl
  unfold putBack
  rw [List.map_congr_left hsame, List.map_id]

theorem UpToDate.putBack {nodes : List Node} {node' : Node} (hnodes : UpToDate db nodes)
    (hputs : db.nodes.Puts node' db'.nodes) : UpToDate db' (putBack node' nodes) := by
  intro node hnode
  unfold SchedulerLoop.putBack at hnode
  rw [List.mem_map] at hnode
  have ⟨other, hother, heq⟩ := hnode
  split at heq
  . subst heq
    exact hputs.get?_self
  . next hne =>
    subst heq
    rw [hputs.get?_of_ne (Ne.symm hne)]
    exact hnodes other hother

theorem UpToDate.puts_self {nodes : List Node} {node : Node} (hnodes : UpToDate db nodes)
    (hnode : node ∈ nodes) (hputs : db.nodes.Puts node db'.nodes) : UpToDate db' nodes := by
  rw [← putBack_eq_self hnodes hnode]
  exact hnodes.putBack hputs

def scheduledOn (job : Job) (nodeId : NodeId) : Job :=
  { job with assignedNodeId := some nodeId, status := .scheduled }

def unscheduled (job : Job) : Job :=
  { job with assignedNodeId := none, status := .queued }

inductive Visited (now : NodeId → Time) (nodes : List Node) (job : Job) (db : DB)
    : Except Err (List Node) → DB → Prop where
  | unplaced (hselect : Scheduler.selectNode now job nodes = none)
    : Visited now nodes job db (.ok nodes) db
  | refused {db' : DB} {node : Node} (hselect : Scheduler.selectNode now job nodes = some node)
    (hbusy : NoIdleWorker db node.id)
    (hnodes : db.nodes.Puts node db'.nodes) (hjobs : db.jobs.Puts (unscheduled job) db'.jobs)
    (hworkers : db'.workers = db.workers) (hleases : db'.leases = db.leases)
    (hnext : db.nextId ≤ db'.nextId)
    : Visited now nodes job db (.ok nodes) db'
  | placed {db' : DB} {node node' : Node} {worker : Worker} {lease : Lease}
    (hselect : Scheduler.selectNode now job nodes = some node)
    (hallocate : node.allocate job.resources = .ok node')
    (hworker : db.workers.get? worker.id = some worker.toRow) (hidle : worker.isIdle)
    (hon : worker.node.id = node.id)
    (hnodes : db.nodes.Puts node' db'.nodes)
    (hjobs : db.jobs.Puts (scheduledOn job node.id) db'.jobs)
    (hworkers : db.workers.Puts (worker.taking (scheduledOn job node.id)).toRow db'.workers)
    (hleases : db.leases.Puts lease db'.leases)
    (hleaseId : db.nextId ≤ lease.id.value) (hnext : lease.id.value < db'.nextId)
    (hleaseWorker : lease.workerId = worker.id) (hleaseJob : lease.jobId = job.id)
    : Visited now nodes job db (.ok (putBack node' nodes)) db'
  | blocked {db' : DB} {node : Node} {worker : Worker} {e : Err}
    (hselect : Scheduler.selectNode now job nodes = some node)
    (hworker : db.workers.get? worker.id = some worker.toRow) (hidle : worker.isIdle)
    (hon : worker.node.id = node.id)
    (hleased : ∃ lease ∈ db.leases.rows, lease.jobId = job.id ∨ lease.workerId = worker.id)
    (hjobs : db.jobs.Puts (scheduledOn job node.id) db'.jobs)
    : Visited now nodes job db (.error e) db'

theorem Visited.of_unscheduled {now : NodeId → Time} {nodes : List Node} {job : Job}
    {node node' : Node} (hselect : Scheduler.selectNode now job nodes = some node)
    (hid : node'.id = node.id) (hbusy : NoIdleWorker db node.id)
    (hnodes : db'.nodes = (db.nodes.upsert node').upsert node)
    (hjobs : db'.jobs = (db.jobs.upsert (scheduledOn job node.id)).upsert (unscheduled job))
    (hworkers : db'.workers = db.workers) (hleases : db'.leases = db.leases)
    (hnext : db.nextId ≤ db'.nextId) : Visited now nodes job db (.ok nodes) db' := by
  refine .refused hselect hbusy ?_ ?_ hworkers hleases hnext
  . rw [hnodes]
    exact (Table.puts_upsert _ _).upsert hid.symm
  . rw [hjobs]
    exact (Table.puts_upsert _ _).upsert rfl

theorem Visited.of_assigned {now : NodeId → Time} {nodes : List Node} {job : Job}
    {node node' : Node} {worker : Worker} {lease : Lease} {events : List Event}
    (hselect : Scheduler.selectNode now job nodes = some node)
    (hallocate : node.allocate job.resources = .ok node')
    (hassigned : Assigned
      { db with
        nodes := db.nodes.upsert node'
        jobs := db.jobs.upsert (scheduledOn job node.id)
        events := events
        nextId := db.nextId + 1 } db' (scheduledOn job node.id) worker lease)
    : Visited now nodes job db (.ok (putBack node' nodes)) db' := by
  have hon : worker.node.id = node.id := by
    have := hassigned.assigned
    injection this with this
    exact this.symm
  refine .placed hselect hallocate hassigned.current.row hassigned.idle hon
    ?_ ?_ ?_ ?_ ?_ ?_ hassigned.leaseWorker hassigned.leaseJob
  . rw [hassigned.nodes]
    apply Table.puts_upsert
  . rw [hassigned.jobs]
    apply Table.puts_upsert
  . rw [hassigned.workers]
    apply Table.puts_upsert
  . rw [hassigned.leases]
    apply Table.puts_upsert
  . rw [hassigned.leaseId]
    exact Nat.le_add_right _ 1
  . rw [hassigned.leaseId]
    exact hassigned.nextId

theorem wp_unschedule [Releasing] [Settling I G] (hschema : Schema db) {node node' : Node} {job : Job}
    (hnode : db.nodes.get? node.id = some node') (hallocate : node.allocate job.resources = .ok node')
    (hjob : db.jobs.get? job.id = some job) (hscheduled : job.status = .scheduled)
    (hclose : Schema
        { db with nodes := db.nodes.upsert node, jobs := db.jobs.upsert (unscheduled job) } →
      I { db with nodes := db.nodes.upsert node, jobs := db.jobs.upsert (unscheduled job) })
    {Q : Except Err Node → DB → Prop}
    (h : ∀ events, Q (.ok node)
      { db with
        nodes := db.nodes.upsert node
        jobs := db.jobs.upsert (unscheduled job)
        events := events
        nextId := db.nextId + 1 })
    : wp postgres H G (unschedule job node') Q db := by
  have ⟨havailable, _, hcapacity, htenant, _⟩ := Node.allocate_eq_ok hallocate
  have hreleases : Releases node' job := by
    apply releases_of_le
    rw [havailable, hcapacity]
    exact node.havailable
  unfold unschedule
  rw [wp_bind, wp_runCommand, Job.unschedule_run hscheduled]
  dsimp only
  rw [hreleases, Node.release_of_allocate hallocate, wp_bind, wp_ret]
  dsimp only
  rw [wp_bind]
  apply wp_saveNode hschema
  . intro stored hstored
    rw [hnode] at hstored
    injection hstored with hstored
    rw [← hstored, htenant]
  . intro hschema1
    dsimp only
    rw [wp_bind]
    apply wp_saveJob hschema1
    . intro stored hstored
      have := hjob.symm.trans hstored
      injection this with this
      rw [← this]
    . rfl
    . apply Settling.job (I := I)
      apply lawful_saveJob
      . exact hjob
      . exact (Job.unschedule_moves (Job.unschedule_run hscheduled)).becomes
      . intro _
        exact Job.endures_of_attempts rfl rfl (by rw [hscheduled]; rfl)
    . intro hschema2
      dsimp only
      rw [wp_bind]
      apply wp_recordEvent
      . apply Settling.event (I := I)
        . intro _
          exact hclose hschema2
        . intro h
          contradiction
      . exact Table.get?_upsert_self _ _
      . rfl
      . exact h

theorem wp_place [Releasing] [Settling I G] (hschema : Schema db)
    (hguard : ∀ db' lease, db.nextId ≤ lease.id.value → G db' (.saveLease lease)) (now : NodeId → Time)
    {nodes : List Node} {job : Job} (hnodes : UpToDate db nodes)
    (hjob : db.jobs.get? job.id = some job) (hqueued : job.status = .queued)
    (hclose : ∀ r db', Schema db' → Visited now nodes job db r db' → I db')
    : wp postgres H G (place now nodes job) (Visited now nodes job db) db := by
  unfold place
  split
  . next hselect => exact .unplaced hselect
  . next node hselect =>
    have ⟨hmem, hcandidate⟩ := Scheduler.selectNode_eq_some hselect
    rw [Scheduler.isCandidate_iff] at hcandidate
    have ⟨htenant, _, _, _, hhost⟩ := hcandidate
    have ⟨node', hallocate⟩ := Node.allocate_of_canHost hhost
    have ⟨_, hid', _, htenant', _⟩ := Node.allocate_eq_ok hallocate
    have hstored := hnodes node hmem
    rw [wp_bind, hallocate, wp_ofExcept]
    dsimp only
    rw [wp_bind, wp_runCommand, Job.assignTo_run hqueued]
    dsimp only
    rw [wp_bind]
    apply wp_saveNode hschema
    . intro stored hget
      rw [hid', hstored] at hget
      injection hget with hget
      rw [← hget, htenant']
    . intro hschema1
      have hnode1 : (db.nodes.upsert node').get? node.id = some node' :=
        Table.get?_upsert_of_eq _ hid'
      dsimp only
      rw [hid', wp_bind]
      apply wp_saveJob hschema1
      . intro stored hget
        have := hjob.symm.trans hget
        injection this with this
        rw [← this]
      . unfold PostgresJobRepository.assignedNodeSameTenant
        rw [Option.all_some, hnode1, Option.any_some, decide_eq_true_eq, htenant', htenant]
      . apply Settling.job (I := I)
        apply lawful_saveJob
        . exact hjob
        . exact (Job.assignTo_moves (Job.assignTo_run hqueued)).becomes
        . intro _
          exact Job.endures_of_attempts rfl rfl (by rw [hqueued]; rfl)
      . intro hschema2
        dsimp only
        rw [wp_bind]
        apply wp_recordEvent
        . exact Settling.event (I := I) _ _ _ _ nofun nofun
        . exact Table.get?_upsert_self _ _
        . rfl
        . intro events
          dsimp only
          rw [wp_bind, wp_catching, wp_bind]
          have hschema3 : Schema
              { db with
                nodes := db.nodes.upsert node'
                jobs := db.jobs.upsert (scheduledOn job node.id)
                events := events
                nextId := db.nextId + 1 } := hschema2.congr rfl rfl rfl rfl
          apply wp_assignWorker (I := I) hschema3
          . intro db' lease hle
            exact hguard db' lease (Nat.le_of_succ_le hle)
          . exact Table.get?_upsert_self _ (scheduledOn job node.id)
          . rfl
          . intro db' worker lease hschema' hassigned
            exact hclose _ _ hschema' (Visited.of_assigned hselect hallocate hassigned)
          . intro hbusy
            apply wp_unschedule (I := I) hschema3
            . exact hnode1
            . exact hallocate
            . exact Table.get?_upsert_self _ (scheduledOn job node.id)
            . rfl
            . intro hschema4
              exact hclose _ _ hschema4
                (Visited.of_unscheduled hselect hid' hbusy rfl rfl rfl rfl (Nat.le_add_right _ 1))
            . intro events'
              dsimp only
              rw [wp_pure, putBack_eq_self hnodes hmem]
              exact Visited.of_unscheduled hselect hid' hbusy rfl rfl rfl rfl (Nat.le_add_right _ 2)
          . intro db' worker lease hschema' hassigned
            exact Visited.of_assigned hselect hallocate hassigned
          . intro db' worker e hon hblocked
            have hresult : Visited now nodes job db (.error e) db' := by
              refine .blocked hselect hblocked.current.row hblocked.idle hon hblocked.leased ?_
              rw [hblocked.jobs]
              apply Table.puts_upsert
            have herror := hblocked.error
            cases e with
            | noAvailableNode message => exact absurd rfl (herror message)
            | _ => exact hresult

theorem Visited.good {now : NodeId → Time} {nodes : List Node} {job : Job}
    {r : Except Err (List Node)} (h : Visited now nodes job db r db') (hinv : Inv db)
    (hschema : Schema db') (hnodes : UpToDate db nodes) (hjob : db.jobs.get? job.id = some job)
    (hqueued : job.status = .queued)
    : ∃ nodes', r = .ok nodes'
        ∧ Good db db'
        ∧ UpToDate db' nodes'
        ∧ (∀ id ≠ job.id, db'.jobs.get? id = db.jobs.get? id)
        ∧ ∀ lease ∈ db'.leases.rows, lease ∈ db.leases.rows ∨ lease.jobId = job.id := by
  have hnot : ¬Leased db job.id := hinv.not_leased hjob (by rw [hqueued]; rfl)
  have hfresh := hinv.freshJob job (Table.mem_of_get? hjob)
  cases h with
  | unplaced hselect =>
    exact ⟨nodes, rfl, Good.refl hinv, hnodes, fun _ _ => rfl, fun _ h => .inl h⟩
  | @refused db' node hselect hbusy hnodes' hjobs hworkers hleases hnext =>
    have ⟨hmem, _⟩ := Scheduler.selectNode_eq_some hselect
    have hstored := Table.mem_of_get? (hnodes node hmem)
    refine ⟨nodes, rfl, ?_, hnodes.puts_self hmem hnodes', ?_, ?_⟩
    . -- the node is written back as it was, then the job, then identifiers are counted on
      have hschemaNode : Schema { db with nodes := db'.nodes } :=
        hinv.schema.congr_nodes (hnodes'.get?_eq (hnodes node hmem)) rfl rfl rfl
      have hnode : Good db { db with nodes := db'.nodes } :=
        hinv.putNode hschemaNode hnodes' rfl rfl rfl rfl (hinv.freshNode node hstored)
          (hinv.conserved node hstored)
      have hschemaJob : Schema { db' with nextId := db.nextId } := hschema.congr rfl rfl rfl rfl
      have hput : Good { db with nodes := db'.nodes } { db' with nextId := db.nextId } := by
        apply hnode.inv.putJob hschemaJob rfl hjobs hworkers hleases rfl hfresh
        . intro stored hget
          have := hjob.symm.trans hget
          injection this with this
          rw [← this]
          exact ⟨rfl, rfl⟩
        . intro hleased
          exact absurd hleased hnot
        . intro hactive
          contradiction
      exact (hnode.trans hput).trans (hput.inv.bump rfl rfl rfl rfl hnext)
    . intro id hid
      exact hjobs.get?_of_ne (Ne.symm hid)
    . rw [hleases]
      exact fun _ h => .inl h
  | @placed db' node node' worker lease hselect hallocate hworker hidle hon hnodes' hjobs hworkers
      hleases hleaseId hnext hleaseWorker hleaseJob =>
    have ⟨hmem, _⟩ := Scheduler.selectNode_eq_some hselect
    have ⟨havailable, hid', hcapacity, _⟩ := Node.allocate_eq_ok hallocate
    refine ⟨_, rfl, ?_, hnodes.putBack hnodes', ?_, ?_⟩
    . apply hinv.assign hschema hnodes' hjobs hworkers hleases hleaseId hnext
      . rw [hid']
        exact hnodes node hmem
      . exact hjob
      . exact hworker
      . exact hcapacity
      . exact havailable
      . rfl
      . rfl
      . rw [hid']
        rfl
      . rfl
      . rw [hqueued]
        rfl
      . rfl
      . rfl
      . rw [hid']
        exact hon
      . exact hinv.idle worker.toRow (Table.mem_of_get? hworker) (of_decide_eq_true hidle)
      . rfl
      . intro hbusy
        contradiction
      . exact hleaseWorker
      . exact hleaseJob
    . intro id hid
      exact hjobs.get?_of_ne (Ne.symm hid)
    . intro other hother
      cases (hleases.mem_iff other).mp hother with
      | inl heq =>
        rw [heq]
        exact .inr hleaseJob
      | inr hmem => exact .inl hmem.left
  | @blocked db' node worker e hselect hworker hidle hon hleased hjobs =>
    have hfree := hinv.idle worker.toRow (Table.mem_of_get? hworker)
      (of_decide_eq_true hidle)
    have ⟨lease, hlease, hor⟩ := hleased
    cases hor with
    | inl hleaseJob => exact absurd ⟨lease, hlease, hleaseJob⟩ hnot
    | inr hleaseWorker =>
      have ⟨row, _, hheld⟩ := hinv.held lease hlease
      have hrow := hheld.hrow
      rw [hleaseWorker, hworker] at hrow
      injection hrow with hrow
      have := hheld.running
      rw [← hrow, hfree] at this
      contradiction

structure Pending (db : DB) (jobs : List Job) : Prop where
  nodup : (jobs.map (·.id)).Nodup
  stored : ∀ job ∈ jobs, db.jobs.get? job.id = some job
  queued : ∀ job ∈ jobs, job.status = .queued

theorem Pending.tail {job : Job} {jobs : List Job} (h : Pending db (job :: jobs))
    (hjobs : ∀ id ≠ job.id, db'.jobs.get? id = db.jobs.get? id) : Pending db' jobs := by
  have hnodup := h.nodup
  rw [List.map_cons, List.nodup_cons] at hnodup
  refine ⟨hnodup.right, ?_, ?_⟩
  . intro other hother
    rw [hjobs]
    . exact h.stored other (List.mem_cons_of_mem _ hother)
    . intro heq
      apply hnodup.left
      rw [← heq]
      exact List.mem_map_of_mem hother
  . intro other hother
    exact h.queued other (List.mem_cons_of_mem _ hother)

theorem pending_inPriorityOrder (env : Env) (db : DB)
    : Pending db (inPriorityOrder (PostgresJobRepository.listAcrossTenants env db)) := by
  have hperm : (inPriorityOrder (PostgresJobRepository.listAcrossTenants env db)).Perm
      ((env.jobOrder.sort db.jobs.rows).filter (·.isQueued)) :=
    List.perm_insertionSort _ _
  refine ⟨?_, ?_, ?_⟩
  . rw [(hperm.map _).nodup_iff]
    have hrows : ((env.jobOrder.sort db.jobs.rows).map (·.id)).Nodup :=
      ((env.jobOrder.hperm _).map _).nodup_iff.mpr db.jobs.hnodup
    exact hrows.sublist (List.filter_sublist.map _)
  . intro job hjob
    rw [hperm.mem_iff, List.mem_filter] at hjob
    exact db.jobs.get?_key_of_mem ((env.jobOrder.hperm _).mem_iff.mp hjob.left)
  . intro job hjob
    rw [hperm.mem_iff, List.mem_filter] at hjob
    simpa [Job.isQueued] using hjob.right

theorem upToDate_listAvailable (env : Env) (db : DB)
    : UpToDate db (PostgresNodeRepository.listAvailableAcrossTenants env db) := by
  intro node hnode
  unfold PostgresNodeRepository.listAvailableAcrossTenants at hnode
  have hsorted := List.mem_of_mem_filter hnode
  have := (env.nodeOrder.hperm _).mem_iff.mp hsorted
  exact db.nodes.get?_key_of_mem (List.mem_of_mem_filter this)

def Grants (db db' : DB) : Prop :=
  ∀ lease ∈ db'.leases.rows, lease ∈ db.leases.rows
    ∨ ∃ job, db.jobs.get? lease.jobId = some job ∧ job.status = .queued

theorem wp_execute [Releasing] [Settling (Good db) G] (hinv : Inv db)
    (hguard : ∀ db' lease, db.nextId ≤ lease.id.value → G db' (.saveLease lease))
    : wp postgres H G execute (fun r db' => r = .ok () ∧ Good db db' ∧ Grants db db') db := by
  unfold execute
  refine wp_perform_bind rfl ?_
  intro env henv
  refine wp_perform_bind rfl ?_
  intro env' henv'
  dsimp only [Call.exec]
  rw [wp_bind]
  apply wp_foldlM (fun jobs nodes db' => Good db db'
    ∧ UpToDate db' nodes
    ∧ Pending db' jobs
    ∧ Pending db jobs
    ∧ Grants db db')
  . have hpending := pending_inPriorityOrder env' db
    exact ⟨Good.refl hinv, upToDate_listAvailable env db, hpending, hpending, fun _ h => .inl h⟩
  . intro job jobs nodes db1 ⟨hgood, hnodes, hpending, horigin, hgrants⟩
    have hjob := hpending.stored job List.mem_cons_self
    have hqueued := hpending.queued job List.mem_cons_self
    apply wp_of_schema hgood.inv.schema
    unfold visit
    refine wp_perform_bind rfl ?_
    intro env'' henv''
    have hplace := wp_place (I := Good db) (H := H) hgood.inv.schema
      (fun db' lease hle => hguard db' lease (Nat.le_trans hgood.keeps.nextId hle))
      env''.nowFor hnodes hjob hqueued
    apply wp_mono
    . apply hplace
      intro r db2 hschema hvisited
      have ⟨_, _, hgood', _⟩ := hvisited.good hgood.inv hschema hnodes hjob hqueued
      exact hgood.trans hgood'
    intro r db2 hvisited hschema
    have ⟨nodes', hr, hgood', hnodes', hothers, hleases⟩ :=
      hvisited.good hgood.inv hschema hnodes hjob hqueued
    subst hr
    refine ⟨hgood.trans hgood', hnodes', hpending.tail hothers, horigin.tail (fun _ _ => rfl), ?_⟩
    intro lease hlease
    cases hleases lease hlease with
    | inl hmem => exact hgrants lease hmem
    | inr heq =>
      rw [heq]
      exact .inr ⟨job, horigin.stored job List.mem_cons_self, hqueued⟩
  . intro nodes db' ⟨hgood, _, _, _, hgrants⟩
    exact ⟨rfl, hgood, hgrants⟩

end SchedulerLoop

end AetherGrid
