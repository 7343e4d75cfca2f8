import AetherGrid.Cluster.NodeSteps
import AetherGrid.Service.Lemmas.Scheduling

/-!
This module contains the proof that the books of the nodes balance again once a scheduler tick,
heartbeats, drains and reported outcomes have been served at the same time, if no node is saved and no
lease removed on the strength of an outdated copy.
-/

namespace AetherGrid

open Prog Pool

namespace NodeBooks

section programs

variable {n : Note} {G : Note → Call → Prop} {α : Type}

abbrev met (x : DB × Env) : Prop :=
  Schema x.1

def ticks (n : Note) (c : Call) : Prop :=
  n.failed ∨ mayTick n c

def calls (n : Note) (c : Call) : Prop :=
  n.failed ∨ mayCall n c

def Settled (n : Note) : Prop :=
  n.failed ∨ n.debt = none

theorem settled_fails (n : Note) : Settled n.fails := by
  unfold Settled Note.fails
  cases hdebt : n.debt with
  | none => exact .inr rfl
  | some debt => simp

theorem failed_note (h : n.failed) (c : Call) (env : Env) (db : DB)
    : (recording.note c env db n).failed := by
  have hfails : n.fails.failed := by simp [Note.fails, h]
  cases c <;> dsimp only [recording] <;> (try split) <;> first | exact h | exact hfails

theorem wp_of_failed (hG : ∀ n c, n.failed → G n c) (h : n.failed) (p : Service α)
    : wp recording.view met G p (fun _ n' => n'.failed) n := by
  induction p generalizing n with
  | ret a => exact h
  | raise e => exact h
  | call c k ih => exact ⟨hG n c h, fun x _ => ih _ (failed_note h c x.2 x.1)⟩

section saves

variable {Q : Except Err Unit → Note → Prop}

theorem wp_saveNode {node : Node} (hguard : G n (.saveNode node))
    (hok : Q (.ok ()) (n.savesNode node)) (herror : ∀ e, Q (.error e) n.fails)
    : wp recording.view met G (NodeRepository.save node) Q n := by
  refine ⟨hguard, ?_⟩
  intro x _
  rw [wp_ofExcept]
  dsimp only [Watched.view, recording]
  cases ((Call.saveNode node).exec x.2 x.1).1 with
  | ok _ => exact hok
  | error e => exact herror e

theorem wp_saveJob {job : Job} (hguard : G n (.saveJob job)) (hok : Q (.ok ()) (n.savesJob job))
    (herror : ∀ e, Q (.error e) n.fails)
    : wp recording.view met G (JobRepository.save job) Q n := by
  refine ⟨hguard, ?_⟩
  intro x _
  rw [wp_ofExcept]
  dsimp only [Watched.view, recording]
  cases ((Call.saveJob job).exec x.2 x.1).1 with
  | ok _ => exact hok
  | error e => exact herror e

theorem wp_saveWorker {worker : Worker} (hguard : G n (.saveWorker worker))
    (hok : Q (.ok ()) n.savesWorker)
    (herror : ∀ constraint, Q (.error (.foreignKeyViolation constraint)) n.fails)
    : wp recording.view met G (WorkerRepository.save worker) Q n := by
  refine ⟨hguard, ?_⟩
  intro x _
  rw [wp_ofExcept]
  dsimp only [Watched.view, recording]
  have hexec : (Call.saveWorker worker).exec x.2 x.1
      = commit x.1 (PostgresWorkerRepository.save x.1 worker) := rfl
  rw [hexec]
  unfold PostgresWorkerRepository.save
  split
  . exact herror _
  . split
    . exact herror _
    . split
      . exact herror _
      . exact hok

theorem wp_recordForJob {job : Job} {type : EventType} (hguard : G n (.saveEvent job.id job.tenantId type))
    (hok : Q (.ok ()) n)
    (herror : ∀ constraint, Q (.error (.foreignKeyViolation constraint)) n.fails)
    : wp recording.view met G (RecordJobEventsService.recordForJob job type) Q n := by
  refine ⟨hguard, ?_⟩
  intro x _
  rw [wp_ofExcept]
  dsimp only [Watched.view, recording]
  have hexec : (Call.saveEvent job.id job.tenantId type).exec x.2 x.1
      = commit x.1 (PostgresEventRepository.save { x.1 with nextId := x.1.nextId + 1 }
        ⟨x.1.nextId, job.id, type, job.tenantId, x.2.now⟩) := rfl
  rw [hexec]
  unfold PostgresEventRepository.save
  split
  . exact hok
  . exact herror _

theorem wp_saveLease {lease : Lease} (hguard : G n (.saveLease lease))
    (hok : Q (.ok ()) (n.savesLease lease))
    (hworker : Q (.error (.workerNotFound lease.workerId)) n)
    (herror : ∀ e, (∀ id, e ≠ .workerNotFound id) → (∀ message, e ≠ .leaseTenantMismatch message) →
      (∀ message, e ≠ .noAvailableNode message) → Q (.error e) n.fails)
    : wp recording.view met G (LeaseRepository.save lease) Q n := by
  refine ⟨hguard, ?_⟩
  intro x _
  rw [wp_ofExcept]
  dsimp only [Watched.view, recording]
  have hexec : (Call.saveLease lease).exec x.2 x.1
      = commit x.1 (PostgresLeaseRepository.save x.1 lease) := rfl
  rw [hexec]
  unfold PostgresLeaseRepository.save
  dsimp only
  split
  . exact herror _ (by simp) (by simp) (by simp)
  . split
    . exact herror _ (by simp) (by simp) (by simp)
    . split
      . exact hworker
      . split
        . exact herror _ (by simp) (by simp) (by simp)
        . exact hok

end saves

section callers

theorem writable_same {node node' : Node} (hseen : n.nodes node'.id = some node) (hdebt : n.debt = none)
    (htenant : node'.tenantId = node.tenantId) (hcapacity : node'.capacity = node.capacity)
    (hdraining : node.draining → node'.draining) (havailable : node'.available = node.available)
    : Writable n node' := by
  refine ⟨node, hseen, htenant, hcapacity, hdraining, ?_⟩
  rw [hdebt]
  exact ⟨0, by rw [havailable, add_zero]⟩

theorem debt_savesNode_same {node node' : Node} (hseen : n.nodes node'.id = some node)
    (hdebt : n.debt = none) (havailable : node'.available = node.available)
    : (n.savesNode node').debt = none := by
  have heq : (n.savesNode node').debt = n.debtAfter node' := rfl
  rw [heq, debtAfter_of_none hdebt hseen, if_pos havailable]

theorem wp_getNode {id : NodeId} {tenant : TenantId} {f : Option Node → Service α}
    {Q : Except Err α → Note → Prop} (hguard : G n (.getNode id tenant)) (hdebt : n.debt = none)
    (hnone : wp recording.view met G (f none) Q n)
    (hsome : ∀ node n', node.id = id → n'.debt = none → n'.nodes node.id = some node →
      wp recording.view met G (f (some node)) Q n')
    : wp recording.view met G (NodeRepository.getById id tenant >>= f) Q n := by
  apply Watched.wp_view_perform_bind hguard
  intro db env _ answer n' hanswer hn'
  have hanswer : PostgresNodeRepository.getById db id tenant = answer := hanswer
  dsimp only [recording] at hn'
  rw [hanswer] at hn'
  subst hn'
  cases answer with
  | none =>
    dsimp only
    rw [fails_of_none hdebt]
    exact hnone
  | some node =>
    have hid : node.id = id := Table.key_of_get? (PostgresNodeRepository.getById_eq_some hanswer).left
    refine hsome node _ hid ?_ ?_
    . exact hdebt
    . rw [hid]
      exact Function.update_self _ _ _

theorem calls_getNode {id : NodeId} {tenant : TenantId} (hdebt : n.debt = none)
    : calls n (.getNode id tenant) := by
  right
  intro debt howes
  rw [hdebt] at howes
  contradiction

theorem wp_heartbeatNode (nodeId : NodeId) (tenantId : TenantId)
    : wp recording.view met calls (heartbeatNode nodeId tenantId) (fun _ n' => Settled n') {} := by
  unfold heartbeatNode
  apply wp_getNode (calls_getNode rfl) rfl
  . exact .inr rfl
  . intro node n hid hdebt hseen
    apply Watched.wp_view_read (.inr trivial) (fun _ _ => rfl)
    intro db env _ now _
    rw [wp_bind]
    apply wp_saveNode
    . exact .inr (writable_same hseen hdebt rfl rfl id rfl)
    . exact .inr (debt_savesNode_same hseen hdebt rfl)
    . exact fun _ => settled_fails n

theorem wp_drainNode (nodeId : NodeId) (tenantId : TenantId)
    : wp recording.view met calls (drainNode nodeId tenantId)
        (fun r n' => Settled n' ∧ ∀ node, r = .ok node → nodeId ∈ n'.draining) {} := by
  unfold drainNode
  apply wp_getNode (calls_getNode rfl) rfl
  . exact ⟨.inr rfl, nofun⟩
  . intro node n hid hdebt hseen
    dsimp only
    rw [wp_bind]
    apply wp_saveNode
    . exact .inr (writable_same hseen hdebt rfl rfl (fun _ => rfl) rfl)
    . refine ⟨.inr (debt_savesNode_same hseen hdebt rfl), ?_⟩
      intro _ _
      rw [← hid]
      exact List.mem_cons_self
    . exact fun _ => ⟨settled_fails n, nofun⟩

structure Frees (worker : Worker) (job : Job) (tenant : TenantId) (n : Note) : Prop where
  hworker : n.worker = some worker
  hjob : worker.runningJob = some job
  phase : n.phase ≠ .reading
  debt : n.debt = job.assignedNodeId.map (fun nodeId => ⟨nodeId, tenant, job.resources⟩)

theorem Frees.endedJob {worker : Worker} {job : Job} {tenant : TenantId} (h : Frees worker job tenant n)
    : n.endedJob = some job := by
  unfold Note.endedJob
  rw [h.hworker]
  exact h.hjob

structure Reads (worker : Worker) (lease : Option Lease) (n : Note) : Prop where
  hworker : n.worker = some worker
  hlease : n.lease = lease
  phase : n.phase = .reading
  debt : n.debt = none

theorem wp_releaseLease {worker : Worker} {job : Job} {workerId : WorkerId} {leaseId : LeaseId}
    {tenantId : TenantId} {lease : Option Lease} (hreads : Reads worker lease n)
    (hid : worker.id = workerId) (hjob : worker.runningJob = some job)
    : wp recording.view met calls (releaseLease workerId leaseId tenantId)
        (fun r n' =>
          match r with
          | .ok _ => Frees worker job tenantId n' ∧ n'.phase = .freeing
          | .error _ => Settled n') n := by
  unfold releaseLease
  apply Watched.wp_view_perform_bind (.inr hreads.phase)
  intro db env _ answer n1 hanswer hn1
  have hanswer : PostgresLeaseRepository.getByWorkerId db workerId tenantId = answer := hanswer
  have hreads : Reads worker answer n1 := by
    rw [← hn1]
    exact ⟨hreads.hworker, hanswer, hreads.phase, hreads.debt⟩
  cases answer with
  | none => exact .inr hreads.debt
  | some lease =>
    have ⟨_, hleaseWorker, hleaseTenant⟩ := PostgresLeaseRepository.getByWorkerId_eq_some hanswer
    dsimp only
    split
    . exact .inr hreads.debt
    . apply Watched.wp_view_perform_bind (.inr hreads.phase)
      intro db env _ stored n2 _ hn2
      have hreads : Reads worker (some lease) n2 := by
        rw [← hn2]
        refine ⟨?_, hreads.hlease, hreads.phase, hreads.debt⟩
        dsimp only [recording]
        rw [hreads.hworker]
        rfl
      cases stored with
      | none => exact .inr hreads.debt
      | some _ =>
        apply Watched.wp_view_read (.inr trivial) (fun _ _ => rfl)
        intro db env _ answer hanswer
        cases answer with
        | none => exact .inr hreads.debt
        | some leasedJob =>
          have ⟨hget, htenant⟩ := PostgresJobRepository.getById_eq_some hanswer
          apply Watched.wp_view_perform_bind
          . exact .inr ⟨hreads.phase, hreads.debt, worker, job, lease, hreads.hworker, hjob,
              hreads.hlease, hleaseWorker.trans hid.symm, rfl, hleaseTenant⟩
          . intro db env _ _ n3 _ hn3
            have hn3 : n2.deletesLease tenantId = n3 := hn3
            have hended : n2.endedJob = some job := by
              unfold Note.endedJob
              rw [hreads.hworker]
              exact hjob
            subst hn3
            apply wp_recordForJob
            . refine .inr (.inr ⟨nofun, lease, hreads.hlease, ?_, ?_⟩)
              . exact (Table.key_of_get? hget).symm
              . rw [htenant, hleaseTenant]
            . refine ⟨⟨hreads.hworker, hjob, nofun, ?_⟩, rfl⟩
              unfold Note.deletesLease
              rw [hended]
              rfl
            . exact fun _ => settled_fails _

theorem wp_releaseNode {worker : Worker} {job job' : Job} {tenantId : TenantId}
    (hfrees : Frees worker job tenantId n) (hassigned : job'.assignedNodeId = job.assignedNodeId)
    (hresources : job'.resources = job.resources)
    : wp recording.view met calls (releaseNode job' tenantId)
        (fun r n' =>
          match r with
          | .ok _ => n'.failed
            ∨ n'.endedJob = some job ∧ n'.phase ≠ .reading ∧ n'.debt = none
          | .error _ => Settled n') n := by
  unfold releaseNode
  rw [hassigned]
  have hdebt := hfrees.debt
  cases hnodeId : job.assignedNodeId with
  | none =>
    rw [hnodeId] at hdebt
    exact .inr ⟨hfrees.endedJob, hfrees.phase, hdebt⟩
  | some nodeId =>
    rw [hnodeId] at hdebt
    have hdebt : n.debt = some ⟨nodeId, tenantId, job.resources⟩ := hdebt
    dsimp only
    apply Watched.wp_view_perform_bind
    . right
      intro debt howes
      rw [hdebt] at howes
      injection howes with howes
      rw [← howes]
      exact ⟨rfl, rfl⟩
    . intro db env _ answer n' hanswer hn'
      have hanswer : PostgresNodeRepository.getById db nodeId tenantId = answer := hanswer
      dsimp only [recording] at hn'
      rw [hanswer] at hn'
      subst hn'
      cases answer with
      | none =>
        left
        simp [Note.fails, hdebt]
      | some node =>
        have hid : node.id = nodeId :=
          Table.key_of_get? (PostgresNodeRepository.getById_eq_some hanswer).left
        dsimp only
        apply wp_saveNode
        . right
          refine ⟨node, ?_, rfl, rfl, fun hdraining => hdraining, ?_⟩
          . have hrelease : (node.release job'.resources).id = nodeId := hid
            rw [hrelease]
            exact Function.update_self _ _ _
          . dsimp only
            rw [hdebt, hresources]
            exact ⟨hid.symm, rfl⟩
        . exact .inr ⟨hfrees.endedJob, hfrees.phase, debtAfter_of_some hdebt⟩
        . exact fun _ => settled_fails _

theorem wp_finish {worker : Worker} {job job' : Job} {next : JobStatus} {workerId : WorkerId}
    {leaseId : LeaseId} {tenantId : TenantId} {type : EventType} {lease : Option Lease}
    (hreads : Reads worker lease n) (hid : worker.id = workerId) (hjob : worker.runningJob = some job)
    (hmoves : job.Moves job' next job.assignedNodeId) (hnext : next ≠ .queued)
    : wp recording.view met calls
        (ReportJobOutcome.finish worker.recover workerId job' type leaseId tenantId)
        (fun _ n' => Settled n') n := by
  unfold ReportJobOutcome.finish
  rw [wp_bind]
  apply wp_mono (wp_releaseLease hreads hid hjob)
  intro r n1 hreleased
  cases r with
  | error e => exact hreleased
  | ok _ =>
    obtain ⟨hfrees, hphase⟩ := hreleased
    dsimp only
    rw [wp_bind]
    apply wp_saveWorker
    . exact .inr ⟨hphase, worker, hfrees.hworker, rfl⟩
    . have hfrees : Frees worker job tenantId n1.savesWorker := by
        refine ⟨hfrees.hworker, hjob, ?_, hfrees.debt⟩
        unfold Note.savesWorker
        dsimp only
        rw [if_pos hphase]
        nofun
      dsimp only
      rw [wp_bind]
      apply wp_mono (wp_releaseNode hfrees hmoves.assignedNodeId hmoves.resources)
      intro r n2 hpaid
      cases r with
      | error e => exact hpaid
      | ok _ =>
        rcases hpaid with hfailed | ⟨hended, hphase, hdebt⟩
        . apply wp_mono (wp_of_failed (fun _ _ => .inl) hfailed _)
          exact fun _ _ => .inl
        . dsimp only
          rw [wp_bind]
          apply wp_saveJob
          . refine .inr ⟨hphase, hdebt, job, hended, hmoves.id, ?_⟩
            rw [hmoves.status]
            exact hnext
          . dsimp only
            rw [wp_bind]
            apply wp_recordForJob (.inr (.inl hdebt)) (.inr hdebt)
            exact fun _ => settled_fails _
          . exact fun _ => settled_fails _
    . exact fun _ => settled_fails _

theorem wp_report (outcome : ReportJobOutcome.Outcome) (workerId : WorkerId) (jobId : JobId)
    (tenantId : TenantId) (leaseId : LeaseId) (exitCode : Option Int)
    : wp recording.view met calls
        (ReportJobOutcome.report outcome workerId jobId tenantId leaseId exitCode)
        (fun _ n' => Settled n') {} := by
  apply view_report
  . exact .inr rfl
  . exact fun _ => .inr trivial
  . exact fun _ _ _ => rfl
  . exact fun _ _ _ => .inr rfl
  . intro db env hschema worker job job' next hanswer hrunning _ hmoves _ hnext
    have hanswer : PostgresWorkerRepository.getById env db workerId tenantId = some worker := hanswer
    have ⟨_, hid, _⟩ := PostgresWorkerRepository.getById_eq_some hschema hanswer
    have hreads : Reads worker none (recording.note (.getWorker workerId tenantId) env db {}) := by
      refine ⟨?_, rfl, rfl, rfl⟩
      dsimp only [recording]
      rw [hanswer]
      rfl
    exact wp_finish hreads hid hrunning hmoves hnext

end callers

section tick

structure Ready (jobs : List Job) (nodes : List Node) (n : Note) : Prop where
  debt : n.debt = none
  leased : n.leased = none
  queue : ∀ job ∈ jobs, job ∈ n.queue
  nodes : ∀ node ∈ nodes, n.nodes node.id = some node

structure Placed (jobs : List Job) (nodes : List Node) (job : Job) (node : Node) (n : Note) : Prop where
  placing : n.placing = some job
  debt : n.debt = some ⟨node.id, node.tenantId, job.resources⟩
  leased : n.leased = none
  seen : n.nodes node.id = some node
  queue : ∀ other ∈ jobs, other ∈ n.queue
  nodes : ∀ other ∈ nodes, other.id ≠ node.id → n.nodes other.id = some other

variable {jobs : List Job} {nodes : List Node} {job : Job} {node : Node}

theorem Placed.congr {n' : Note} (h : Placed jobs nodes job node n) (hplacing : n'.placing = n.placing)
    (hdebt : n'.debt = n.debt) (hleased : n'.leased = n.leased) (hnodes : n'.nodes = n.nodes)
    (hqueue : n'.queue = n.queue) : Placed jobs nodes job node n' := by
  refine ⟨hplacing.trans h.placing, hdebt.trans h.debt, hleased.trans h.leased, ?_, ?_, ?_⟩
  . rw [hnodes]
    exact h.seen
  . rw [hqueue]
    exact h.queue
  . rw [hnodes]
    exact h.nodes

theorem ready_putBack {n : Note} (hdebt : n.debt = none) (hleased : n.leased = none)
    (hqueue : ∀ other ∈ jobs, other ∈ n.queue) (hseen : n.nodes node.id = some node)
    (hnodes : ∀ other ∈ nodes, other.id ≠ node.id → n.nodes other.id = some other)
    : Ready jobs (SchedulerLoop.putBack node nodes) n := by
  refine ⟨hdebt, hleased, hqueue, ?_⟩
  intro other hother
  have ⟨listed, hlisted, heq⟩ := List.mem_map.mp hother
  split at heq
  . rw [← heq]
    exact hseen
  . next hne =>
    rw [← heq]
    exact hnodes listed hlisted hne

theorem wp_acquireLease {worker : Worker} {Q : Except Err Lease → Note → Prop}
    (hplaced : Placed jobs nodes job node n) (hassigned : job.assignedNodeId = some node.id)
    (hstatus : job.status ≠ .queued) (hidle : worker.id ∈ n.idle)
    (hok : ∀ lease n', n'.debt = none → n'.idle = [] → n'.leased = some (worker.id, job.id) →
      n'.nodes = n.nodes → n'.queue = n.queue → Q (.ok lease) n')
    (hworker : ∀ id n', Placed jobs nodes job node n' → Q (.error (.workerNotFound id)) n')
    (htenant : ∀ message, Q (.error (.leaseTenantMismatch message)) n)
    (herror : ∀ e n', (∀ id, e ≠ .workerNotFound id) → (∀ message, e ≠ .leaseTenantMismatch message) →
      (∀ message, e ≠ .noAvailableNode message) → Settled n' → Q (.error e) n')
    : wp recording.view met ticks (acquireLease worker job) Q n := by
  unfold acquireLease
  split
  . exact htenant _
  . next htenantEq =>
    have htenantEq := not_not.mp htenantEq
    apply Watched.wp_view_perform_bind (.inr (.inr ⟨job, hplaced.placing, rfl⟩))
    intro db env _ answer n1 hanswer hn1
    have hanswer : PostgresLeaseRepository.getByJobId db job.id job.tenantId = answer := hanswer
    dsimp only [recording] at hn1
    rw [hanswer] at hn1
    subst hn1
    cases answer with
    | some _ => exact herror _ _ nofun nofun nofun (settled_fails n)
    | none =>
      apply Watched.wp_view_read (.inr trivial) (fun _ _ => rfl)
      intro db env _ now _
      apply Watched.wp_view_perform_bind (.inr trivial)
      intro db env _ id n2 hid hn2
      have hid : db.nextId = id := hid
      have hn2 : { n with drawn := some db.nextId } = n2 := hn2
      subst hid hn2
      rw [wp_bind]
      apply wp_saveLease
      . exact .inr ⟨job, _, hplaced.placing, hplaced.debt, hassigned, rfl, hstatus, rfl,
          htenantEq.symm, hidle, hplaced.leased, rfl⟩
      . dsimp only
        rw [wp_bind]
        apply wp_recordForJob (.inr (.inl rfl))
        . exact hok _ _ rfl rfl rfl rfl rfl
        . intro constraint
          exact herror _ _ nofun nofun nofun (settled_fails _)
      . exact hworker _ _ (hplaced.congr rfl rfl rfl rfl rfl)
      . intro e hne1 hne2 hne3
        exact herror e _ hne1 hne2 hne3 (settled_fails _)

theorem wp_assignWorker {Q : Except Err Worker → Note → Prop}
    (hplaced : Placed jobs nodes job node n) (hassigned : job.assignedNodeId = some node.id)
    (hstatus : job.status ≠ .queued)
    (hok : ∀ worker n', Ready jobs (SchedulerLoop.putBack node nodes) n' → Q (.ok worker) n')
    (hnone : ∀ message n', Placed jobs nodes job node n' → Q (.error (.noAvailableNode message)) n')
    (herror : ∀ e n', (∀ message, e ≠ .noAvailableNode message) → Settled n' → Q (.error e) n')
    : wp recording.view met ticks (assignWorker job) Q n := by
  unfold assignWorker
  rw [hassigned]
  apply Watched.wp_view_perform_bind (.inr hplaced.leased)
  intro db env hschema workers n1 hanswer hn1
  have hanswer : PostgresWorkerRepository.listAcrossTenants env db = workers := hanswer
  subst hanswer
  have hplaced1 : Placed jobs nodes job node n1 := by
    rw [← hn1]
    exact hplaced.congr rfl rfl rfl rfl rfl
  cases hfind : (PostgresWorkerRepository.listAcrossTenants env db).find?
      (fun worker => worker.node.id = node.id && worker.isIdle) with
  | none => exact hnone _ _ hplaced1
  | some worker =>
    have hfound := List.find?_some hfind
    simp only [Bool.and_eq_true, decide_eq_true_eq] at hfound
    have hcurrent := PostgresWorkerRepository.current_of_mem_list hschema
      (List.mem_of_find?_eq_some hfind)
    have hidle : worker.id ∈ n1.idle := by
      rw [← hn1]
      refine List.mem_map.mpr ⟨worker.toRow, List.mem_filter.mpr ⟨Table.mem_of_get? hcurrent.row, ?_⟩, rfl⟩
      exact hfound.right
    dsimp only
    rw [wp_bind, wp_catching]
    apply wp_acquireLease hplaced1 hassigned hstatus hidle
    . intro lease n2 hdebt hidle2 hleased hnodes hqueue
      dsimp only
      rw [wp_bind, wp_runCommand, Worker.accept_run hfound.right (by rw [hassigned, hfound.left])]
      dsimp only
      rw [wp_bind]
      apply wp_saveWorker
      . exact .inr ⟨job.id, hleased, hidle2, hdebt, rfl, nofun⟩
      . dsimp only
        rw [wp_bind]
        apply wp_recordForJob (.inr (.inl hdebt))
        . apply hok
          refine ready_putBack hdebt rfl ?_ ?_ ?_
          . intro other hother
            have hmem := hplaced1.queue other hother
            rw [← hqueue] at hmem
            exact hmem
          . have hseen := hplaced1.seen
            rw [← hnodes] at hseen
            exact hseen
          . intro other hother hne
            have hseen := hplaced1.nodes other hother hne
            rw [← hnodes] at hseen
            exact hseen
        . intro constraint
          exact herror _ _ nofun (settled_fails _)
      . intro constraint
        exact herror _ _ nofun (settled_fails _)
    . intro id n2 hplaced2
      exact hnone _ _ hplaced2
    . intro message
      exact hnone _ _ hplaced1
    . intro e n2 hne1 hne2 hne3 hsettled
      dsimp only
      split
      . next id => exact absurd rfl (hne1 id)
      . next message => exact absurd rfl (hne2 message)
      . exact herror e n2 hne3 hsettled

theorem wp_unschedule (hplaced : Placed jobs nodes job node n) (hstatus : job.status = .scheduled)
    (hjobs : ∀ other ∈ jobs, other.id ≠ job.id)
    : wp recording.view met ticks (SchedulerLoop.unschedule job node)
        (fun r n' =>
          match r with
          | .ok node' => Ready jobs (SchedulerLoop.putBack node' nodes) n'
          | .error _ => Settled n') n := by
  unfold SchedulerLoop.unschedule
  simp only [plainRelease_bind]
  rw [wp_bind, wp_runCommand, Job.unschedule_run hstatus]
  dsimp only
  rw [wp_bind]
  apply wp_saveNode
  . right
    refine ⟨node, hplaced.seen, rfl, rfl, fun hdraining => hdraining, ?_⟩
    rw [hplaced.debt]
    exact ⟨rfl, rfl⟩
  . have hpaid : (n.savesNode (node.release job.resources)).debt = none :=
      debtAfter_of_some hplaced.debt
    dsimp only
    rw [wp_bind]
    apply wp_saveJob
    . exact .inr (.inr ⟨hpaid, job, hplaced.placing, rfl⟩)
    . dsimp only
      rw [wp_bind]
      apply wp_recordForJob (.inr (.inl hpaid))
      . refine ready_putBack hpaid hplaced.leased ?_ ?_ ?_
        . intro other hother
          refine List.mem_filter.mpr ⟨hplaced.queue other hother, ?_⟩
          simpa using hjobs other hother
        . exact Function.update_self _ _ _
        . intro other hother hne
          exact (Function.update_of_ne hne _ _).trans (hplaced.nodes other hother hne)
      . exact fun _ => settled_fails _
    . exact fun _ => settled_fails _
  . exact fun _ => settled_fails _

theorem debt_savesNode_allocated {node' : Node} (hseen : n.nodes node'.id = some node)
    (hdebt : n.debt = none) (havailable : node'.available + job.resources = node.available)
    : (n.savesNode node').debt = some ⟨node'.id, node'.tenantId, job.resources⟩ := by
  have heq : (n.savesNode node').debt = n.debtAfter node' := rfl
  have hne : node'.available ≠ node.available := by
    intro hsame
    rw [hsame] at havailable
    have hcpu := congrArg ResourceRequirements.cpuCores havailable
    have := job.hcpu
    simp only [ResourceRequirements.add_cpuCores] at hcpu
    omega
  have htaken : node.available - node'.available = job.resources := by
    rw [← havailable]
    ext <;> simp
  rw [heq, debtAfter_of_none hdebt hseen, if_neg hne, htaken]

theorem wp_place {now : NodeId → Time} (hready : Ready (job :: jobs) nodes n)
    (hjob : job.status = .queued) (hjobs : ∀ other ∈ jobs, other.id ≠ job.id)
    : wp recording.view met ticks (SchedulerLoop.place now nodes job)
        (fun r n' =>
          match r with
          | .ok nodes' => n'.failed ∨ Ready jobs nodes' n'
          | .error _ => Settled n') n := by
  have hmem := hready.queue job List.mem_cons_self
  unfold SchedulerLoop.place
  cases hselect : Scheduler.selectNode now job nodes with
  | none =>
    refine .inr ⟨hready.debt, hready.leased, ?_, hready.nodes⟩
    intro other hother
    exact hready.queue other (List.mem_cons_of_mem _ hother)
  | some node =>
    have ⟨hnode, hcandidate⟩ := Scheduler.selectNode_eq_some hselect
    have ⟨htenant, _, _, _, hhost⟩ := (Scheduler.isCandidate_iff _ _ _).mp hcandidate
    have ⟨node', hallocate⟩ := Node.allocate_of_canHost hhost
    have ⟨havailable, hid, hcapacity, htenant', hdraining, _⟩ := Node.allocate_eq_ok hallocate
    have hseen := hready.nodes node hnode
    rw [← hid] at hseen
    dsimp only
    rw [hallocate, wp_bind, wp_ofExcept]
    dsimp only
    rw [wp_bind, wp_runCommand, Job.assignTo_run hjob]
    dsimp only
    rw [wp_bind]
    apply wp_saveNode
    . right
      refine ⟨node, hseen, htenant', hcapacity, ?_, ?_⟩
      . rw [hdraining]
        exact id
      . rw [hready.debt]
        exact ⟨job.resources, havailable⟩
    . have hdebt := debt_savesNode_allocated hseen hready.debt havailable
      dsimp only
      rw [wp_bind]
      apply wp_saveJob
      . refine .inr (.inl ⟨job, hmem, rfl, rfl, ?_⟩)
        intro debt howes
        rw [hdebt] at howes
        injection howes with howes
        rw [← howes]
        exact ⟨rfl, (htenant'.trans htenant).symm⟩
      . have hplaced : Placed jobs nodes { job with assignedNodeId := some node'.id, status := .scheduled }
            node' ((n.savesNode node').savesJob
              { job with assignedNodeId := some node'.id, status := .scheduled }) := by
          refine ⟨rfl, hdebt, hready.leased, Function.update_self _ _ _, ?_, ?_⟩
          . intro other hother
            refine List.mem_filter.mpr ⟨hready.queue other (List.mem_cons_of_mem _ hother), ?_⟩
            simpa using hjobs other hother
          . intro other hother hne
            exact (Function.update_of_ne hne _ _).trans (hready.nodes other hother)
        dsimp only
        rw [wp_bind]
        apply wp_recordForJob (.inr (.inr ⟨_, rfl, rfl, rfl⟩))
        . dsimp only
          rw [wp_bind, wp_catching, wp_bind]
          apply wp_assignWorker hplaced rfl nofun
          . intro worker n' hready'
            exact .inr hready'
          . intro message n' hplaced'
            apply wp_mono (wp_unschedule hplaced' rfl hjobs)
            intro r n'' h
            cases r with
            | ok _ => exact .inr h
            | error _ => exact h
          . intro e n' hne hsettled
            dsimp only
            split
            . next message => exact absurd rfl (hne message)
            . exact hsettled
        . exact fun _ => settled_fails _
      . exact fun _ => settled_fails _
    . exact fun _ => settled_fails _

theorem wp_schedulerTick
    : wp recording.view met ticks SchedulerLoop.execute (fun _ n' => Settled n') {} := by
  unfold SchedulerLoop.execute
  apply Watched.wp_view_perform_bind (.inr trivial)
  intro db env _ nodes n1 hanswer hn1
  have hnodes : PostgresNodeRepository.listAvailableAcrossTenants env db = nodes := hanswer
  have hn1 : { ({} : Note) with nodes := db.nodes.get? } = n1 := hn1
  subst hnodes hn1
  have hlisted := SchedulerLoop.upToDate_listAvailable env db
  apply Watched.wp_view_perform_bind (.inr rfl)
  intro db' env' _ jobs n2 hanswer hn2
  have hjobs : PostgresJobRepository.listAcrossTenants env' db' = jobs := hanswer
  subst hjobs
  have hpending := SchedulerLoop.pending_inPriorityOrder env' db'
  rw [wp_bind]
  apply wp_foldlM (fun jobs nodes n => (jobs.map (·.id)).Nodup
    ∧ (∀ job ∈ jobs, job.status = .queued)
    ∧ (n.failed ∨ Ready jobs nodes n))
  . refine ⟨hpending.nodup, hpending.queued, .inr ?_⟩
    rw [← hn2]
    refine ⟨rfl, rfl, ?_, hlisted⟩
    intro job hjob
    refine List.mem_filter.mpr ⟨Table.mem_of_get? (hpending.stored job hjob), ?_⟩
    simpa [Job.isQueued] using hpending.queued job hjob
  . rintro job jobs nodes n ⟨hnodup, hqueued, hn⟩
    rw [List.map_cons, List.nodup_cons] at hnodup
    have hrest : ∀ other ∈ jobs, other.status = .queued :=
      fun other hother => hqueued other (List.mem_cons_of_mem _ hother)
    rcases hn with hfailed | hready
    . apply wp_mono (wp_of_failed (fun _ _ => .inl) hfailed _)
      intro r n' hfailed'
      cases r with
      | ok _ => exact ⟨hnodup.right, hrest, .inl hfailed'⟩
      | error _ => exact .inl hfailed'
    . unfold SchedulerLoop.visit
      apply Watched.wp_view_read (.inr trivial) (fun _ _ => rfl)
      intro _ _ _ now _
      have hjobs : ∀ other ∈ jobs, other.id ≠ job.id := by
        intro other hother heq
        apply hnodup.left
        rw [← heq]
        exact List.mem_map_of_mem hother
      apply wp_mono (wp_place hready (hqueued job List.mem_cons_self) hjobs)
      intro r n' h
      cases r with
      | ok _ => exact ⟨hnodup.right, hrest, h⟩
      | error _ => exact h
  . rintro nodes n ⟨_, _, hn⟩
    exact hn.imp id (fun hready => hready.debt)

end tick

end programs

def tendsNodes (request : Request) : Bool :=
  match request with
  | .service (.heartbeatNode _ _) => true
  | .service (.drainNode _ _) => true
  | .service (.report _ _ _ _ _ _) => true
  | _ => false

variable {ι : Type} [Fintype ι] [DecidableEq ι]

def protocol (tick : ι) : Protocol recording (upToDate (ι := ι)) where
  inv := Sound tick
  met := met
  guard i := if i = tick then ticks else calls
  hmet _ _ _ h := h.owners.schema
  hstep db notes i c env h hguard hcurrent := by
    have hsound := h.balanced.sound i
    split at hguard
    . next heq =>
      subst heq
      rcases hguard with hfailed | hmay
      . rw [hsound] at hfailed
        contradiction
      . exact h.step_tick hmay hcurrent
    . next hne =>
      rcases hguard with hfailed | hmay
      . rw [hsound] at hfailed
        contradiction
      . exact h.step_call hne hmay hcurrent

def Ends (request : Request) (r : Except Err Unit) (n : Note) : Prop :=
  Settled n
    ∧ ∀ nodeId tenant, request = .service (.drainNode nodeId tenant) → r = .ok () →
      nodeId ∈ n.draining

theorem wp_run {request : Request} (hrequest : tendsNodes request)
    : wp recording.view met calls request.run (Ends request) {} := by
  cases request with
  | releaseLease worker lease tenant => contradiction
  | execution worker renewals result => contradiction
  | service served =>
    cases served with
    | heartbeatNode node tenant =>
      rw [Request.run, ServiceCall.run, wp_discardView]
      apply wp_mono (wp_heartbeatNode node tenant)
      exact fun r n hsettled => ⟨hsettled, nofun⟩
    | drainNode node tenant =>
      rw [Request.run, ServiceCall.run, wp_discardView]
      apply wp_mono (wp_drainNode node tenant)
      intro r n ⟨hsettled, hdraining⟩
      refine ⟨hsettled, ?_⟩
      intro nodeId tenantId heq hok
      injection heq with heq
      injection heq with hnode
      rw [← hnode]
      cases r with
      | error e => contradiction
      | ok drained => exact hdraining drained rfl
    | report outcome worker job tenant lease exitCode =>
      rw [Request.run, ServiceCall.run, wp_discardView]
      apply wp_mono (wp_report outcome worker job tenant lease exitCode)
      exact fun r n hsettled => ⟨hsettled, nofun⟩
    | _ => contradiction

section theorems

variable {tick : ι} {requests : ι → Request} {db : DB}

theorem holds_pending (hinv : Inv db) (htick : requests tick = .service .schedulerTick)
    (hrequests : ∀ i ≠ tick, tendsNodes (requests i))
    : (protocol tick).Holds (fun i => Ends (requests i)) (pending requests db {}) := by
  refine ⟨sound_pending hinv, ?_⟩
  intro i
  by_cases hi : i = tick
  . subst hi
    have hguard : (protocol i).guard i = ticks := if_pos rfl
    rw [hguard]
    dsimp only [pending]
    rw [htick]
    apply wp_mono wp_schedulerTick
    exact fun r n hsettled => ⟨hsettled, nofun⟩
  . have hguard : (protocol tick).guard i = calls := if_neg hi
    rw [hguard]
    exact wp_run (hrequests i hi)

theorem no_lost_update (tick : ι) {pool : Pool signature Err Unit DB Note ι} (hinv : Inv db)
    (htick : requests tick = .service .schedulerTick)
    (hrequests : ∀ i ≠ tick, tendsNodes (requests i))
    (hreaches : Reaches recording upToDate (pending requests db {}) pool)
    (hdone : ∀ i, (pool.threads i).isDone)
    : (∀ i nodeId tenant, requests i = .service (.drainNode nodeId tenant) →
        pool.threads i = .ret () →
        ∃ node, pool.state.nodes.get? nodeId = some node ∧ node.draining)
        ∧ ∀ node ∈ pool.state.nodes.rows,
          node.available + used pool.state node.id = node.capacity := by
  have hholds := (holds_pending hinv htick hrequests).reaches hreaches
  have hsound : Sound tick pool.state pool.notes := hholds.inv
  constructor
  . intro i nodeId tenant hrequest hreturned
    have hends := hholds.result hreturned
    exact hsound.balanced.draining i nodeId (hends.right nodeId tenant hrequest rfl)
  . have hnothing : ∀ i, (pool.notes i).debt = none := by
      intro i
      have hsettled : Settled (pool.notes i) := by
        cases hthread : pool.threads i with
        | ret a => exact (hholds.result hthread).left
        | raise e => exact (hholds.error hthread).left
        | call c k =>
          have := hdone i
          rw [hthread] at this
          contradiction
      rcases hsettled with hfailed | hdebt
      . rw [hsound.balanced.sound i] at hfailed
        contradiction
      . exact hdebt
    intro node hnode
    have hbooks := hsound.balanced.books node hnode
    rw [Finset.sum_eq_zero (fun i _ => owed_of_none (hnothing i) node.id), add_zero] at hbooks
    exact hbooks

end theorems

def drainDuringTick (i : Fin 3) : Request :=
  match i with
  | 0 => .service .schedulerTick
  | 1 => .service (.heartbeatNode ⟨0⟩ ⟨0⟩)
  | 2 => .service (.drainNode ⟨0⟩ ⟨0⟩)

def aroundBoth {ι : Type} (tick heartbeat drain : ι) : List (ι × Env) :=
  (heartbeat, { now := 0 })
    :: (List.replicate 14 (tick, { now := 0 })
      ++ List.replicate 2 (drain, { now := 0 })
      ++ List.replicate 2 (heartbeat, { now := 0 }))

theorem updates_lost
    : Reachable anyCall ⟨replay oneQueuedJob DB.empty, []⟩
        ∧ (∀ i ≠ 0, tendsNodes (drainDuringTick i))
        ∧ ∃ pool, Reaches recording anyTime
            (pending drainDuringTick (replay oneQueuedJob DB.empty) {}) pool
          ∧ (∀ i, (pool.threads i).isDone)
          ∧ ⟨0⟩ ∈ (pool.notes 2).draining
          ∧ ∃ node ∈ pool.state.nodes.rows, node.id = ⟨0⟩
            ∧ node.draining = false
            ∧ node.available + used pool.state node.id ≠ node.capacity := by
  refine ⟨reachable_oneQueuedJob, by decide, ?_⟩
  exact exists_reaches_of_play (W := recording) (C := anyTime)
    (pending drainDuringTick (replay oneQueuedJob DB.empty) {}) (aroundBoth 0 1 2)
    (fun pool => (∀ i, (pool.threads i).isDone)
      ∧ ⟨0⟩ ∈ (pool.notes 2).draining
      ∧ ∃ node ∈ pool.state.nodes.rows, node.id = ⟨0⟩
        ∧ node.draining = false
        ∧ node.available + used pool.state node.id ≠ node.capacity)
    (by decide +kernel)

def afterTheTick {ι : Type} (tick heartbeat drain : ι) : List (ι × Env) :=
  List.replicate 14 (tick, { now := 0 })
    ++ List.replicate 3 (heartbeat, { now := 0 })
    ++ List.replicate 2 (drain, { now := 0 })

theorem no_lost_update_afterTheTick
    : ∃ pool, Reaches recording upToDate
          (pending drainDuringTick (replay oneQueuedJob DB.empty) {}) pool
        ∧ (∀ i, (pool.threads i).isDone)
        ∧ ∀ node ∈ pool.state.nodes.rows,
          node.available + used pool.state node.id = node.capacity := by
  have ⟨pool, hreaches, hdone⟩ := exists_reaches_of_play (W := recording) (C := upToDate)
    (pending drainDuringTick (replay oneQueuedJob DB.empty) {}) (afterTheTick 0 1 2)
    (fun pool => ∀ i, (pool.threads i).isDone) (by decide +kernel)
  refine ⟨pool, hreaches, hdone, ?_⟩
  have hinv : Inv (replay oneQueuedJob DB.empty) := reachable_oneQueuedJob.ordered.inv
  exact (no_lost_update 0 hinv rfl (by decide) hreaches hdone).right

end NodeBooks

end AetherGrid
