import AetherGrid.Service.Lemmas.Execution
import AetherGrid.Service.Lemmas.Reconciliation
import AetherGrid.Service.Lemmas.Scheduling

/-!
This module contains the cluster as a transition system: service calls run one at a time, in any order
and with any clock, and executions that are under way in this process go on between them.
-/

namespace AetherGrid

open Prog

inductive ServiceCall where
  | createNode (capacity : ResourceRequirements) (tenant : TenantId) (name : Option String)
  | createJob (resources : ResourceRequirements) (tenant : TenantId) (command : Option (List String))
  | postWorkers (node : NodeId) (tenant : TenantId) (managedBy : WorkerManagement)
  | schedulerTick
  | startJob (worker : WorkerId) (job : JobId) (tenant : TenantId)
  | report (outcome : ReportJobOutcome.Outcome) (worker : WorkerId) (job : JobId) (tenant : TenantId)
    (lease : LeaseId) (exitCode : Option Int)
  | cancelJob (job : JobId) (tenant : TenantId)
  | retryJob (job : JobId) (tenant : TenantId)
  | renewLease (worker : WorkerId) (lease : LeaseId) (tenant : TenantId) (duration : Duration)
  | workerHeartbeat (worker : WorkerId) (tenant : TenantId)
  | heartbeatNode (node : NodeId) (tenant : TenantId)
  | drainNode (node : NodeId) (tenant : TenantId)
  | removeOfflineNode (node : NodeId) (tenant : TenantId)
  | markDeadWorkers
  | recoverExpiredLeases
  | recoverOfflineNodes

def ServiceCall.run [Releasing] (call : ServiceCall) : Service Unit :=
  match call with
  | .createNode capacity tenant name => discard (AetherGrid.createNode capacity tenant name)
  | .createJob resources tenant command => discard (AetherGrid.createJob resources tenant command)
  | .postWorkers node tenant managedBy => discard (AetherGrid.postWorkers node tenant managedBy)
  | .schedulerTick => SchedulerLoop.execute
  | .startJob worker job tenant => discard (AetherGrid.startJob worker job tenant)
  | .report outcome worker job tenant lease exitCode =>
    discard (ReportJobOutcome.report outcome worker job tenant lease exitCode)
  | .cancelJob job tenant => discard (AetherGrid.cancelJob job tenant)
  | .retryJob job tenant => discard (AetherGrid.retryJob job tenant)
  | .renewLease worker lease tenant duration => AetherGrid.renewLease worker lease tenant duration
  | .workerHeartbeat worker tenant => discard (AetherGrid.workerHeartbeat worker tenant)
  | .heartbeatNode node tenant => discard (AetherGrid.heartbeatNode node tenant)
  | .drainNode node tenant => discard (AetherGrid.drainNode node tenant)
  | .removeOfflineNode node tenant => AetherGrid.removeOfflineNode node tenant
  | .markDeadWorkers => MarkDeadWorkers.execute
  | .recoverExpiredLeases => RecoverExpiredLease.execute
  | .recoverOfflineNodes => RecoverOfflineNode.execute

structure Cluster where
  db : DB
  executions : List Execution := []

def anyClock : Env → Prop :=
  fun _ => True

inductive Step [Releasing] (P : DB → ServiceCall → Prop) (c : Cluster) : Cluster → Prop where
  | service (call : ServiceCall) {r : Except Err Unit} {db : DB} (hcall : P c.db call)
    (hruns : Runs postgres anyClock call.run c.db r db)
    : Step P c { c with db := db }
  | begin (workerId : WorkerId) {execution : Execution} {db : DB}
    (hruns : Runs postgres anyClock (WorkerExecutionLoop.begin workerId) c.db
      (.ok (some execution)) db)
    : Step P c ⟨db, execution :: c.executions⟩
  | beginNothing (workerId : WorkerId) {r : Except Err (Option Execution)} {db : DB}
    (hruns : Runs postgres anyClock (WorkerExecutionLoop.begin workerId) c.db r db)
    (hnothing : ∀ execution, r ≠ .ok (some execution))
    : Step P c { c with db := db }
  | keepLeaseAlive {execution execution' : Execution} {db : DB}
    (hexecution : execution ∈ c.executions)
    (hruns : Runs postgres anyClock (WorkerExecutionLoop.keepLeaseAlive execution) c.db
      (.ok execution') db)
    : Step P c ⟨db, execution' :: c.executions.erase execution⟩
  | keepLeaseAliveError {execution : Execution} {e : Err} {db : DB}
    (hexecution : execution ∈ c.executions)
    (hruns : Runs postgres anyClock (WorkerExecutionLoop.keepLeaseAlive execution) c.db
      (.error e) db)
    : Step P c { c with db := db }
  | finish {execution : Execution} (result : JobExecutionResult) {r : Except Err Unit} {db : DB}
    (hexecution : execution ∈ c.executions)
    (hruns : Runs postgres anyClock (WorkerExecutionLoop.finish execution result) c.db r db)
    : Step P c ⟨db, c.executions.erase execution⟩

structure Pristine (db : DB) : Prop where
  schema : Schema db
  noLease : db.leases.rows = []
  free : ∀ row ∈ db.workers.rows, row.runningJobId = none
  oneWorker : ∀ a ∈ db.workers.rows, ∀ b ∈ db.workers.rows, a.nodeId = b.nodeId → a = b
  available : ∀ node ∈ db.nodes.rows, node.available = node.capacity
  inactive : ∀ job ∈ db.jobs.rows, job.status.isActive = false
  freshNode : ∀ node ∈ db.nodes.rows, node.id.value < db.nextId
  freshJob : ∀ job ∈ db.jobs.rows, job.id.value < db.nextId
  freshWorker : ∀ row ∈ db.workers.rows, row.id.value < db.nextId

inductive Reachable [Releasing] (P : DB → ServiceCall → Prop) : Cluster → Prop where
  | init {db : DB} (hdb : Pristine db) : Reachable P ⟨db, []⟩
  | step {c c' : Cluster} (hc : Reachable P c) (hstep : Step P c c') : Reachable P c'

def anyCall : DB → ServiceCall → Prop :=
  fun _ _ => True

theorem pristine_empty : Pristine DB.empty := by
  refine ⟨⟨?_, ?_, ?_, ?_, ?_, ?_, ?_⟩, rfl, ?_, ?_, ?_, ?_, ?_, ?_, ?_⟩
  all_goals
    intro x hx
    contradiction

theorem Pristine.not_leased {db : DB} (h : Pristine db) (id : JobId) : ¬Leased db id := by
  intro ⟨lease, hlease, _⟩
  rw [h.noLease] at hlease
  contradiction

theorem Pristine.inv {db : DB} (h : Pristine db) : Inv db := by
  refine ⟨h.schema, ?_, ?_, ?_, h.oneWorker, ?_, h.freshNode, h.freshJob, h.freshWorker, ?_⟩
  . intro lease hlease
    rw [h.noLease] at hlease
    contradiction
  . intro row hrow jobId hjobId
    rw [h.free row hrow] at hjobId
    contradiction
  . intro row hrow _
    exact h.free row hrow
  . intro node hnode
    have hused : used db node.id = 0 := by
      apply Table.sum_eq_zero_of_weight
      intro id
      cases hjob : db.jobs.get? id with
      | none => exact Table.weight_of_none hjob
      | some job =>
        rw [Table.weight_of_get? hjob]
        exact demand_of_not_leased (h.not_leased job.id)
    rw [hused, add_zero]
    exact h.available node hnode
  . intro lease hlease
    rw [h.noLease] at hlease
    contradiction

theorem Pristine.not_stranded {db : DB} (h : Pristine db) (id : JobId) : ¬Stranded db id := by
  intro ⟨job, hjob, hactive, _⟩
  rw [h.inactive job (Table.mem_of_get? hjob)] at hactive
  contradiction

theorem wp_discard {α : Type} {H : Env → Prop} {n : Nat} {p : Service α} {db : DB} {Q : DB → Prop}
    (h : wp postgres H (lawful n) p (fun _ db' => Q db') db)
    : wp postgres H (lawful n) (discard p) (fun _ db' => Q db') db := by
  have hdiscard : discard p = (fun _ => PUnit.unit) <$> p := rfl
  rw [hdiscard, wp_map]
  exact h

def removesVacant (db : DB) (call : ServiceCall) : Prop :=
  match call with
  | .removeOfflineNode nodeId _ => Vacant db nodeId
  | _ => True

theorem ServiceCall.wp_run [Releasing] {H : Env → Prop} {db : DB} {n : Nat} (hinv : Inv db)
    (call : ServiceCall) (hn : call = .schedulerTick → n ≤ db.nextId)
    : wp postgres H (lawful n) call.run
        (fun _ db' => Inv db'
          ∧ Keeps db db'
          ∧ (removesVacant db call → ∀ id, Stranded db' id → Stranded db id)) db := by
  -- the removal of a node is the one call that can leave an active job without its lease
  have hgood : ∀ {α : Type} {p : Service α},
      wp postgres H (lawful n) p (fun _ db' => Good db db') db →
      wp postgres H (lawful n) p
        (fun _ db' => Inv db' ∧ Keeps db db'
          ∧ (True → ∀ id, Stranded db' id → Stranded db id)) db := by
    intro α p h
    apply wp_mono h
    intro r db' hgood
    exact ⟨hgood.inv, hgood.keeps, fun _ => hgood.stranded⟩
  have hok : ∀ {α : Type} {p : Service α} {a : α},
      wp postgres H (lawful n) p (fun r db' => r = .ok a ∧ Good db db') db →
      wp postgres H (lawful n) p (fun _ db' => Good db db') db := by
    intro α p a h
    apply wp_mono h
    intro r db' h'
    exact h'.right
  cases call with
  | createNode capacity tenant name => exact wp_discard (hgood (wp_createNode hinv capacity tenant name))
  | createJob resources tenant command =>
    exact wp_discard (hgood (wp_createJob hinv resources tenant command))
  | postWorkers node tenant managedBy =>
    exact wp_discard (hgood (wp_postWorkers hinv node tenant managedBy))
  | schedulerTick =>
    have hexecute := SchedulerLoop.wp_execute (H := H) (G := lawful n) hinv
      (fun _ _ hle => Nat.le_trans (hn rfl) hle)
    exact hgood (wp_mono hexecute (fun _ _ h => h.right.left))
  | startJob worker job tenant =>
    exact wp_discard (hgood (wp_mono (wp_startJob hinv worker job tenant) (fun _ _ h => h.left)))
  | report outcome worker job tenant lease exitCode =>
    exact wp_discard (hgood
      (wp_mono (ReportJobOutcome.wp_report hinv outcome worker job tenant lease exitCode)
        (fun _ _ h => h.left)))
  | cancelJob job tenant => exact wp_discard (hgood (wp_cancelJob hinv job tenant))
  | retryJob job tenant => exact wp_discard (hgood (wp_retryJob hinv job tenant))
  | renewLease worker lease tenant duration =>
    exact hgood (wp_mono (wp_renewLease_good hinv worker lease tenant duration) (fun _ _ h => h.left))
  | workerHeartbeat worker tenant => exact wp_discard (hgood (wp_workerHeartbeat hinv worker tenant))
  | heartbeatNode node tenant => exact wp_discard (hgood (wp_heartbeatNode hinv node tenant))
  | drainNode node tenant => exact wp_discard (hgood (wp_drainNode hinv node tenant))
  | removeOfflineNode node tenant => exact wp_removeOfflineNode hinv node tenant
  | markDeadWorkers => exact hgood (hok (MarkDeadWorkers.wp_execute hinv))
  | recoverExpiredLeases => exact hgood (hok (RecoverExpiredLease.wp_execute hinv))
  | recoverOfflineNodes => exact hgood (hok (RecoverOfflineNode.wp_execute hinv))

structure Cluster.Ordered (c : Cluster) : Prop where
  inv : Inv c.db
  executions : ∀ execution ∈ c.executions, execution.Valid c.db

theorem Cluster.Ordered.keeps {c : Cluster} {db : DB} (h : c.Ordered) (hinv : Inv db)
    (hkeeps : Keeps c.db db) : Cluster.Ordered { c with db := db } := by
  refine ⟨hinv, ?_⟩
  intro execution hexecution
  exact (h.executions execution hexecution).keeps hkeeps

theorem Cluster.Ordered.erase {c : Cluster} (h : c.Ordered) (execution : Execution)
    : Cluster.Ordered { c with executions := c.executions.erase execution } := by
  refine ⟨h.inv, ?_⟩
  intro other hother
  exact h.executions other (List.mem_of_mem_erase hother)

theorem Cluster.Ordered.cons {c : Cluster} (h : c.Ordered) {execution : Execution}
    (hvalid : execution.Valid c.db)
    : Cluster.Ordered { c with executions := execution :: c.executions } := by
  refine ⟨h.inv, ?_⟩
  intro other hother
  cases List.mem_cons.mp hother with
  | inl heq =>
    rw [heq]
    exact hvalid
  | inr hother => exact h.executions other hother

theorem Step.ordered [Releasing] {P : DB → ServiceCall → Prop} {c c' : Cluster} (h : Step P c c')
    (hc : c.Ordered)
    : c'.Ordered
        ∧ Keeps c.db c'.db
        ∧ ((∀ call, P c.db call → removesVacant c.db call) →
          ∀ id, Stranded c'.db id → Stranded c.db id) := by
  cases h with
  | service call hcall hruns =>
    have ⟨hinv, hkeeps, hstranded⟩ := hruns.of_wp (call.wp_run hc.inv (fun _ => Nat.zero_le _))
    exact ⟨hc.keeps hinv hkeeps, hkeeps, fun h => hstranded (h call hcall)⟩
  | begin workerId hruns =>
    have ⟨hgood, hvalid⟩ := hruns.of_wp (WorkerExecutionLoop.wp_begin (n := 0) hc.inv workerId)
    exact ⟨(hc.keeps hgood.inv hgood.keeps).cons (hvalid _ rfl).left, hgood.keeps,
      fun _ => hgood.stranded⟩
  | beginNothing workerId hruns _ =>
    have ⟨hgood, _⟩ := hruns.of_wp (WorkerExecutionLoop.wp_begin (n := 0) hc.inv workerId)
    exact ⟨hc.keeps hgood.inv hgood.keeps, hgood.keeps, fun _ => hgood.stranded⟩
  | @keepLeaseAlive execution _ _ hexecution hruns =>
    have ⟨hgood, hvalid⟩ := hruns.of_wp
      (WorkerExecutionLoop.wp_keepLeaseAlive (n := 0) hc.inv (hc.executions execution hexecution))
    have hkept := (hc.keeps hgood.inv hgood.keeps).erase execution
    exact ⟨hkept.cons (hvalid _ rfl).left, hgood.keeps, fun _ => hgood.stranded⟩
  | @keepLeaseAliveError execution _ _ hexecution hruns =>
    have ⟨hgood, _⟩ := hruns.of_wp
      (WorkerExecutionLoop.wp_keepLeaseAlive (n := 0) hc.inv (hc.executions execution hexecution))
    exact ⟨hc.keeps hgood.inv hgood.keeps, hgood.keeps, fun _ => hgood.stranded⟩
  | @finish execution result _ _ hexecution hruns =>
    have hgood := hruns.of_wp
      (WorkerExecutionLoop.wp_finish (G := noGuard) hc.inv (hc.executions execution hexecution) result
        (fun _ _ _ _ _ _ _ _ _ _ => trivial))
    exact ⟨(hc.keeps hgood.inv hgood.keeps).erase execution, hgood.keeps, fun _ => hgood.stranded⟩

theorem Reachable.ordered [Releasing] {P : DB → ServiceCall → Prop} {c : Cluster} (h : Reachable P c)
    : c.Ordered := by
  induction h with
  | init hdb =>
    refine ⟨hdb.inv, ?_⟩
    intro execution hexecution
    contradiction
  | step _ hstep ih => exact (hstep.ordered ih).left

theorem Reachable.not_stranded {c : Cluster} (h : Reachable removesVacant c) (id : JobId)
    : ¬Stranded c.db id := by
  induction h with
  | init hdb => exact hdb.not_stranded id
  | step hc hstep ih =>
    intro hstranded
    exact ih ((hstep.ordered hc.ordered).right.right (fun _ h => h) id hstranded)

def replay (calls : List (Env × ServiceCall)) (db : DB) : DB :=
  match calls with
  | [] => db
  | (env, request) :: calls => replay calls (eval postgres env request.run db).2

theorem reachable_replay {P : DB → ServiceCall → Prop} (calls : List (Env × ServiceCall)) {db : DB}
    (h : Reachable P ⟨db, []⟩) (hcalls : ∀ db, ∀ call ∈ calls, P db call.2)
    : Reachable P ⟨replay calls db, []⟩ := by
  induction calls generalizing db with
  | nil => exact h
  | cons entry calls ih =>
    have ⟨env, request⟩ := entry
    apply ih
    . apply h.step
      exact .service request (hcalls db _ List.mem_cons_self) (runs_eval trivial _ _)
    . intro db entry hentry
      exact hcalls db entry (List.mem_cons_of_mem _ hentry)

def oneRunningJob : List (Env × ServiceCall) :=
  [({ now := 0 }, .createNode ⟨4, 4096, 0⟩ ⟨0⟩ none),
    ({ now := 0 }, .createJob ⟨1, 1024, 0⟩ ⟨0⟩ none),
    ({ now := 0 }, .postWorkers ⟨0⟩ ⟨0⟩ .agent),
    ({ now := 0 }, .schedulerTick),
    ({ now := 0 }, .startJob ⟨3⟩ ⟨1⟩ ⟨0⟩)]

def oneQueuedJob : List (Env × ServiceCall) :=
  oneRunningJob.take 3

theorem reachable_oneQueuedJob : Reachable anyCall ⟨replay oneQueuedJob DB.empty, []⟩ := by
  apply reachable_replay
  . exact .init pristine_empty
  . intro db call _
    trivial

theorem reachable_oneRunningJob : Reachable anyCall ⟨replay oneRunningJob DB.empty, []⟩ := by
  apply reachable_replay
  . exact .init pristine_empty
  . intro db call _
    trivial

end AetherGrid
