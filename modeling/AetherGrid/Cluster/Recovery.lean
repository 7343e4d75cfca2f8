import AetherGrid.Cluster.System
import AetherGrid.Service.Lemmas.DeadWorkers

/-!
This module contains what the recovery of an offline node does to the row of the node, and the comparison
with the recovery of an expired lease.
-/

namespace AetherGrid

open Prog

variable {db db' : DB}

namespace RecoverOfflineNode

structure Columns where
  name : String
  capacity : ResourceRequirements
  labels : List (String × String)
  lastSeenAt : Time
  draining : Bool
  tenantId : TenantId
  deriving DecidableEq

def columns (node : Node) : Columns where
  name := node.name
  capacity := node.capacity
  labels := node.labels
  lastSeenAt := node.lastSeenAt
  draining := node.draining
  tenantId := node.tenantId

def notAfter (late : Time) (env : Env) : Prop :=
  env.now ≤ late ∧ ∀ id, env.nowFor id ≤ late

def Abandoned (db : DB) (late : Time) (row : WorkerRow) : Prop :=
  nodeOffline db late row.nodeId ∧ jobUnleased db late row

instance (late : Time) (row : WorkerRow) : Decidable (Abandoned db late row) :=
  inferInstanceAs (Decidable (_ ∧ _))

variable {late : Time}

theorem isAlive_of_le {node : Node} {t t' : Time} (h : t ≤ t') (halive : node.isAlive t' = true)
    : node.isAlive t = true := by
  unfold Node.isAlive at halive ⊢
  rw [decide_eq_true_eq] at halive ⊢
  exact Int.le_trans (Int.sub_le_sub_right h _) halive

theorem nodeOffline_of_mem (env : Env) {now : NodeId → Time} (hnow : ∀ id, now id ≤ late)
    (nodeId : NodeId)
    (h : nodeId ∈ ((PostgresNodeRepository.listAcrossTenants env db).filter
      (fun node => !node.isAlive (now node.id))).map (·.id))
    : nodeOffline db late nodeId = true := by
  rw [List.mem_map] at h
  have ⟨node, hnode, hid⟩ := h
  unfold PostgresNodeRepository.listAcrossTenants at hnode
  rw [List.mem_filter, (env.nodeOrder.hperm _).mem_iff] at hnode
  unfold nodeOffline
  rw [Option.any_eq_true]
  refine ⟨node, ?_, ?_⟩
  . rw [← hid]
    exact db.nodes.get?_key_of_mem hnode.left
  . have hdead := hnode.right
    simp only [Bool.not_eq_eq_eq_not, Bool.not_true] at hdead ⊢
    rw [Bool.eq_false_iff] at hdead ⊢
    intro halive
    exact hdead (isAlive_of_le (hnow node.id) halive)

theorem wp_execute_unchanged (hschema : Schema db)
    (hnone : ∀ row ∈ db.workers.rows, ¬Abandoned db late row)
    : wp postgres (notAfter late) noGuard execute (fun _ db' => db' = db) db := by
  unfold execute
  refine wp_perform_bind rfl ?_
  intro env henv
  refine wp_perform_bind rfl ?_
  intro env' henv'
  dsimp only [Call.exec]
  have hoffline : ∀ nodeId, _ → nodeOffline db late nodeId = true :=
    nodeOffline_of_mem env henv'.right
  generalize ((PostgresNodeRepository.listAcrossTenants env db).filter
      (fun node => !node.isAlive (env'.nowFor node.id))).map (·.id) = offline at hoffline ⊢
  split
  . rfl
  . refine wp_perform_bind rfl ?_
    intro env'' henv''
    dsimp only [Call.exec]
    apply wp_forM (fun workers db' => db' = db ∧ ∀ worker ∈ workers, Current db worker)
    . refine ⟨rfl, ?_⟩
      intro worker hworker
      exact PostgresWorkerRepository.current_of_mem_list hschema hworker
    . intro worker workers db1 ⟨hdb, hcurrent⟩
      subst hdb
      have hworker := hcurrent worker List.mem_cons_self
      have hrest : ∀ other ∈ workers, Current db1 other := by
        intro other hother
        exact hcurrent other (List.mem_cons_of_mem _ hother)
      apply wp_recover_cases hschema offline (known_of_current hworker)
      . exact fun _ _ => rfl
      . intros
        trivial
      . intro _
        exact ⟨rfl, hrest⟩
      . intros
        exact ⟨rfl, hrest⟩
      . intro db2 job hmem hjob hexpired _ _
        apply absurd _ (hnone _ (Table.mem_of_get? hworker.row))
        refine ⟨hoffline _ hmem, ?_⟩
        rw [jobUnleased_iff hjob]
        intro lease hlease hleaseJob
        have ⟨env, henv, hlt⟩ := hexpired lease hlease hleaseJob
        exact Int.lt_of_lt_of_le hlt henv.left
    . intro db1 h
      exact h.left

theorem name_of_mem_list {env : Env} {worker : Worker}
    (h : worker ∈ PostgresWorkerRepository.listAcrossTenants env db)
    : worker.node.name = env.nodeName worker.node.id := by
  unfold PostgresWorkerRepository.listAcrossTenants at h
  have ⟨row, _, hentity⟩ := List.mem_filterMap.mp h
  unfold PostgresWorkerRepository.toEntity at hentity
  split at hentity
  . contradiction
  . next node hnode =>
    injection hentity with hentity
    rw [← hentity]
    dsimp only
    rw [Table.key_of_get? hnode]

def Named (db : DB) (env : Env) (nodeId : NodeId) : Prop :=
  ∃ node, db.nodes.get? nodeId = some node ∧ node.name = env.nodeName nodeId

theorem Named.after_recovery {env : Env} {nodeId : NodeId} {worker : Worker} {job : Job}
    (hname : worker.node.name = env.nodeName worker.node.id)
    (h : worker.node.id = nodeId ∨ Named db env nodeId)
    (hrecovered : Recovered db db' worker job (some worker.node)) : Named db' env nodeId := by
  unfold Named
  rw [hrecovered.nodes]
  unfold releasedNodes
  rw [Table.get?_upsert]
  split
  . next heq =>
    refine ⟨_, rfl, ?_⟩
    rw [← heq]
    exact hname
  . next hne =>
    cases h with
    | inl heq => exact absurd heq hne
    | inr h => exact h

structure Naming (db : DB) (env : Env) (row : WorkerRow) (workers : List Worker) (db' : DB)
    : Prop where
  visits : Visits db' workers
  names : ∀ worker ∈ workers, worker.node.name = env.nodeName worker.node.id
  leases : ∀ lease ∈ db'.leases.rows, lease ∈ db.leases.rows
  named : (∃ worker ∈ workers, worker.toRow = row) ∨ Named db' env row.nodeId

namespace Naming

variable {env : Env} {row : WorkerRow} {worker : Worker} {workers : List Worker}

theorem start (hschema : Schema db) (hrow : row ∈ db.workers.rows)
    : Naming db env row (PostgresWorkerRepository.listAcrossTenants env db) db where
  visits := Visits.start hschema env
  names _ := name_of_mem_list
  leases _ h := h
  named := by
    left
    have hsorted := (env.workerOrder.hperm _).mem_iff.mpr hrow
    rw [← PostgresWorkerRepository.map_toRow_list hschema, List.mem_map] at hsorted
    exact hsorted

theorem skip (h : Naming db env row (worker :: workers) db') (hne : worker.toRow ≠ row)
    : Naming db env row workers db' where
  visits := h.visits.skip
  names other hother := h.names other (List.mem_cons_of_mem _ hother)
  leases := h.leases
  named := by
    apply h.named.imp_left
    rintro ⟨other, hother, htoRow⟩
    cases List.mem_cons.mp hother with
    | inl heq => exact absurd (heq ▸ htoRow) hne
    | inr hother => exact ⟨other, hother, htoRow⟩

theorem recover {db1 : DB} {job : Job} (h : Naming db env row (worker :: workers) db1)
    (hjob : worker.runningJob = some job)
    (hrecovered : Recovered db1 db' worker job (some worker.node))
    (hleases : ∀ lease ∈ db'.leases.rows, lease ∈ db1.leases.rows)
    : Naming db env row workers db' where
  visits := h.visits.recover hjob hrecovered
  names other hother := h.names other (List.mem_cons_of_mem _ hother)
  leases lease hlease := h.leases lease (hleases lease hlease)
  named := by
    have hname := h.names worker List.mem_cons_self
    cases h.named with
    | inl hcome =>
      obtain ⟨other, hother, htoRow⟩ := hcome
      cases List.mem_cons.mp hother with
      | inl heq =>
        rw [heq] at htoRow
        have hnode : worker.node.id = row.nodeId := by
          rw [← htoRow]
          rfl
        exact .inr (Named.after_recovery hname (.inl hnode) hrecovered)
      | inr hother => exact .inl ⟨other, hother, htoRow⟩
    | inr hnamed => exact .inr (Named.after_recovery hname (.inr hnamed) hrecovered)

theorem finish (h : Naming db env row [] db') : Named db' env row.nodeId := by
  cases h.named with
  | inl hcome =>
    obtain ⟨_, hnil, _⟩ := hcome
    contradiction
  | inr hnamed => exact hnamed

end Naming

theorem wp_execute_named (hschema : Schema db) {env : Env} (hnow : env.now = late)
    (hnowFor : ∀ id, env.nowFor id = late) {row : WorkerRow} (hrow : row ∈ db.workers.rows)
    (habandoned : Abandoned db late row)
    : wp postgres (· = env) noGuard execute (fun _ db' => Named db' env row.nodeId) db := by
  unfold execute
  refine wp_perform_bind rfl ?_
  intro env henv
  subst henv
  refine wp_perform_bind rfl ?_
  intro env henv
  subst henv
  dsimp only [Call.exec]
  have hoffline := mem_offline_iff db env hnowFor row.nodeId
  generalize ((PostgresNodeRepository.listAcrossTenants env db).filter
      (fun node => !node.isAlive (env.nowFor node.id))).map (·.id) = offline at hoffline ⊢
  have hmem := hoffline.mpr habandoned.left
  split
  . next hempty =>
    rw [List.isEmpty_iff] at hempty
    rw [hempty] at hmem
    contradiction
  . refine wp_perform_bind rfl ?_
    intro env henv
    subst henv
    dsimp only [Call.exec]
    apply wp_forM (Naming db env row)
    . exact Naming.start hschema hrow
    . intro worker workers db1 hnaming
      apply wp_recover_cases hnaming.visits.schema offline hnaming.visits.head
      . exact fun _ _ => rfl
      . intros
        trivial
      . intro hor
        apply hnaming.skip
        intro htoRow
        have hunleased := habandoned.right
        rw [← htoRow] at hunleased hmem
        cases hor with
        | inl hnot => exact hnot hmem
        | inr hnone =>
          unfold jobUnleased Worker.toRow at hunleased
          rw [hnone] at hunleased
          contradiction
      . intro env job lease henv hjob hlease hleaseJob hle
        subst henv
        apply hnaming.skip
        intro htoRow
        have hunleased := habandoned.right
        rw [← htoRow, jobUnleased_iff hjob] at hunleased
        have hlt := hunleased lease (hnaming.leases lease hlease) hleaseJob
        rw [← hnow] at hlt
        exact Int.not_lt.mpr hle hlt
      . intro db2 job _ hjob _ hrecovered hleases
        apply hnaming.recover hjob hrecovered
        intro lease hlease
        exact ((hleases lease).mp hlease).left
    . intro db1 hnaming
      exact hnaming.finish

theorem columns_kept_iff (hschema : Schema db)
    : (∀ r db', Runs postgres (notAfter late) execute db r db' →
        ∀ id, (db'.nodes.get? id).map columns = (db.nodes.get? id).map columns)
        ↔
      ∀ row ∈ db.workers.rows, ¬Abandoned db late row := by
  constructor
  . intro hkept row hrow habandoned
    have hnode := hschema.workerNode row hrow
    unfold PostgresWorkerRepository.nodeSameTenant at hnode
    rw [Option.any_eq_true] at hnode
    have ⟨node, hget, _⟩ := hnode
    let env : Env := { now := late, nodeName := fun _ => node.name ++ "x" }
    have hlate : notAfter late env := ⟨Int.le_refl _, fun _ => Int.le_refl _⟩
    have hruns := runs_eval (M := postgres) hlate execute db
    have hnamed := (runs_eval (M := postgres) (H := (· = env)) rfl execute db).of_wp
      (wp_execute_named hschema rfl (fun _ => rfl) hrow habandoned)
    have ⟨node', hget', hname⟩ := hnamed
    have hcolumns := hkept _ _ hruns row.nodeId
    rw [hget, hget', Option.map_some, Option.map_some, Option.some.injEq] at hcolumns
    have hsame : node'.name = node.name := congrArg Columns.name hcolumns
    rw [hname] at hsame
    have hlength := congrArg String.length hsame
    simp [env] at hlength
  . intro hnone r db' hruns id
    rw [hruns.of_wp (wp_execute_unchanged hschema hnone)]

theorem columns_kept_oneRunningJob
    : Schema (replay oneRunningJob DB.empty)
        ∧ ∀ r db', Runs postgres (notAfter (seconds 60)) execute (replay oneRunningJob DB.empty) r db' →
          ∀ id, (db'.nodes.get? id).map columns
            = ((replay oneRunningJob DB.empty).nodes.get? id).map columns := by
  have hschema := reachable_oneRunningJob.ordered.inv.schema
  exact ⟨hschema, (columns_kept_iff hschema).mpr (by decide +kernel)⟩

theorem name_overwritten
    : Reachable anyCall ⟨replay oneRunningJob DB.empty, []⟩
        ∧ ((replay oneRunningJob DB.empty).nodes.get? ⟨0⟩).map Node.name = some "swift-falcon-3f2a"
        ∧ (((eval postgres { now := seconds 61, nodeName := fun _ => "calm-otter-77b1" } execute
          (replay oneRunningJob DB.empty)).2.nodes.get? ⟨0⟩).map Node.name = some "calm-otter-77b1") := by
  refine ⟨reachable_oneRunningJob, ?_, ?_⟩
  . decide +kernel
  . decide +kernel

end RecoverOfflineNode

namespace Recovery

structure Agree (db db' : DB) : Prop where
  nodes : ∀ id, db.nodes.get? id = db'.nodes.get? id
  jobs : ∀ id, db.jobs.get? id = db'.jobs.get? id
  workers : ∀ id, db.workers.get? id = db'.workers.get? id
  leases : ∀ id, db.leases.get? id = db'.leases.get? id
  events : db.events = db'.events

theorem Agree.refl (db : DB) : Agree db db :=
  ⟨fun _ => rfl, fun _ => rfl, fun _ => rfl, fun _ => rfl, rfl⟩

def settled (env : Env) (db : DB) (job : Job) (node : Option Node) (type : EventType) : DB :=
  match (Job.reclaim env.now).run job with
  | .ok _ job' =>
    { db with
      nodes := releasedNodes db.nodes node job
      jobs := db.jobs.upsert job'
      events := db.events ++ [⟨db.nextId, job.id, type, job.tenantId, env.now⟩]
      nextId := db.nextId + 1 }
  | .error _ _ => { db with nodes := releasedNodes db.nodes node job }

variable {env : Env} {job : Job} {node : Option Node} {type type' : EventType}

theorem eval_perform_bind {α : Type} (c : Call) (f : c.Res → Service α)
    : eval postgres env (perform (S := signature) c >>= f) db
        =
      eval postgres env (f (c.exec env db).1) (c.exec env db).2 := rfl

theorem eval_saveNode {n : Node}
    (h : ∀ n', db.nodes.get? n.id = some n' → n'.tenantId = n.tenantId)
    : eval postgres env (NodeRepository.save n) db = (.ok (), { db with nodes := db.nodes.upsert n }) := by
  have hsave : PostgresNodeRepository.save db n = .ok { db with nodes := db.nodes.upsert n } := by
    unfold PostgresNodeRepository.save
    split
    . rfl
    . next stored hstored => rw [if_pos (h stored hstored)]
  simp only [NodeRepository.save, eval, Call.exec, hsave, commit, Prog.ofExcept]

theorem eval_saveJob {job' : Job}
    (h : ∀ stored, db.jobs.get? job'.id = some stored → stored.tenantId = job'.tenantId)
    (hassigned : job'.assignedNodeId = none)
    : eval postgres env (JobRepository.save job') db
        =
      (.ok (), { db with jobs := db.jobs.upsert job' }) := by
  have hsave : PostgresJobRepository.save db job' = .ok { db with jobs := db.jobs.upsert job' } := by
    unfold PostgresJobRepository.save PostgresJobRepository.assignedNodeSameTenant
    rw [if_neg, if_pos]
    . rw [hassigned]
      rfl
    . rw [Option.any_eq_true]
      intro ⟨stored, hstored, hne⟩
      rw [decide_eq_true_eq] at hne
      exact hne (h stored hstored)
  simp only [JobRepository.save, eval, Call.exec, hsave, commit, Prog.ofExcept]

theorem eval_recordForJob {stored : Job} (h : db.jobs.get? job.id = some stored)
    (htenant : stored.tenantId = job.tenantId)
    : eval postgres env (RecordJobEventsService.recordForJob job type) db
        =
      (.ok (),
        { db with
          events := db.events ++ [⟨db.nextId, job.id, type, job.tenantId, env.now⟩]
          nextId := db.nextId + 1 }) := by
  simp only [RecordJobEventsService.recordForJob, eval, Call.exec, PostgresEventRepository.save, h,
    Option.any_some, htenant, decide_true, if_true, commit, Prog.ofExcept]

theorem eval_reclaimRecord_none (hjob : db.jobs.get? job.id = some job)
    : eval postgres env
        (do
          let reclaimed ← reclaimJob job none true
          if reclaimed then
            RecordJobEventsService.recordForJob job type) db
        =
      (.ok (), settled env db job none type) := by
  rw [eval_bind]
  unfold settled
  cases hrun : (Job.reclaim env.now).run job with
  | ok _ job' =>
    obtain ⟨_, _, hmoves⟩ := Job.reclaim_moves hrun
    have hsave : eval postgres env (JobRepository.save job') db
        = (.ok (), { db with jobs := db.jobs.upsert job' }) := by
      apply eval_saveJob _ hmoves.assignedNodeId
      intro stored hstored
      rw [hmoves.id, hjob] at hstored
      injection hstored with hstored
      rw [← hstored, hmoves.tenantId]
    have hmove : eval postgres env (reclaimJob job none true) db
        = (.ok true, { db with jobs := db.jobs.upsert job' }) := by
      refine (eval_perform_bind .utcNow _).trans ?_
      dsimp only [Call.exec]
      rw [hrun]
      dsimp only
      rw [eval_bind, hsave]
      rfl
    rw [hmove]
    exact eval_recordForJob (Table.get?_upsert_of_eq _ hmoves.id) hmoves.tenantId
  | error e job' =>
    obtain ⟨_, message, he⟩ := Job.reclaim_error hrun
    subst he
    have hmove : eval postgres env (reclaimJob job none true) db = (.ok false, db) := by
      refine (eval_perform_bind .utcNow _).trans ?_
      dsimp only [Call.exec]
      rw [hrun]
      rfl
    rw [hmove]
    rfl

theorem eval_reclaimRecord (hjob : db.jobs.get? job.id = some job)
    (hnode : ∀ n, node = some n → ∀ n', db.nodes.get? n.id = some n' → n'.tenantId = n.tenantId)
    : eval postgres env
        (do
          let reclaimed ← reclaimJob job node true
          if reclaimed then
            RecordJobEventsService.recordForJob job type) db
        =
      (.ok (), settled env db job node type) := by
  cases node with
  | none => exact eval_reclaimRecord_none hjob
  | some n =>
    have hsave : eval postgres env (NodeRepository.save (n.release job.resources)) db
        = (.ok (), { db with nodes := db.nodes.upsert (n.release job.resources) }) :=
      eval_saveNode (hnode n rfl)
    have hreclaim : eval postgres env (reclaimJob job (some n) true) db
        = eval postgres env (reclaimJob job none true)
          { db with nodes := db.nodes.upsert (n.release job.resources) } := by
      rw [reclaimJob_release, eval_bind, hsave]
    rw [eval_bind, hreclaim, ← eval_bind, eval_reclaimRecord_none (by exact hjob)]
    unfold settled
    cases (Job.reclaim env.now).run job <;> rfl

theorem settled_agree_iff (db : DB) (node node' : Option Node)
    : Agree (settled env db job node type) (settled env db job node' type')
        ↔
      (∀ id, (releasedNodes db.nodes node job).get? id = (releasedNodes db.nodes node' job).get? id)
        ∧ (job.status.isActive = true → type = type') := by
  unfold settled
  cases hrun : (Job.reclaim env.now).run job with
  | ok _ job' =>
    have hactive := Job.reclaim_active hrun
    constructor
    . intro h
      refine ⟨h.nodes, ?_⟩
      intro _
      have hevents := h.events
      simp only [List.append_cancel_left_eq, List.cons.injEq, Event.mk.injEq] at hevents
      exact hevents.left.right.right.left
    . intro ⟨hnodes, htype⟩
      rw [htype hactive]
      exact ⟨hnodes, fun _ => rfl, fun _ => rfl, fun _ => rfl, rfl⟩
  | error e job' =>
    have ⟨hinactive, _⟩ := Job.reclaim_error hrun
    constructor
    . intro h
      refine ⟨h.nodes, ?_⟩
      rw [hinactive]
      intro
      contradiction
    . intro ⟨hnodes, _⟩
      exact ⟨hnodes, fun _ => rfl, fun _ => rfl, fun _ => rfl, rfl⟩

variable {lease : Lease} {worker : Worker}

def freed (env : Env) (db : DB) (lease : Lease) (worker : Worker) : DB :=
  { (PostgresLeaseRepository.deleteIfExpired env db lease.jobId lease.tenantId).2 with
    workers := db.workers.upsert worker.recover.toRow }

theorem eval_saveRecovered (hschema : Schema db) (hrow : db.workers.get? worker.id = some worker.toRow)
    : eval postgres env (WorkerRepository.save worker.recover) db
        =
      (.ok (), { db with workers := db.workers.upsert worker.recover.toRow }) := by
  have hsaved := (runs_eval (M := postgres) (H := (· = env)) rfl
    (WorkerRepository.save worker.recover) db).of_wp
    (wp_saveCurrent (G := noGuard) (Q := fun r db' => r = .ok ()
      ∧ db' = { db with workers := db.workers.upsert worker.recover.toRow })
      hschema worker.recover hrow rfl rfl (.inr rfl) (fun _ => ⟨rfl, rfl⟩))
  exact Prod.ext hsaved.left hsaved.right

theorem deleteIfExpired_of_mem (hlease : lease ∈ db.leases.rows) (hlt : lease.expiresAt < env.now)
    : (PostgresLeaseRepository.deleteIfExpired env db lease.jobId lease.tenantId).1 = true := by
  rw [PostgresLeaseRepository.deleteIfExpired_eq_true_iff]
  exact ⟨lease, hlease, rfl, rfl, hlt⟩

theorem isExpired_of_lt {now : Time} (h : lease.expiresAt < now) : lease.isExpired now = true :=
  decide_eq_true (Int.le_of_lt h)

theorem eval_saveFreed (hschema : Schema db) (hrow : db.workers.get? worker.id = some worker.toRow)
    : eval postgres env (WorkerRepository.save worker.recover)
        (PostgresLeaseRepository.deleteIfExpired env db lease.jobId lease.tenantId).2
        =
      (.ok (), freed env db lease worker) :=
  eval_saveRecovered (hschema.exec (.deleteLeaseIfExpired lease.jobId lease.tenantId) env) hrow

theorem eval_findNode (hschema : Schema db) (hjob : db.jobs.get? job.id = some job)
    (hnodes : db'.nodes = db.nodes)
    : eval postgres env (RecoverExpiredLease.findNode job job.tenantId) db'
        =
      (.ok (job.assignedNodeId.bind db.nodes.get?), db') := by
  unfold RecoverExpiredLease.findNode
  cases hassigned : job.assignedNodeId with
  | none => rfl
  | some nodeId =>
    have hfound := RecoverExpiredLease.assignedNode_eq hschema (Table.mem_of_get? hjob) rfl hassigned
    unfold PostgresNodeRepository.getById at hfound
    rw [Option.bind_some, ← hfound, ← hnodes]
    rfl

theorem get?_of_bind {nodes : Table NodeId Node Node.id} {nodeId : Option NodeId} {n : Node}
    (h : nodeId.bind nodes.get? = some n) : nodes.get? n.id = some n := by
  rw [Option.bind_eq_some_iff] at h
  have ⟨_, _, hget⟩ := h
  rw [Table.key_of_get? hget]
  exact hget

theorem eval_recoverExpiredLease (hschema : Schema db) (hlease : lease ∈ db.leases.rows)
    (hlt : lease.expiresAt < env.now)
    (hworker : PostgresWorkerRepository.getById env db lease.workerId lease.tenantId = some worker)
    (hjob : db.jobs.get? lease.jobId = some job)
    : eval postgres env (RecoverExpiredLease.recover lease) db
        =
      (.ok (), settled env (freed env db lease worker) job (job.assignedNodeId.bind db.nodes.get?)
        (if job.isCancelling then .jobCancelled else .jobReclaimed)) := by
  have hrow := (PostgresWorkerRepository.getById_eq_some hschema hworker).left.row
  have hsaved : eval postgres env (WorkerRepository.save worker.recover)
      (PostgresLeaseRepository.deleteIfExpired env db lease.jobId lease.tenantId).2
      = (.ok (), freed env db lease worker) := eval_saveFreed hschema hrow
  have ⟨stored, hstored, htenant⟩ := hschema.job_of_lease hlease
  rw [hjob, Option.some.injEq] at hstored
  subst hstored
  have hget : db.jobs.get? job.id = some job := by
    rw [Table.key_of_get? hjob]
    exact hjob
  have hgetJob : PostgresJobRepository.getById
      (PostgresLeaseRepository.deleteIfExpired env db lease.jobId lease.tenantId).2
      lease.jobId lease.tenantId = some job := by
    rw [← htenant]
    exact PostgresJobRepository.getById_of_get? hjob
  have hgetWorker : PostgresWorkerRepository.getById env
      (PostgresLeaseRepository.deleteIfExpired env db lease.jobId lease.tenantId).2
      lease.workerId lease.tenantId = some worker := hworker
  unfold RecoverExpiredLease.recover
  simp only [utcNow, LeaseRepository.deleteIfExpired, WorkerRepository.getById, JobRepository.getById]
  rw [eval_perform_bind]
  simp only [Call.exec, isExpired_of_lt hlt, Bool.not_true, Bool.false_eq_true, if_false]
  rw [eval_perform_bind]
  simp only [Call.exec, deleteIfExpired_of_mem hlease hlt, Bool.not_true, Bool.false_eq_true, if_false]
  rw [eval_perform_bind]
  simp only [Call.exec]
  rw [eval_perform_bind]
  simp only [Call.exec, hgetJob, hgetWorker, RecoverExpiredLease.recoverWorker]
  rw [eval_bind, hsaved]
  dsimp only
  unfold RecoverExpiredLease.reclaim
  have hnodes : (freed env db lease worker).nodes = db.nodes := rfl
  rw [← htenant, eval_bind, eval_findNode hschema hget hnodes]
  have hgetFreed : (freed env db lease worker).jobs.get? job.id = some job := hget
  apply eval_reclaimRecord hgetFreed
  intro n hn n' hn'
  have := (get?_of_bind hn).symm.trans hn'
  injection this with this
  rw [this]

theorem eval_recoverOfflineNode (hschema : Schema db) (hlease : lease ∈ db.leases.rows)
    (hlt : lease.expiresAt < env.now) (hcurrent : Current db worker)
    (hrunning : worker.runningJob = some job) (hjob : job.id = lease.jobId)
    {offline : List NodeId} (hoffline : worker.node.id ∈ offline)
    : eval postgres env (RecoverOfflineNode.recover offline worker) db
        =
      (.ok (), settled env (freed env db lease worker) job (some worker.node) .jobReclaimed) := by
  have hget := hcurrent.job job hrunning
  obtain ⟨stored, hstored, htenant⟩ := hschema.job_of_lease hlease
  rw [← hjob, hget, Option.some.injEq] at hstored
  subst hstored
  have hgetLease : PostgresLeaseRepository.getByJobId db job.id job.tenantId = some lease := by
    rw [hjob, htenant]
    cases hfind : PostgresLeaseRepository.getByJobId db lease.jobId lease.tenantId with
    | none => exact absurd ⟨rfl, rfl⟩ (PostgresLeaseRepository.getByJobId_eq_none hfind lease hlease)
    | some other =>
      obtain ⟨hother, hotherJob, _⟩ := PostgresLeaseRepository.getByJobId_eq_some hfind
      rw [hschema.uniqueJob other hother lease hlease hotherJob]
  have hdeleted : (PostgresLeaseRepository.deleteIfExpired env db job.id job.tenantId).1 = true := by
    rw [hjob, htenant]
    exact deleteIfExpired_of_mem hlease hlt
  have hsaved : eval postgres env (WorkerRepository.save worker.recover)
      (PostgresLeaseRepository.deleteIfExpired env db job.id job.tenantId).2
      = (.ok (), freed env db lease worker) := by
    rw [hjob, htenant]
    exact eval_saveFreed hschema hcurrent.row
  unfold RecoverOfflineNode.recover
  rw [if_neg (not_not_intro hoffline), hrunning]
  simp only [utcNow, LeaseRepository.getByJobId, LeaseRepository.deleteIfExpired]
  rw [eval_perform_bind]
  simp only [Call.exec, hgetLease]
  rw [eval_perform_bind]
  simp only [Call.exec, isExpired_of_lt hlt, Bool.not_true, Bool.false_eq_true, if_false]
  rw [eval_perform_bind]
  simp only [Call.exec, hdeleted, Bool.not_true, Bool.false_eq_true, if_false]
  unfold RecoverOfflineNode.reclaim
  dsimp only
  rw [eval_bind, hsaved]
  have hgetFreed : (freed env db lease worker).jobs.get? job.id = some job := hget
  apply eval_reclaimRecord hgetFreed
  intro n hn n' hn'
  injection hn with hn
  subst hn
  obtain ⟨node, hnode, hsame⟩ := hcurrent.node_tenantId
  have := hnode.symm.trans hn'
  injection this with this
  rw [← this]
  exact hsame

section nodes

variable {nodes : Table NodeId Node Node.id} {n : Node}

theorem get?_releasedNodes_of_full (hn : nodes.get? n.id = some n) (hfull : n.release job.resources = n)
    (id : NodeId) : (releasedNodes nodes (some n) job).get? id = nodes.get? id := by
  apply (Table.puts_upsert _ _).get?_eq
  rw [hfull]
  exact hn

theorem get?_releasedNodes_of_ne {id : NodeId} (h : node.map (·.id) ≠ some id)
    : (releasedNodes nodes node job).get? id = nodes.get? id := by
  cases node with
  | none => rfl
  | some n =>
    apply Table.get?_upsert_of_ne
    intro heq
    apply h
    rw [Option.map_some, ← heq]
    rfl

theorem get?_releasedNodes_self
    : (releasedNodes nodes (some n) job).get? n.id = some (n.release job.resources) :=
  Table.get?_upsert_of_eq _ rfl

theorem releasedNodes_eq_iff (job : Job) (assigned : Option NodeId) (name : String)
    (hn : nodes.get? n.id = some n)
    : (∀ id, (releasedNodes nodes (assigned.bind nodes.get?) job).get? id
        = (releasedNodes nodes (some { n with name := name }) job).get? id)
        ↔
      n.name = name
        ∧ (assigned = some n.id
          ∨ n.release job.resources = n
            ∧ ∀ other, assigned.bind nodes.get? = some other → other.release job.resources = other) := by
  have hcopy : (releasedNodes nodes (some { n with name := name }) job).get? n.id
      = some ({ n with name := name }.release job.resources) := get?_releasedNodes_self
  have hself : n.name = name → { n with name := name } = n := by
    intro hname
    subst hname
    rfl
  constructor
  . intro h
    have hat := h n.id
    rw [hcopy] at hat
    by_cases hassigned : assigned = some n.id
    . rw [hassigned, Option.bind_some, hn, get?_releasedNodes_self, Option.some.injEq] at hat
      exact ⟨congrArg Node.name hat, .inl hassigned⟩
    . have hother : ∀ other, assigned.bind nodes.get? = some other → other.id ≠ n.id := by
        intro other hbind heq
        rw [Option.bind_eq_some_iff] at hbind
        have ⟨nodeId, hsome, hget⟩ := hbind
        apply hassigned
        rw [hsome, ← heq, Table.key_of_get? hget]
      have hne : (assigned.bind nodes.get?).map (·.id) ≠ some n.id := by
        rw [ne_eq, Option.map_eq_some_iff]
        intro ⟨other, hbind, heq⟩
        exact hother other hbind heq
      rw [get?_releasedNodes_of_ne hne, hn, Option.some.injEq] at hat
      have hname : n.name = name := congrArg Node.name hat
      rw [hself hname] at hat h
      refine ⟨hname, .inr ⟨hat.symm, ?_⟩⟩
      intro other hbind
      have hat := h other.id
      have hne' : (some n).map (·.id) ≠ some other.id := by
        rw [Option.map_some, ne_eq, Option.some.injEq]
        exact Ne.symm (hother other hbind)
      rw [hbind, get?_releasedNodes_self, get?_releasedNodes_of_ne hne', get?_of_bind hbind,
        Option.some.injEq] at hat
      exact hat
  . intro ⟨hname, hor⟩ id
    rw [hself hname]
    cases hor with
    | inl hassigned => rw [hassigned, Option.bind_some, hn]
    | inr hfull =>
      rw [get?_releasedNodes_of_full hn hfull.left]
      cases hbind : assigned.bind nodes.get? with
      | none => rfl
      | some other =>
        exact get?_releasedNodes_of_full (get?_of_bind hbind) (hfull.right other hbind) id

end nodes

theorem reclaimed_type_iff (job : Job)
    : (job.status.isActive = true →
        (if job.isCancelling then EventType.jobCancelled else .jobReclaimed) = .jobReclaimed)
        ↔
      job.status ≠ .cancelling := by
  unfold Job.isCancelling
  cases job.status <;> simp [JobStatus.isActive]

def offlineNodes (env : Env) (db : DB) : List NodeId :=
  ((PostgresNodeRepository.listAcrossTenants env db).filter
    (fun node => !node.isAlive (env.nowFor node.id))).map (·.id)

def SameRecovery (env : Env) (db : DB) (job : Job) (nodeId : NodeId) : Prop :=
  job.status ≠ .cancelling
    ∧ ∃ node, db.nodes.get? nodeId = some node
      ∧ node.name = env.nodeName nodeId
      ∧ (job.assignedNodeId = some nodeId
        ∨ node.release job.resources = node
          ∧ ∀ other, job.assignedNodeId.bind db.nodes.get? = some other →
            other.release job.resources = other)

theorem getById_of_mem_list (hschema : Schema db) (hlease : lease ∈ db.leases.rows)
    (hworker : worker ∈ PostgresWorkerRepository.listAcrossTenants env db)
    (hid : worker.id = lease.workerId)
    : PostgresWorkerRepository.getById env db lease.workerId lease.tenantId = some worker := by
  unfold PostgresWorkerRepository.listAcrossTenants at hworker
  have ⟨row, hrow, hentity⟩ := List.mem_filterMap.mp hworker
  have hmem := (env.workerOrder.hperm _).mem_iff.mp hrow
  have ⟨_, htoRow⟩ := PostgresWorkerRepository.toEntity_eq_some hschema hmem hentity
  have ⟨row', hget, htenant⟩ := hschema.worker_of_lease hlease
  have hkey : row.id = lease.workerId := by
    rw [← hid, ← htoRow]
    rfl
  have hrow' := db.workers.get?_key_of_mem hmem
  rw [hkey, hget, Option.some.injEq] at hrow'
  unfold PostgresWorkerRepository.getById
  rw [hget, Option.filter_some, if_pos (decide_eq_true htenant), Option.bind_some, hrow']
  exact hentity

theorem eval_of_unexpired (hschema : Schema db) (hlease : lease ∈ db.leases.rows)
    (hle : env.now ≤ lease.expiresAt) : (eval postgres env (RecoverExpiredLease.recover lease) db).2 = db := by
  apply (runs_eval (M := postgres) (H := (· = env)) rfl (RecoverExpiredLease.recover lease) db).of_wp
    (G := noGuard) (Q := fun _ db' => db' = db)
  apply RecoverExpiredLease.wp_recover_cases hschema hlease
  . exact fun _ _ _ _ => rfl
  . intros
    trivial
  . intros
    rfl
  . intro env _ _ _ henv hlt
    subst henv
    exact absurd hlt (Int.not_lt.mpr hle)

theorem eval_of_unexpired_offline (hschema : Schema db) (hlease : lease ∈ db.leases.rows)
    (hle : env.now ≤ lease.expiresAt) (hcurrent : Current db worker)
    (hrunning : worker.runningJob = some job) (hjob : job.id = lease.jobId) (offline : List NodeId)
    : (eval postgres env (RecoverOfflineNode.recover offline worker) db).2 = db := by
  apply (runs_eval (M := postgres) (H := (· = env)) rfl
    (RecoverOfflineNode.recover offline worker) db).of_wp (G := noGuard) (Q := fun _ db' => db' = db)
  apply RecoverOfflineNode.wp_recover_cases hschema offline (RecoverOfflineNode.known_of_current hcurrent)
  . exact fun _ _ => rfl
  . intros
    trivial
  . intros
    rfl
  . intros
    rfl
  . intro _ job' _ hrunning' hexpired
    rw [hrunning, Option.some.injEq] at hrunning'
    subst hrunning'
    have ⟨_, henv, hlt⟩ := hexpired lease hlease hjob.symm
    subst henv
    exact absurd hlt (Int.not_lt.mpr hle)

theorem recoveries_agree_iff (hschema : Schema db) (hlease : lease ∈ db.leases.rows)
    (hexpired : lease.isExpired env.now)
    (hworker : worker ∈ PostgresWorkerRepository.listAcrossTenants env db)
    (hid : worker.id = lease.workerId) (hrunning : worker.runningJob = some job)
    (hjob : job.id = lease.jobId) (hoffline : worker.node.id ∈ offlineNodes env db)
    : Agree (eval postgres env (RecoverExpiredLease.recover lease) db).2
        (eval postgres env (RecoverOfflineNode.recover (offlineNodes env db) worker) db).2
        ↔
      lease.expiresAt = env.now ∨ SameRecovery env db job worker.node.id := by
  have hcurrent := PostgresWorkerRepository.current_of_mem_list hschema hworker
  have hle : lease.expiresAt ≤ env.now := of_decide_eq_true hexpired
  cases Int.lt_or_eq_of_le hle with
  | inr heq =>
    have hge := Int.le_of_eq heq.symm
    rw [eval_of_unexpired hschema hlease hge,
      eval_of_unexpired_offline hschema hlease hge hcurrent hrunning hjob]
    exact iff_of_true (Agree.refl db) (.inl heq)
  | inl hlt =>
    have hget := hcurrent.job job hrunning
    have hgetLease : db.jobs.get? lease.jobId = some job := by
      rw [← hjob]
      exact hget
    rw [eval_recoverExpiredLease hschema hlease hlt (getById_of_mem_list hschema hlease hworker hid)
        hgetLease,
      eval_recoverOfflineNode hschema hlease hlt hcurrent hrunning hjob hoffline, settled_agree_iff]
    have ⟨node, hnode, hcopy⟩ := hcurrent.node
    have hname := RecoverOfflineNode.name_of_mem_list hworker
    have hnodeId := Table.key_of_get? hnode
    have hstored : db.nodes.get? node.id = some node := by
      rw [hnodeId]
      exact hnode
    have hnodes := releasedNodes_eq_iff job job.assignedNodeId worker.node.name hstored
    rw [← hcopy, hnodeId] at hnodes
    constructor
    . intro ⟨hsame, htype⟩
      have ⟨hstoredName, hor⟩ := hnodes.mp hsame
      exact .inr ⟨(reclaimed_type_iff job).mp htype, node, hnode, hstoredName.trans hname, hor⟩
    . intro hor
      cases hor with
      | inl heq => exact absurd hlt (Int.not_lt.mpr (Int.le_of_eq heq.symm))
      | inr hsame =>
        have ⟨hnot, node', hnode', hstoredName, hor⟩ := hsame
        rw [hnode, Option.some.injEq] at hnode'
        subst hnode'
        exact ⟨hnodes.mpr ⟨hstoredName.trans hname.symm, hor⟩, (reclaimed_type_iff job).mpr hnot⟩

def heldLease : Lease :=
  .create ⟨5⟩ ⟨3⟩ ⟨1⟩ ⟨0⟩ 0

def afterMinute : Env where
  now := seconds 61

def heldBy : Worker :=
  (PostgresWorkerRepository.listAcrossTenants afterMinute (replay oneRunningJob DB.empty)).head
    (by decide +kernel)

def heldJob : Job :=
  heldBy.runningJob.get (by decide +kernel)

theorem recoveries_agree_oneRunningJob
    : Agree (eval postgres afterMinute (RecoverExpiredLease.recover heldLease)
          (replay oneRunningJob DB.empty)).2
        (eval postgres afterMinute
          (RecoverOfflineNode.recover (offlineNodes afterMinute (replay oneRunningJob DB.empty)) heldBy)
          (replay oneRunningJob DB.empty)).2 := by
  have hrunning : heldBy.runningJob = some heldJob := (Option.some_get _).symm
  refine (recoveries_agree_iff reachable_oneRunningJob.ordered.inv.schema (by decide +kernel)
    (by decide +kernel) (List.head_mem _) (by decide +kernel) hrunning (by decide +kernel)
    (by decide +kernel)).mpr (.inr ?_)
  refine ⟨by decide +kernel, heldBy.node, by decide +kernel, by decide +kernel, .inl ?_⟩
  decide +kernel

def oneCancellingJob : List (Env × ServiceCall) :=
  oneRunningJob ++ [({ now := 0 }, .cancelJob ⟨1⟩ ⟨0⟩)]

theorem recoveries_disagree
    : Reachable anyCall ⟨replay oneCancellingJob DB.empty, []⟩
        ∧ ((eval postgres afterMinute RecoverExpiredLease.execute
          (replay oneCancellingJob DB.empty)).2.events.map Event.eventType).getLast? = some .jobCancelled
        ∧ ((eval postgres afterMinute RecoverOfflineNode.execute
          (replay oneCancellingJob DB.empty)).2.events.map Event.eventType).getLast? = some .jobReclaimed := by
  refine ⟨?_, ?_, ?_⟩
  . apply reachable_replay
    . exact .init pristine_empty
    . intro db call _
      trivial
  . decide +kernel
  . decide +kernel

end Recovery

end AetherGrid
