import AetherGrid.Cluster.Concurrent
import AetherGrid.Store.Reads

/-!
This module contains the assignments of a scheduler tick while heartbeats, dead worker passes and
registrations are served.
-/

namespace AetherGrid

open Prog Pool

namespace Assignments

structure Note where
  rows : WorkerId → Option WorkerRow := fun _ => none
  assigned : List (WorkerId × JobId) := []
  foundBusy : Bool := false

def Note.read (n : Note) (worker : Option Worker) : Note :=
  match worker with
  | none => n
  | some worker => { n with rows := Function.update n.rows worker.id (some worker.toRow) }

def recording : Watched signature DB Env Note where
  exec := Call.exec
  note c env db n :=
    match c with
    | .getWorker id tenant => n.read (PostgresWorkerRepository.getById env db id tenant)
    | .getWorkerByNode node tenant =>
      let found := PostgresWorkerRepository.getByNodeId env db node tenant
      { n.read found with foundBusy := n.foundBusy || found.any (·.runningJob.isSome) }
    | .listWorkers => { n with rows := db.workers.get? }
    | .saveWorker worker =>
      match PostgresWorkerRepository.save db worker with
      | .error _ => n
      | .ok _ =>
        { n with
          rows := Function.update n.rows worker.id (some worker.toRow)
          assigned := worker.runningJob.toList.map (fun job => (worker.id, job.id)) ++ n.assigned }
    | _ => n

def Assigned (row : WorkerRow) (jobId : JobId) : Prop :=
  row.runningJobId = some jobId ∧ row.status ≠ .idle

variable {ι : Type}

def soughtNode (c : Call) : Option (NodeId × TenantId) :=
  match c with
  | .getWorkerByNode node tenant => some (node, tenant)
  | _ => none

def upToDate (db : DB) (notes : ι → Note) (i : ι) (c : Call) : Prop :=
  (∀ worker ∈ c.savedWorker, db.workers.get? worker.id = (notes i).rows worker.id)
    ∧ ∀ entry ∈ soughtNode c, ∀ row ∈ db.workers.rows,
      row.nodeId = entry.1 → row.tenantId = entry.2 → row.runningJobId = none

instance (db : DB) (notes : ι → Note) (i : ι) (c : Call) : Decidable (upToDate db notes i c) :=
  inferInstanceAs (Decidable
    ((∀ worker ∈ c.savedWorker, db.workers.get? worker.id = (notes i).rows worker.id)
      ∧ ∀ entry ∈ soughtNode c, ∀ row ∈ db.workers.rows,
        row.nodeId = entry.1 → row.tenantId = entry.2 → row.runningJobId = none))

def tends (request : Request) : Bool :=
  match request with
  | .service (.workerHeartbeat _ _) => true
  | .service .markDeadWorkers => true
  | .service (.postWorkers _ _ _) => true
  | _ => isTick request

def keeps (request : Request) (n : Note) (c : Call) : Prop :=
  match c with
  | .saveWorker worker =>
    n.foundBusy
      ∨ (∀ row, n.rows worker.id = some row → ∀ jobId, Assigned row jobId → Assigned worker.toRow jobId)
        ∧ (isTick request → ∀ jobId, worker.toRow.runningJobId = some jobId → Assigned worker.toRow jobId)
  | .deleteNode _ _ => False
  | _ => True

structure Kept (requests : ι → Request) (db : DB) (notes : ι → Note) : Prop where
  schema : Schema db
  notBusy : ∀ i, (notes i).foundBusy = false
  assigned : ∀ i, isTick (requests i) → ∀ entry ∈ (notes i).assigned,
    ∃ row, db.workers.get? entry.1 = some row ∧ Assigned row entry.2

variable {requests : ι → Request} {db : DB} {notes : ι → Note}

theorem Kept.of_exec (h : Kept requests db notes) {i : ι} {c : Call} {env : Env}
    (hguard : keeps (requests i) (notes i) c) (hcall : upToDate db notes i c) {j : ι}
    (htick : isTick (requests j)) {entry : WorkerId × JobId} (hentry : entry ∈ (notes j).assigned)
    : ∃ row, (c.exec env db).2.workers.get? entry.1 = some row ∧ Assigned row entry.2 := by
  have ⟨row, hrow, hassigned⟩ := h.assigned j htick entry hentry
  rcases (Call.writes_exec env db c).get?_worker hrow with ⟨saved, rfl, hid, hsaved⟩ | hsame | ⟨_, _, rfl⟩
  . refine ⟨saved.toRow, hsaved, ?_⟩
    rcases hguard with hbusy | ⟨hkept, _⟩
    . rw [h.notBusy i] at hbusy
      contradiction
    . apply hkept row _ entry.2 hassigned
      rw [← hcall.left saved rfl, hid]
      exact hrow
  . exact ⟨row, hsame, hassigned⟩
  . contradiction

theorem foundBusy_note {c : Call} {env : Env} {n : Note} (hschema : Schema db)
    (hsought : ∀ entry ∈ soughtNode c, ∀ row ∈ db.workers.rows,
      row.nodeId = entry.1 → row.tenantId = entry.2 → row.runningJobId = none)
    (h : n.foundBusy = false) : (recording.note c env db n).foundBusy = false := by
  have hread : ∀ worker, (n.read worker).foundBusy = n.foundBusy := by
    intro worker
    cases worker <;> rfl
  cases c with
  | getWorker id tenant => exact (hread _).trans h
  | getWorkerByNode node tenant =>
    dsimp only [recording]
    rw [h, Bool.false_or]
    cases hfound : PostgresWorkerRepository.getByNodeId env db node tenant with
    | none => rfl
    | some worker =>
      have ⟨hcurrent, hnode, htenant⟩ := PostgresWorkerRepository.getByNodeId_eq_some hschema hfound
      have := hsought (node, tenant) rfl worker.toRow (Table.mem_of_get? hcurrent.row) hnode htenant
      simp only [Worker.toRow, Option.map_eq_none_iff] at this
      simp [this]
  | saveWorker worker =>
    dsimp only [recording]
    cases PostgresWorkerRepository.save db worker <;> exact h
  | _ => exact h

theorem assigned_note {c : Call} {env : Env} {n : Note} {entry : WorkerId × JobId}
    (h : entry ∈ (recording.note c env db n).assigned)
    : entry ∈ n.assigned
        ∨ ∃ worker, c = .saveWorker worker
          ∧ worker.id = entry.1
          ∧ worker.toRow.runningJobId = some entry.2
          ∧ (c.exec env db).2.workers.get? worker.id = some worker.toRow := by
  have hread : ∀ worker, (n.read worker).assigned = n.assigned := by
    intro worker
    cases worker <;> rfl
  cases c with
  | getWorker id tenant =>
    dsimp only [recording] at h
    rw [hread] at h
    exact .inl h
  | getWorkerByNode node tenant =>
    dsimp only [recording] at h
    rw [hread] at h
    exact .inl h
  | saveWorker worker =>
    dsimp only [recording] at h
    have hexec : (Call.saveWorker worker).exec env db
        = commit db (PostgresWorkerRepository.save db worker) := rfl
    cases hsave : PostgresWorkerRepository.save db worker with
    | error e =>
      rw [hsave] at h
      exact .inl h
    | ok db' =>
      rw [hsave] at h
      rcases List.mem_append.mp h with hnew | hold
      . have ⟨job, hjob, heq⟩ := List.mem_map.mp hnew
        have hrunning : worker.runningJob = some job := Option.mem_toList.mp hjob
        refine .inr ⟨worker, rfl, ?_, ?_, ?_⟩
        . rw [← heq]
        . rw [← heq]
          simp [Worker.toRow, hrunning]
        . rw [hexec, hsave, (PostgresWorkerRepository.save_eq_ok hsave).left]
          exact Table.get?_upsert_of_eq _ rfl
      . exact .inl hold
  | _ => exact .inl h

variable [DecidableEq ι]

theorem Kept.step (h : Kept requests db notes) {i : ι} {c : Call} {env : Env}
    (hguard : keeps (requests i) (notes i) c) (hcall : upToDate db notes i c)
    : Kept requests (c.exec env db).2 (Function.update notes i (recording.note c env db (notes i))) := by
  refine ⟨h.schema.exec c env, ?_, ?_⟩
  . intro j
    by_cases hj : j = i
    . subst hj
      rw [Function.update_self]
      exact foundBusy_note h.schema hcall.right (h.notBusy j)
    . rw [Function.update_of_ne hj]
      exact h.notBusy j
  . intro j htick entry hentry
    by_cases hj : j = i
    . subst hj
      rw [Function.update_self] at hentry
      rcases assigned_note hentry with hold | ⟨worker, rfl, hid, hrunning, hsaved⟩
      . exact h.of_exec hguard hcall htick hold
      . rcases hguard with hbusy | ⟨_, hmarks⟩
        . rw [h.notBusy j] at hbusy
          contradiction
        . rw [← hid]
          exact ⟨worker.toRow, hsaved, hmarks htick entry.2 hrunning⟩
    . rw [Function.update_of_ne hj] at hentry
      exact h.of_exec hguard hcall htick hentry

def protocol (requests : ι → Request) : Protocol recording (upToDate (ι := ι)) where
  inv := Kept requests
  met x := Schema x.1
  guard i := keeps (requests i)
  hmet _ _ _ h := h.schema
  hstep _ _ _ _ _ h hguard hcall := h.step hguard hcall

section programs

variable {request : Request} {n : Note}

abbrev met (x : DB × Env) : Prop :=
  Schema x.1

def Knows (n : Note) (worker : Worker) : Prop :=
  n.rows worker.id = some worker.toRow

def Keepable (n : Note) (worker : Worker) : Prop :=
  ∀ row, n.rows worker.id = some row → ∀ jobId, Assigned row jobId → Assigned worker.toRow jobId

theorem wp_saveWorker {worker : Worker} {Q : Except Err Unit → Note → Prop}
    (h : n.foundBusy
      ∨ Keepable n worker
        ∧ (isTick request → ∀ jobId, worker.toRow.runningJobId = some jobId → Assigned worker.toRow jobId))
    (herror : ∀ e n', Q (.error e) n')
    (hok : ∀ n', n'.foundBusy = n.foundBusy →
      n'.rows = Function.update n.rows worker.id (some worker.toRow) → Q (.ok ()) n')
    : wp recording.view met (keeps request) (WorkerRepository.save worker) Q n := by
  refine ⟨h, ?_⟩
  intro x _
  rw [wp_ofExcept]
  have hnote : (recording.view.exec (.saveWorker worker) x n).2
      = recording.note (.saveWorker worker) x.2 x.1 n := rfl
  have hexec : (recording.view.exec (.saveWorker worker) x n).1
      = (commit x.1 (PostgresWorkerRepository.save x.1 worker)).1 := rfl
  rw [hnote, hexec]
  dsimp only [recording]
  cases PostgresWorkerRepository.save x.1 worker with
  | error e => exact herror _ _
  | ok db' => exact hok _ rfl rfl

theorem Knows.keepable {worker worker' : Worker} (h : Knows n worker) (hid : worker'.id = worker.id)
    (hkeep : ∀ jobId, Assigned worker.toRow jobId → Assigned worker'.toRow jobId)
    : Keepable n worker' := by
  intro row hrow jobId hassigned
  rw [hid, h] at hrow
  injection hrow with hrow
  rw [← hrow] at hassigned
  exact hkeep jobId hassigned

theorem wp_workerHeartbeat (hrequest : isTick request = false) (workerId : WorkerId)
    (tenantId : TenantId)
    : wp recording.view met (keeps request) (workerHeartbeat workerId tenantId) (fun _ _ => True) n := by
  unfold workerHeartbeat
  apply Watched.wp_view_perform_bind trivial
  intro db env hschema answer n' hanswer hn'
  cases answer with
  | none => trivial
  | some worker =>
    have hread : PostgresWorkerRepository.getById env db workerId tenantId = some worker := hanswer
    have hknows : Knows n' worker := by
      rw [← hn']
      dsimp only [recording]
      rw [hread]
      exact Function.update_self _ _ _
    dsimp only
    split
    . trivial
    . apply Watched.wp_view_read trivial (fun _ _ => rfl)
      intro db env _ now _
      apply wp_seq (fun _ _ => trivial)
      apply wp_saveWorker
      . right
        constructor
        . apply hknows.keepable
          . unfold Worker.heartbeat
            split <;> rfl
          . intro jobId hassigned
            unfold Worker.heartbeat
            split
            . next hoffline =>
              have hrunning := hassigned.left
              simp [Worker.toRow, hoffline.right] at hrunning
            . exact hassigned
        . rw [hrequest]
          intro h
          contradiction
      . exact fun _ _ _ _ => trivial
      . exact fun _ _ _ _ _ => trivial

theorem knows_of_list {env : Env} {worker : Worker} (hschema : Schema db)
    (hworker : worker ∈ PostgresWorkerRepository.listAcrossTenants env db)
    (hrows : n.rows = db.workers.get?) : Knows n worker := by
  unfold Knows
  rw [hrows]
  exact (PostgresWorkerRepository.current_of_mem_list hschema hworker).row

theorem wp_markDeadWorkers (hrequest : isTick request = false)
    : wp recording.view met (keeps request) MarkDeadWorkers.execute (fun _ _ => True) n := by
  unfold MarkDeadWorkers.execute
  apply Watched.wp_view_perform_bind trivial
  intro db env hschema workers n' hanswer hn'
  have hlist : PostgresWorkerRepository.listAcrossTenants env db = workers := hanswer
  subst hlist
  apply wp_forM (fun workers n => (workers.map (·.id)).Nodup ∧ ∀ worker ∈ workers, Knows n worker)
  . refine ⟨PostgresWorkerRepository.nodup_list hschema, ?_⟩
    intro worker hworker
    apply knows_of_list hschema hworker
    rw [← hn']
    rfl
  . intro worker workers n ⟨hnodup, hknows⟩
    rw [List.map_cons, List.nodup_cons] at hnodup
    unfold MarkDeadWorkers.mark
    apply Watched.wp_view_read trivial (fun _ _ => rfl)
    intro db env _ now _
    split
    . exact ⟨hnodup.right, fun other hother => hknows other (List.mem_cons_of_mem _ hother)⟩
    . apply wp_saveWorker
      . right
        constructor
        . apply (hknows worker List.mem_cons_self).keepable (by rfl)
          intro jobId hassigned
          exact ⟨hassigned.left, by simp [Worker.toRow, Worker.offline]⟩
        . rw [hrequest]
          intro h
          contradiction
      . exact fun _ _ => trivial
      . intro n' _ hrows
        refine ⟨hnodup.right, ?_⟩
        intro other hother
        have hne : other.id ≠ worker.offline.id := by
          intro heq
          apply hnodup.left
          have hid : worker.offline.id = worker.id := rfl
          rw [← hid, ← heq]
          exact List.mem_map_of_mem hother
        unfold Knows
        rw [hrows, Function.update_of_ne hne]
        exact hknows other (List.mem_cons_of_mem _ hother)
  . exact fun _ _ => trivial

theorem wp_acquireLease {worker : Worker} {job : Job} {Q : Except Err Lease → Note → Prop}
    (hQ : ∀ r, Q r n)
    : wp recording.view met (keeps request) (acquireLease worker job) Q n := by
  unfold acquireLease
  split
  . exact hQ _
  . apply Watched.wp_view_read trivial (fun _ _ => rfl)
    intro db env _ lease _
    cases lease with
    | some _ => exact hQ _
    | none =>
      apply Watched.wp_view_read trivial (fun _ _ => rfl)
      intro db env _ now _
      apply Watched.wp_view_read trivial (fun _ _ => rfl)
      intro db env _ id _
      apply view_save trivial (fun _ _ => rfl)
      intro r
      cases r with
      | error e => exact hQ _
      | ok _ =>
        apply view_save trivial (fun _ _ => rfl)
        intro r
        cases r with
        | error e => exact hQ _
        | ok _ => exact hQ _

theorem always_assign (job : Job)
    : Always recording.view met (keeps request) (assignWorker job) := by
  intro n
  unfold assignWorker
  cases job.assignedNodeId with
  | none => trivial
  | some nodeId =>
    apply Watched.wp_view_perform_bind trivial
    intro db env hschema workers n' hanswer hn'
    have hlist : PostgresWorkerRepository.listAcrossTenants env db = workers := hanswer
    subst hlist
    cases hfind : (PostgresWorkerRepository.listAcrossTenants env db).find?
        (fun worker => worker.node.id = nodeId && worker.isIdle) with
    | none => trivial
    | some worker =>
      have hknows : Knows n' worker := by
        apply knows_of_list hschema (List.mem_of_find?_eq_some hfind)
        rw [← hn']
        rfl
      have hidle : worker.status = .idle := by
        have := List.find?_some hfind
        simp only [Worker.isIdle, Bool.and_eq_true, decide_eq_true_eq] at this
        exact this.right
      dsimp only
      rw [wp_bind, wp_catching]
      apply wp_acquireLease
      intro r
      cases r with
      | error e =>
        dsimp only
        split <;> trivial
      | ok lease =>
        dsimp only
        rw [wp_bind, wp_runCommand]
        cases haccept : (Worker.accept job).run worker with
        | error e _ => trivial
        | ok _ worker' =>
          obtain ⟨_, _, rfl⟩ := Worker.accept_ok haccept
          apply wp_seq (fun _ _ => trivial)
          apply wp_saveWorker
          . right
            constructor
            . -- a worker that was idle had no assignment to lose
              apply hknows.keepable (by rfl)
              intro jobId hassigned
              exact absurd hidle hassigned.right
            . intro _ jobId hjobId
              exact ⟨hjobId, by simp [Worker.toRow]⟩
          . intro e n'' a h
            contradiction
          . intro n'' _ _ _ _
            apply view_save trivial (fun _ _ => rfl)
            intro r
            cases r <;> trivial

theorem keeps_ofTick (n : Note) (c : Call) (hc : c.ofTick) : keeps request n c := by
  cases c with
  | saveWorker _ => contradiction
  | deleteNode _ _ => contradiction
  | _ => trivial

section registration

variable (hrequest : isTick request = false)

include hrequest

theorem wp_saveFree {worker : Worker} {Q : Except Err Unit → Note → Prop}
    (h : n.foundBusy ∨ ∀ row, n.rows worker.id = some row → row.runningJobId = none)
    (herror : ∀ e n', Q (.error e) n')
    (hok : ∀ n', n'.foundBusy = n.foundBusy → Knows n' worker → Q (.ok ()) n')
    : wp recording.view met (keeps request) (WorkerRepository.save worker) Q n := by
  apply wp_saveWorker
  . refine h.imp id ?_
    intro hfree
    constructor
    . intro row hrow jobId hassigned
      have := hfree row hrow
      rw [hassigned.left] at this
      contradiction
    . rw [hrequest]
      intro htick
      contradiction
  . exact herror
  . intro n' hbusy hrows
    apply hok n' hbusy
    unfold Knows
    rw [hrows]
    exact Function.update_self _ _ _

theorem wp_registerWorker {worker : Worker}
    (h : n.foundBusy ∨ Knows n worker ∧ worker.runningJob = none)
    : wp recording.view met (keeps request) (registerWorker worker) (fun _ _ => True) n := by
  unfold registerWorker
  apply wp_seq (fun _ _ => trivial)
  apply wp_saveFree hrequest
  . refine h.imp id ?_
    intro ⟨hknows, hrunning⟩ row hrow
    have hrow : n.rows worker.id = some row := hrow
    rw [hknows] at hrow
    injection hrow with hrow
    rw [← hrow]
    simp [Worker.toRow, hrunning]
  . intro e n' a h
    contradiction
  . intro n' _ _ a _
    apply Watched.wp_view_perform_bind trivial
    intro db env _ stored n'' _ _
    cases stored <;> trivial

theorem wp_saveCreated {worker : Worker} {Q : Except Err Worker → Note → Prop}
    (hrunning : worker.runningJob = none)
    (h : n.foundBusy ∨ ∀ row, n.rows worker.id = some row → row.runningJobId = none)
    (herror : ∀ e n', Q (.error e) n')
    (hok : ∀ n', wp recording.view met (keeps request) (registerWorker worker) (fun _ _ => True) n' →
      Q (.ok worker) n')
    : wp recording.view met (keeps request)
        (do
          WorkerRepository.save worker
          return worker) Q n := by
  apply wp_seq herror
  apply wp_saveFree hrequest h
  . intro e n' a h
    contradiction
  . intro n' _ hknows a _
    exact hok n' (wp_registerWorker hrequest (.inr ⟨hknows, hrunning⟩))

theorem wp_postWorkers (nodeId : NodeId) (tenantId : TenantId) (managedBy : WorkerManagement)
    : wp recording.view met (keeps request) (postWorkers nodeId tenantId managedBy)
        (fun _ _ => True) {} := by
  unfold postWorkers
  apply Watched.wp_view_read trivial (fun _ _ => rfl)
  intro db env _ answer _
  cases answer with
  | none => trivial
  | some node =>
    dsimp only
    rw [wp_bind]
    unfold createWorker
    apply Watched.wp_view_perform_bind trivial
    intro db env hschema answer n hanswer hn
    have hread : PostgresWorkerRepository.getByNodeId env db node.id node.tenantId = answer := hanswer
    cases answer with
    | none =>
      have hrows : n.rows = fun _ => none := by
        rw [← hn]
        dsimp only [recording]
        rw [hread]
        rfl
      apply Watched.wp_view_read trivial (fun _ _ => rfl)
      intro db env _ id _
      apply Watched.wp_view_read trivial (fun _ _ => rfl)
      intro db env _ now _
      refine wp_saveCreated hrequest rfl (.inr ?_) (fun _ _ => trivial) (fun _ h => h)
      intro row hrow
      rw [hrows] at hrow
      contradiction
    | some existing =>
      have hrows : n.rows existing.id = some existing.toRow := by
        rw [← hn]
        dsimp only [recording]
        rw [hread]
        exact Function.update_self _ _ _
      dsimp only
      cases hrunning : existing.runningJob with
      | none =>
        refine wp_saveCreated hrequest rfl (.inr ?_) (fun _ _ => trivial) (fun _ h => h)
        intro row hrow
        have hrow : n.rows existing.id = some row := hrow
        rw [hrows] at hrow
        injection hrow with hrow
        rw [← hrow]
        simp [Worker.toRow, hrunning]
      | some job =>
        have hbusy : n.foundBusy := by
          rw [← hn]
          dsimp only [recording]
          rw [hread]
          simp [hrunning]
        dsimp only
        rw [wp_bind]
        apply view_reclaimJob (fun n => n.foundBusy) (fun n => n.foundBusy)
        . exact fun _ => hbusy
        . intro _
          exact ⟨trivial, fun _ _ => hbusy⟩
        . exact fun _ h => h
        . exact fun _ _ h => ⟨trivial, fun _ _ => h⟩
        . exact fun _ => trivial
        . exact fun _ _ _ => rfl
        . intro n _ _ h _
          refine ⟨trivial, ?_⟩
          intro _ _
          exact wp_saveCreated hrequest rfl (.inl h) (fun _ _ => trivial) (fun _ h => h)
        . intro n h
          exact wp_saveCreated hrequest rfl (.inl h) (fun _ _ => trivial) (fun _ h => h)
        . exact fun _ _ => trivial

end registration

end programs

theorem wp_run {request : Request} (hrequest : tends request)
    : wp recording.view met (keeps request) request.run (fun _ _ => True) {} := by
  cases request with
  | releaseLease worker lease tenant => contradiction
  | execution worker renewals result => contradiction
  | service served =>
    cases served with
    | workerHeartbeat worker tenant =>
      rw [Request.run, ServiceCall.run, wp_discardView]
      exact wp_workerHeartbeat rfl worker tenant
    | markDeadWorkers => exact wp_markDeadWorkers rfl
    | postWorkers node tenant managedBy =>
      rw [Request.run, ServiceCall.run, wp_discardView]
      exact wp_postWorkers rfl node tenant managedBy
    | schedulerTick => exact always_schedulerTick keeps_ofTick always_assign {}
    | _ => contradiction

theorem holds_pending (hschema : Schema db) (hrequests : ∀ i, tends (requests i))
    : (protocol requests).Holds (fun _ _ _ => True) (pending requests db {}) := by
  refine ⟨⟨hschema, fun _ => rfl, ?_⟩, fun i => wp_run (hrequests i)⟩
  intro i _ entry hentry
  contradiction

theorem assignment_kept {pool : Pool signature Err Unit DB Note ι} {i : ι} (hschema : Schema db)
    (hrequests : ∀ i, tends (requests i))
    (hreaches : Reaches recording upToDate (pending requests db {}) pool)
    (htick : requests i = .service .schedulerTick)
    : ∀ entry ∈ (pool.notes i).assigned,
        ∃ row, pool.state.workers.get? entry.1 = some row
          ∧ row.runningJobId = some entry.2
          ∧ row.status ≠ .idle := by
  have hholds := (holds_pending hschema hrequests).reaches hreaches
  intro entry hentry
  apply hholds.inv.assigned i _ entry hentry
  rw [htick]
  rfl

def heartbeatDuringTick (i : Fin 2) : Request :=
  match i with
  | 0 => .service .schedulerTick
  | 1 => .service (.workerHeartbeat ⟨3⟩ ⟨0⟩)

def aroundTick {ι : Type} (tick heartbeat : ι) : List (ι × Env) :=
  (heartbeat, { now := 0 }) :: (List.replicate 14 (tick, { now := 0 }) ++ List.replicate 2 (heartbeat, { now := 0 }))

theorem assignment_overwritten
    : Reachable anyCall ⟨replay oneQueuedJob DB.empty, []⟩
        ∧ (∀ i, tends (heartbeatDuringTick i))
        ∧ ∃ pool, Reaches recording anyTime
            (pending heartbeatDuringTick (replay oneQueuedJob DB.empty) {}) pool
          ∧ (∀ i, (pool.threads i).isDone)
          ∧ (⟨3⟩, ⟨1⟩) ∈ (pool.notes 0).assigned
          ∧ pool.state.workers.get? ⟨3⟩ = some ⟨⟨3⟩, ⟨0⟩, ⟨0⟩, .idle, .agent, none, 0⟩ := by
  refine ⟨reachable_oneQueuedJob, by decide, ?_⟩
  exact exists_reaches_of_play (W := recording) (C := anyTime)
    (pending heartbeatDuringTick (replay oneQueuedJob DB.empty) {}) (aroundTick 0 1)
    (fun pool => (∀ i, (pool.threads i).isDone)
      ∧ (⟨3⟩, ⟨1⟩) ∈ (pool.notes 0).assigned
      ∧ pool.state.workers.get? ⟨3⟩ = some ⟨⟨3⟩, ⟨0⟩, ⟨0⟩, .idle, .agent, none, 0⟩)
    (by decide +kernel)

def afterTick {ι : Type} (tick heartbeat : ι) : List (ι × Env) :=
  List.replicate 13 (tick, { now := 0 })
    ++ List.replicate 3 (heartbeat, { now := 0 })
    ++ List.replicate 1 (tick, { now := 0 })

theorem assignment_kept_afterTick
    : ∃ pool, Reaches recording upToDate
          (pending heartbeatDuringTick (replay oneQueuedJob DB.empty) {}) pool
        ∧ (∀ i, (pool.threads i).isDone)
        ∧ (⟨3⟩, ⟨1⟩) ∈ (pool.notes 0).assigned
        ∧ ∃ row, pool.state.workers.get? ⟨3⟩ = some row
          ∧ row.runningJobId = some ⟨1⟩
          ∧ row.status ≠ .idle := by
  have ⟨pool, hreaches, hdone, hassigned⟩ := exists_reaches_of_play (W := recording) (C := upToDate)
    (pending heartbeatDuringTick (replay oneQueuedJob DB.empty) {}) (afterTick 0 1)
    (fun pool => (∀ i, (pool.threads i).isDone) ∧ (⟨3⟩, ⟨1⟩) ∈ (pool.notes 0).assigned)
    (by decide +kernel)
  refine ⟨pool, hreaches, hdone, hassigned, ?_⟩
  exact assignment_kept (by decide +kernel) (by decide) hreaches rfl _ hassigned

end Assignments

end AetherGrid
