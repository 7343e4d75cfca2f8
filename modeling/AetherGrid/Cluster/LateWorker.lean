import AetherGrid.Cluster.System
import AetherGrid.Prog.Keeps

/-!
This module contains a lease whose worker is not told: the process that granted it has stopped before the
row of the worker was written.
-/

namespace AetherGrid

open Prog

variable {held : WorkerRow} {lease : Lease} {db db' : DB} {env : Env} {H : Env → Prop}

structure Lags (held : WorkerRow) (lease : Lease) (db : DB) : Prop where
  schema : Schema db
  row : ∃ row, db.workers.get? held.id = some row ∧ row.freed = held.freed
  stored : lease ∈ db.leases.rows
  worker : lease.workerId = held.id

namespace Lags

def clear (held : WorkerRow) (lease : Lease) (c : Call) : Prop :=
  match c with
  | .saveWorker worker => worker.id ≠ held.id
  | .getWorker id _ => id ≠ held.id
  | .deleteLeaseIfExpired job _ => job ≠ lease.jobId
  | .getWorkerAcrossTenants _ | .getWorkerByNode _ _ | .listWorkers | .deleteNode _ _ => False
  | .saveLease _ | .renewLease _ _ _ | .deleteLease _ _ => False
  | _ => True

theorem commit_withWorker {save save' : Except Err DB} (h : save' = save.map (withWorker held))
    : commit (withWorker held db) save' = ((commit db save).1, withWorker held (commit db save).2) := by
  rw [h]
  cases save <;> rfl

theorem saveWorker_withWorker {worker : Worker} (h : Lags held lease db) (hother : worker.id ≠ held.id)
    : PostgresWorkerRepository.save (withWorker held db) worker
        = (PostgresWorkerRepository.save db worker).map (withWorker held) := by
  have ⟨row, hrow, _⟩ := h.row
  have hmem : held.id ∈ db.workers.rows.map WorkerRow.id := by
    rw [← Table.key_of_get? hrow]
    exact List.mem_map_of_mem (Table.mem_of_get? hrow)
  have hcomm : (db.workers.upsert held).upsert worker.toRow = (db.workers.upsert worker.toRow).upsert held :=
    db.workers.upsert_comm hother.symm hmem
  have hworkers : { withWorker held db with workers := (withWorker held db).workers.upsert worker.toRow }
      = withWorker held { db with workers := db.workers.upsert worker.toRow } := by
    dsimp only [withWorker]
    rw [hcomm]
  unfold PostgresWorkerRepository.save
  rw [hworkers]
  have hnode : PostgresWorkerRepository.nodeSameTenant (withWorker held db) worker.toRow
      = PostgresWorkerRepository.nodeSameTenant db worker.toRow := rfl
  have hjob : PostgresWorkerRepository.runningJobSameTenant (withWorker held db) worker.toRow
      = PostgresWorkerRepository.runningJobSameTenant db worker.toRow := rfl
  have hleases : PostgresWorkerRepository.leasesSameTenant (withWorker held db) worker.toRow
      = PostgresWorkerRepository.leasesSameTenant db worker.toRow := rfl
  rw [hnode, hjob, hleases]
  split_ifs <;> rfl

theorem saveEvent_withWorker (db : DB) (event : Event)
    : PostgresEventRepository.save (withWorker held db) event
        = (PostgresEventRepository.save db event).map (withWorker held) := by
  have hstored : (withWorker held db).jobs.get? event.aggregateId = db.jobs.get? event.aggregateId := rfl
  unfold PostgresEventRepository.save
  rw [hstored]
  split_ifs <;> rfl

theorem exec_withWorker (h : Lags held lease db) {c : Call} (hc : clear held lease c)
    : c.exec env (withWorker held db) = ((c.exec env db).1, withWorker held (c.exec env db).2) := by
  cases c with
  | saveNode node =>
    apply commit_withWorker
    unfold PostgresNodeRepository.save
    dsimp only [withWorker]
    split
    . rfl
    . split <;> rfl
  | saveJob job =>
    apply commit_withWorker
    unfold PostgresJobRepository.save
    have hnode : PostgresJobRepository.assignedNodeSameTenant (withWorker held db) job
        = PostgresJobRepository.assignedNodeSameTenant db job := rfl
    have hstored : (withWorker held db).jobs.get? job.id = db.jobs.get? job.id := rfl
    rw [hnode, hstored]
    split_ifs <;> rfl
  | saveEvent job tenant type =>
    exact commit_withWorker (saveEvent_withWorker { db with nextId := db.nextId + 1 } _)
  | saveWorker worker => exact commit_withWorker (h.saveWorker_withWorker hc)
  | getWorker id tenant =>
    dsimp only [Call.exec, PostgresWorkerRepository.getById, withWorker]
    rw [db.workers.get?_upsert_of_ne (Ne.symm hc)]
    rfl
  | getWorkerAcrossTenants _ | getWorkerByNode _ _ | listWorkers | deleteNode _ _ => exact hc.elim
  | saveLease _ | renewLease _ _ _ | deleteLease _ _ => exact hc.elim
  | _ => rfl

theorem exec (h : Lags held lease db) {c : Call} (hc : clear held lease c) (env : Env)
    : Lags held lease (c.exec env db).2 := by
  have hschema := h.schema.exec c env
  have hkeep : ∀ db', Schema db' → db'.workers = db.workers → db'.leases = db.leases →
      Lags held lease db' := by
    intro db' hschema' hworkers hleases
    exact ⟨hschema', hworkers ▸ h.row, hleases ▸ h.stored, h.worker⟩
  cases c with
  | saveNode node =>
    rcases Call.exec_saveNode env db node with ⟨e, heq⟩ | ⟨heq, _⟩
    all_goals exact hkeep _ hschema (by rw [heq]) (by rw [heq])
  | saveJob job =>
    rcases Call.exec_saveJob env db job with ⟨e, heq⟩ | ⟨heq, _⟩
    all_goals exact hkeep _ hschema (by rw [heq]) (by rw [heq])
  | saveEvent job tenant type =>
    rcases Call.exec_saveEvent env db job tenant type with ⟨e, heq⟩ | ⟨events, heq⟩
    all_goals exact hkeep _ hschema (by rw [heq]) (by rw [heq])
  | saveWorker worker =>
    rcases Call.exec_saveWorker env db worker with ⟨e, heq⟩ | ⟨heq, _⟩
    . exact hkeep _ hschema (by rw [heq]) (by rw [heq])
    . refine ⟨hschema, ?_, ?_, h.worker⟩
      . have ⟨row, hrow, hfreed⟩ := h.row
        refine ⟨row, ?_, hfreed⟩
        rw [heq]
        exact (db.workers.get?_upsert_of_ne (r := worker.toRow) hc).trans hrow
      . rw [heq]
        exact h.stored
  | deleteLeaseIfExpired job tenant =>
    refine ⟨hschema, h.row, ?_, h.worker⟩
    have hkept : !PostgresLeaseRepository.deletable env job tenant lease := by
      simp [PostgresLeaseRepository.deletable, Ne.symm hc]
    exact List.mem_filter.mpr ⟨h.stored, hkept⟩
  | getWorkerAcrossTenants _ | getWorkerByNode _ _ | listWorkers | deleteNode _ _ => exact hc.elim
  | saveLease _ | renewLease _ _ _ | deleteLease _ _ => exact hc.elim
  | _ => exact hkeep _ hschema rfl rfl

-- the state that is not behind takes the same run, and `db'` is as far behind as before
def Follows {α : Type} (H : Env → Prop) (held : WorkerRow) (lease : Lease) (p : Service α) (db : DB)
    (r : Except Err α) (db' : DB) : Prop :=
  Runs postgres H p (withWorker held db) r (withWorker held db') ∧ Lags held lease db'

theorem runs {α : Type} {p : Service α} {r : Except Err α} {Q : Except Err α → DB → Prop}
    (h : Lags held lease db) (hwp : wp postgres H (fun _ => clear held lease) p Q db)
    (hruns : Runs postgres H p db r db') : Follows H held lease p db r db' :=
  hruns.map_state (f := withWorker held) (I := Lags held lease)
    (fun _ _ env hlags hc _ => ⟨hlags.exec_withWorker hc, hlags.exec hc env⟩) hwp h

def twin (held : WorkerRow) (db : DB) (worker : Worker) : Worker :=
  { worker with status := held.status, runningJob := held.runningJobId.bind db.jobs.get? }

theorem getWorker_withWorker {row : WorkerRow} (hrow : db.workers.get? held.id = some row)
    (hfreed : row.freed = held.freed) (env : Env) (tenant : TenantId)
    : PostgresWorkerRepository.getById env (withWorker held db) held.id tenant
        = (PostgresWorkerRepository.getById env db held.id tenant).map (twin held db) := by
  obtain ⟨id, nodeId, tenantId, status, managedBy, runningJobId, lastSeenAt⟩ := row
  obtain ⟨id', nodeId', tenantId', status', managedBy', runningJobId', lastSeenAt'⟩ := held
  injection hfreed with hid hnode htenant _ hmanaged _ hseen
  subst hid hnode htenant hmanaged hseen
  unfold PostgresWorkerRepository.getById
  dsimp only [withWorker]
  rw [db.workers.get?_upsert_self, hrow, Option.filter_some, Option.filter_some]
  dsimp only
  split
  . dsimp only [Option.bind_some, PostgresWorkerRepository.toEntity]
    cases db.nodes.get? nodeId <;> rfl
  . rfl

theorem saveWorker_self {worker : Worker} (hid : worker.id = held.id)
    : PostgresWorkerRepository.save (withWorker held db) worker = PostgresWorkerRepository.save db worker := by
  have hworkers : { withWorker held db with workers := (withWorker held db).workers.upsert worker.toRow }
      = { db with workers := db.workers.upsert worker.toRow } := by
    dsimp only [withWorker]
    have hagain : (db.workers.upsert held).upsert worker.toRow = db.workers.upsert worker.toRow :=
      db.workers.upsert_upsert hid
    rw [hagain]
  unfold PostgresWorkerRepository.save
  rw [hworkers]
  rfl

theorem save_touched {worker touched : Worker} (hschema : Schema db) (hcurrent : Current db worker)
    (hid : touched.id = worker.id) (hnode : touched.node = worker.node)
    (hjob : touched.runningJob = worker.runningJob ∨ touched.runningJob = none)
    : PostgresWorkerRepository.save db touched = .ok (withWorker touched.toRow db) := by
  have htenant : touched.tenantId = worker.tenantId := by
    unfold Worker.tenantId
    rw [hnode]
  have hmem := Table.mem_of_get? hcurrent.row
  apply saveWorker_eq_ok hschema
  . intro row hrow
    rw [hid, hcurrent.row] at hrow
    injection hrow with hrow
    rw [← hrow, htenant]
    rfl
  . have := hschema.workerNode _ hmem
    unfold PostgresWorkerRepository.nodeSameTenant Worker.toRow at this ⊢
    dsimp only at this ⊢
    rw [hnode, htenant]
    exact this
  . have := hschema.workerJob _ hmem
    unfold PostgresWorkerRepository.runningJobSameTenant Worker.toRow at this ⊢
    dsimp only at this ⊢
    rcases hjob with hjob | hjob
    . rw [hjob, htenant]
      exact this
    . rw [hjob]
      rfl

theorem makes_reclaim (job : Job) (tenant : TenantId)
    : Makes (clear held lease) (RecoverExpiredLease.reclaim job tenant) := by
  have hmove : Makes (clear held lease) (reclaimJob job none true) := by
    apply Makes.bind (.perform trivial)
    intro now
    split
    . exact .bind (.call trivial) (fun _ => .pure _)
    . exact .pure _
    . trivial
  unfold RecoverExpiredLease.reclaim
  apply Makes.bind
  . unfold RecoverExpiredLease.findNode
    split
    . exact .pure _
    . exact .perform trivial
  intro node
  apply Makes.bind
  . cases node with
    | none => exact hmove
    | some node =>
      rw [reclaimJob_release]
      exact .bind (.call trivial) (fun _ => hmove)
  intro reclaimed
  split
  . exact .call trivial
  . exact .pure _

theorem wp_of_makes_clear {α : Type} {p : Service α} (h : Makes (clear held lease) p) (db : DB)
    : wp postgres H (fun _ => clear held lease) p (fun _ _ => True) db :=
  wp_of_makes (fun _ => True) (fun _ _ _ hc => hc) (fun _ _ _ _ _ _ => trivial) h
    (fun _ _ _ => trivial) trivial

theorem wp_recover {other : Lease} (hschema : Schema db) (hworker : other.workerId ≠ held.id)
    (hjob : other.jobId ≠ lease.jobId)
    : wp postgres H (fun _ => clear held lease) (RecoverExpiredLease.recover other) (fun _ _ => True) db := by
  refine ⟨trivial, ?_⟩
  intro env _
  dsimp only [postgres, Call.exec, Prog.bind]
  split
  . trivial
  refine ⟨hjob, ?_⟩
  intro env _
  have hschema1 := hschema.exec (.deleteLeaseIfExpired other.jobId other.tenantId) env
  dsimp only [postgres, Prog.bind]
  generalize (Call.deleteLeaseIfExpired other.jobId other.tenantId).exec env db = deleted at hschema1 ⊢
  split
  . trivial
  refine ⟨hworker, ?_⟩
  intro env _
  dsimp only [postgres, Call.exec, Prog.bind]
  -- the worker that is saved is the one that was read
  have hrecover : Makes (clear held lease) (RecoverExpiredLease.recoverWorker
      (PostgresWorkerRepository.getById env deleted.2 other.workerId other.tenantId)) := by
    unfold RecoverExpiredLease.recoverWorker
    split
    . trivial
    . next worker hworker' =>
      have ⟨_, hid, _⟩ := PostgresWorkerRepository.getById_eq_some hschema1 hworker'
      rw [← hid] at hworker
      exact .call hworker
  refine ⟨trivial, ?_⟩
  intro env _
  dsimp only [postgres, Call.exec, Prog.bind]
  split
  . exact wp_of_makes_clear hrecover _
  . exact wp_of_makes_clear (.bind hrecover (fun _ => makes_reclaim _ _)) _

theorem getWorker_of_tenant {row : WorkerRow} {tenant : TenantId} (hschema : Schema db)
    (hrow : db.workers.get? held.id = some row) (htenant : row.tenantId = tenant) (env : Env)
    : ∃ worker, PostgresWorkerRepository.getById env db held.id tenant = some worker := by
  unfold PostgresWorkerRepository.getById
  rw [hrow, Option.filter_some, if_pos (by simp [htenant]), Option.bind_some]
  exact PostgresWorkerRepository.toEntity_isSome hschema (Table.mem_of_get? hrow)

theorem tenantId_eq {row : WorkerRow} (h : Lags held lease db) (hrow : db.workers.get? held.id = some row)
    : row.tenantId = lease.tenantId := by
  have := h.schema.leaseWorker lease h.stored
  unfold PostgresLeaseRepository.workerSameTenant at this
  rw [h.worker, hrow] at this
  simpa using this

theorem runs_saveWorker {α : Type} {worker : Worker} {k : Except Err Unit → Service α} {r : Except Err α}
    {saved : DB} (hid : worker.id = held.id) (hsave : PostgresWorkerRepository.save db worker = .ok saved)
    (hruns : Runs postgres H (.call (S := signature) (.saveWorker worker) k) db r db')
    : Runs postgres H (.call (S := signature) (.saveWorker worker) k) (withWorker held db) r db' := by
  obtain ⟨env, henv, hruns⟩ := hruns
  refine ⟨env, henv, ?_⟩
  dsimp only [postgres, Call.exec] at hruns ⊢
  rw [saveWorker_self hid, hsave]
  rw [hsave] at hruns
  exact hruns

theorem runs_recoverWorker {α : Type} {worker : Worker} {k : Except Err Unit → Service α} {r : Except Err α}
    {env : Env} {tenant : TenantId} (hschema : Schema db)
    (hworker : PostgresWorkerRepository.getById env db held.id tenant = some worker)
    (hruns : Runs postgres H (.call (S := signature) (.saveWorker worker.recover) k) db r db')
    : Runs postgres H (.call (S := signature) (.saveWorker (twin held db worker).recover) k) (withWorker held db)
        r db' := by
  have ⟨hcurrent, hid, _⟩ := PostgresWorkerRepository.getById_eq_some hschema hworker
  have hsave : PostgresWorkerRepository.save db worker.recover = .ok (withWorker worker.recover.toRow db) :=
    save_touched hschema hcurrent rfl rfl (.inr rfl)
  exact runs_saveWorker hid hsave hruns

theorem recover_self {r : Except Err Unit} (h : Lags held lease db)
    (hruns : Runs postgres H (RecoverExpiredLease.recover lease) db r db')
    : Runs postgres H (RecoverExpiredLease.recover lease) (withWorker held db) r db'
        ∨ Follows H held lease (RecoverExpiredLease.recover lease) db r db'
          ∧ ∃ env, H env ∧ env.now ≤ lease.expiresAt := by
  have ⟨row, hrow, hfreed⟩ := h.row
  obtain ⟨env1, henv1, hruns⟩ := hruns
  dsimp only [postgres, Call.exec, Prog.bind] at hruns
  by_cases hexpired : lease.isExpired env1.now
  . rw [if_neg (by simp [hexpired])] at hruns
    obtain ⟨env2, henv2, hruns⟩ := hruns
    have hschema1 := h.schema.exec (.deleteLeaseIfExpired lease.jobId lease.tenantId) env2
    dsimp only [postgres, Call.exec, Prog.bind] at hruns hschema1
    have hdelete : PostgresLeaseRepository.deleteIfExpired env2 (withWorker held db) lease.jobId lease.tenantId
        = ((PostgresLeaseRepository.deleteIfExpired env2 db lease.jobId lease.tenantId).1,
          withWorker held (PostgresLeaseRepository.deleteIfExpired env2 db lease.jobId lease.tenantId).2) := rfl
    by_cases hdeleted : (PostgresLeaseRepository.deleteIfExpired env2 db lease.jobId lease.tenantId).1
    . left
      rw [if_neg (by simp [hdeleted])] at hruns
      refine ⟨env1, henv1, ?_⟩
      dsimp only [postgres, Call.exec, Prog.bind]
      rw [if_neg (by simp [hexpired])]
      refine ⟨env2, henv2, ?_⟩
      dsimp only [postgres, Call.exec, Prog.bind]
      rw [hdelete, if_neg (by simp [hdeleted]), h.worker]
      rw [h.worker] at hruns
      have hrow1 : (PostgresLeaseRepository.deleteIfExpired env2 db lease.jobId lease.tenantId).2.workers.get?
          held.id = some row := hrow
      generalize (PostgresLeaseRepository.deleteIfExpired env2 db lease.jobId lease.tenantId).2 = db1
        at hruns hschema1 hrow1 ⊢
      obtain ⟨env3, henv3, env4, henv4, hruns⟩ := hruns
      have ⟨worker, hworker⟩ := getWorker_of_tenant hschema1 hrow1 (h.tenantId_eq hrow) env3
      refine ⟨env3, henv3, env4, henv4, ?_⟩
      dsimp only [postgres, Call.exec, Prog.bind] at hruns ⊢
      have hjob : PostgresJobRepository.getById (withWorker held db1) lease.jobId lease.tenantId
          = PostgresJobRepository.getById db1 lease.jobId lease.tenantId := rfl
      rw [getWorker_withWorker hrow1 hfreed, hworker, Option.map_some, hjob]
      rw [hworker] at hruns
      cases hfound : PostgresJobRepository.getById db1 lease.jobId lease.tenantId
      all_goals
        rw [hfound] at hruns
        exact runs_recoverWorker hschema1 hworker hruns
    . right
      have hkept : PostgresLeaseRepository.deletable env2 lease.jobId lease.tenantId lease = false := by
        have := List.any_eq_false.mp (Bool.eq_false_iff.mpr hdeleted) lease h.stored
        exact Bool.eq_false_iff.mpr this
      rw [if_pos (by simp [hdeleted])] at hruns
      obtain ⟨rfl, rfl⟩ := hruns
      refine ⟨⟨?_, hschema1, h.row, List.mem_filter.mpr ⟨h.stored, by simp [hkept]⟩, h.worker⟩, env2, henv2, ?_⟩
      . refine ⟨env1, henv1, ?_⟩
        dsimp only [postgres, Call.exec, Prog.bind]
        rw [if_neg (by simp [hexpired])]
        refine ⟨env2, henv2, ?_⟩
        dsimp only [postgres, Call.exec, Prog.bind]
        rw [hdelete, if_pos (by simp [hdeleted])]
        exact ⟨rfl, rfl⟩
      . unfold PostgresLeaseRepository.deletable at hkept
        simpa using hkept
  . right
    rw [if_pos (by simp [hexpired])] at hruns
    obtain ⟨rfl, rfl⟩ := hruns
    refine ⟨⟨⟨env1, henv1, ?_⟩, h⟩, env1, henv1, ?_⟩
    . dsimp only [postgres, Call.exec, Prog.bind]
      rw [if_pos (by simp [hexpired])]
      exact ⟨rfl, rfl⟩
    . unfold Lease.isExpired at hexpired
      rw [decide_eq_true_eq, Int.not_le] at hexpired
      exact Int.le_of_lt hexpired

theorem forM_recover {r : Except Err PUnit} {leases : List Lease} (h : Lags held lease db)
    (hothers : ∀ other ∈ leases, other ≠ lease → other.workerId ≠ held.id ∧ other.jobId ≠ lease.jobId)
    (hruns : Runs postgres H (forM leases RecoverExpiredLease.recover) db r db')
    : Runs postgres H (forM leases RecoverExpiredLease.recover) (withWorker held db) r db'
        ∨ Follows H held lease (forM leases RecoverExpiredLease.recover) db r db'
          ∧ (r = .ok ⟨⟩ → lease ∈ leases → ∃ env, H env ∧ env.now ≤ lease.expiresAt) := by
  induction leases generalizing db with
  | nil =>
    obtain ⟨hr, rfl⟩ := hruns
    exact .inr ⟨⟨⟨hr, rfl⟩, h⟩, fun _ => nofun⟩
  | cons other leases ih =>
    have ih := fun db (h : Lags held lease db) =>
      ih h (fun x hx => hothers x (List.mem_cons_of_mem _ hx))
    rw [List.forM_cons] at hruns ⊢
    simp only [runs_bind_iff] at hruns ⊢
    by_cases hself : other = lease
    . subst hself
      rcases hruns with ⟨_, db1, hfirst, hrest⟩ | ⟨e, hfirst, rfl⟩
      . rcases h.recover_self hfirst with hsame | ⟨⟨hmapped, hlags⟩, hearly⟩
        . exact .inl (.inl ⟨_, db1, hsame, hrest⟩)
        . rcases ih db1 hlags hrest with hsame | ⟨⟨hmapped', hlags'⟩, _⟩
          . exact .inl (.inl ⟨_, _, hmapped, hsame⟩)
          . exact .inr ⟨⟨(runs_bind_iff _ _ _ _ _).mpr (.inl ⟨_, _, hmapped, hmapped'⟩), hlags'⟩, fun _ _ => hearly⟩
      . rcases h.recover_self hfirst with hsame | ⟨⟨hmapped, hlags⟩, _⟩
        . exact .inl (.inr ⟨e, hsame, rfl⟩)
        . exact .inr ⟨⟨(runs_bind_iff _ _ _ _ _).mpr (.inr ⟨e, hmapped, rfl⟩), hlags⟩, nofun⟩
    . have ⟨hworker, hjob⟩ := hothers other List.mem_cons_self hself
      rcases hruns with ⟨_, db1, hfirst, hrest⟩ | ⟨e, hfirst, rfl⟩
      . have ⟨hmapped, hlags⟩ := h.runs (wp_recover h.schema hworker hjob) hfirst
        rcases ih db1 hlags hrest with hsame | ⟨⟨hmapped', hlags'⟩, hearly⟩
        . exact .inl (.inl ⟨_, _, hmapped, hsame⟩)
        . refine .inr ⟨⟨(runs_bind_iff _ _ _ _ _).mpr (.inl ⟨_, _, hmapped, hmapped'⟩), hlags'⟩, ?_⟩
          intro hr hmem
          rcases List.mem_cons.mp hmem with heq | hmem
          . exact absurd heq.symm hself
          . exact hearly hr hmem
      . have ⟨hmapped, hlags⟩ := h.runs (wp_recover h.schema hworker hjob) hfirst
        exact .inr ⟨⟨(runs_bind_iff _ _ _ _ _).mpr (.inr ⟨e, hmapped, rfl⟩), hlags⟩, nofun⟩

theorem recoverExpiredLeases {r : Except Err Unit} (h : Lags held lease db) (hinv : Inv (withWorker held db))
    (hruns : Runs postgres H RecoverExpiredLease.execute db r db')
    : Runs postgres H RecoverExpiredLease.execute (withWorker held db) r db'
        ∨ Follows H held lease RecoverExpiredLease.execute db r db'
          ∧ ∃ env, H env ∧ env.now ≤ lease.expiresAt := by
  obtain ⟨env, henv, hruns⟩ := hruns
  dsimp only [postgres, Call.exec, Prog.bind, PostgresLeaseRepository.listAcrossTenants] at hruns
  have hmem : ∀ other, other ∈ env.leaseOrder.sort db.leases.rows ↔ other ∈ db.leases.rows :=
    fun _ => (env.leaseOrder.hperm _).mem_iff
  have hothers : ∀ other ∈ env.leaseOrder.sort db.leases.rows, other ≠ lease →
      other.workerId ≠ held.id ∧ other.jobId ≠ lease.jobId := by
    intro other hother hne
    have hother := (hmem other).mp hother
    rw [← h.worker]
    exact ⟨fun heq => hne (h.schema.uniqueWorker other hother lease h.stored heq),
      fun heq => hne (h.schema.uniqueJob other hother lease h.stored heq)⟩
  rcases h.forM_recover hothers hruns with hsame | ⟨⟨hmapped, hlags⟩, hearly⟩
  . exact .inl ⟨env, henv, hsame⟩
  . have hfull : Runs postgres H RecoverExpiredLease.execute (withWorker held db) r (withWorker held db') :=
      ⟨env, henv, hmapped⟩
    have hok := (hfull.of_wp (RecoverExpiredLease.wp_execute (n := 0) hinv)).left
    exact .inr ⟨⟨hfull, hlags⟩, hearly hok ((hmem lease).mpr h.stored)⟩

theorem heartbeatNode {nodeId : NodeId} {tenant : TenantId} {r : Except Err (Option Node)}
    (h : Lags held lease db) (hruns : Runs postgres H (AetherGrid.heartbeatNode nodeId tenant) db r db')
    : Follows H held lease (AetherGrid.heartbeatNode nodeId tenant) db r db' := by
  have hmakes : Makes (clear held lease) (AetherGrid.heartbeatNode nodeId tenant) := by
    apply Makes.bind (.perform trivial)
    intro node
    cases node with
    | none => trivial
    | some node =>
      apply Makes.bind (.perform trivial)
      intro now
      exact .bind (.call trivial) (fun _ => .pure _)
  exact h.runs (wp_of_makes_clear hmakes db) hruns

theorem workerHeartbeat_other {workerId : WorkerId} {tenant : TenantId} {r : Except Err Worker}
    (h : Lags held lease db) (hother : workerId ≠ held.id)
    (hruns : Runs postgres H (workerHeartbeat workerId tenant) db r db')
    : Follows H held lease (workerHeartbeat workerId tenant) db r db' := by
  have hwp : wp postgres H (fun _ => clear held lease) (workerHeartbeat workerId tenant)
      (fun _ _ => True) db := by
    refine ⟨hother, ?_⟩
    intro env _
    dsimp only [postgres, Call.exec, Prog.bind]
    split
    . trivial
    . next worker hworker =>
      have ⟨_, hid, _⟩ := PostgresWorkerRepository.getById_eq_some h.schema hworker
      split
      . trivial
      . refine ⟨trivial, ?_⟩
        intro env _
        dsimp only [postgres, Call.exec, Prog.bind]
        have hclear : (worker.heartbeat env.now).id ≠ held.id := by
          rw [← hid] at hother
          unfold Worker.heartbeat
          split <;> exact hother
        refine ⟨hclear, ?_⟩
        intro env _
        dsimp only [postgres, Prog.bind]
        generalize (Call.saveWorker (worker.heartbeat _)).exec env db = saved
        cases saved.1 <;> trivial
  exact h.runs hwp hruns

theorem freed_heartbeat (held : WorkerRow) (db : DB) (worker : Worker) (now : Time)
    : (worker.heartbeat now).toRow.freed = ((twin held db worker).heartbeat now).toRow.freed := by
  unfold Worker.heartbeat
  split <;> split <;> rfl

theorem workerHeartbeat_self {tenant : TenantId} {r : Except Err Worker} (h : Lags held lease db)
    (hschema : Schema (withWorker held db))
    (hruns : Runs postgres H (workerHeartbeat held.id tenant) db r db')
    : ∃ r' held', Runs postgres H (workerHeartbeat held.id tenant) (withWorker held db) r' (withWorker held' db')
        ∧ Lags held' lease db' := by
  have ⟨row, hrow, hfreed⟩ := h.row
  obtain ⟨env, henv, hruns⟩ := hruns
  have hfound := getWorker_withWorker hrow hfreed env tenant
  dsimp only [postgres, Call.exec, Prog.bind] at hruns
  cases hworker : PostgresWorkerRepository.getById env db held.id tenant with
  | none =>
    rw [hworker] at hruns hfound
    obtain ⟨rfl, rfl⟩ := hruns
    refine ⟨.error (.workerNotFound held.id), held, ⟨env, henv, ?_⟩, h⟩
    dsimp only [postgres, Call.exec, Prog.bind]
    rw [hfound]
    exact ⟨rfl, rfl⟩
  | some worker =>
    rw [hworker] at hruns hfound
    have ⟨hcurrent, hid, htenant⟩ := PostgresWorkerRepository.getById_eq_some h.schema hworker
    have ⟨hcurrent', hid', _⟩ := PostgresWorkerRepository.getById_eq_some hschema hfound
    dsimp only at hruns
    rw [if_neg (by simp [htenant])] at hruns
    obtain ⟨env1, henv1, env2, henv2, hruns⟩ := hruns
    have hsame : ∀ worker : Worker, (worker.heartbeat env1.now).id = worker.id
        ∧ (worker.heartbeat env1.now).node = worker.node
        ∧ (worker.heartbeat env1.now).runningJob = worker.runningJob := by
      intro worker
      unfold Worker.heartbeat
      split <;> exact ⟨rfl, rfl, rfl⟩
    have hsave := save_touched h.schema hcurrent (hsame worker).1 (hsame worker).2.1 (.inl (hsame worker).2.2)
    have hsave' := save_touched hschema hcurrent' (hsame (twin held db worker)).1
      (hsame (twin held db worker)).2.1 (.inl (hsame (twin held db worker)).2.2)
    dsimp only [postgres, Call.exec, Prog.bind] at hruns
    rw [hsave] at hruns
    obtain ⟨rfl, rfl⟩ := hruns
    have hworkerId : (worker.heartbeat env1.now).id = held.id := (hsame worker).1.trans hid
    have htwinId : ((twin held db worker).heartbeat env1.now).id = held.id := (hsame _).1.trans hid'
    refine ⟨.ok ((twin held db worker).heartbeat env1.now), ((twin held db worker).heartbeat env1.now).toRow,
      ⟨env, henv, ?_⟩, ?_⟩
    . dsimp only [postgres, Call.exec, Prog.bind]
      rw [hfound]
      dsimp only [Option.map_some]
      have htwin : (twin held db worker).tenantId = tenant := htenant
      rw [if_neg (by simpa using htwin)]
      refine ⟨env1, henv1, env2, henv2, ?_⟩
      dsimp only [postgres, Call.exec, Prog.bind]
      rw [hsave']
      refine ⟨rfl, ?_⟩
      dsimp only [withWorker, commit]
      rw [db.workers.upsert_upsert (htwinId.trans hworkerId.symm), db.workers.upsert_upsert htwinId]
    . refine ⟨h.schema.saveWorker hsave, ⟨_, ?_, freed_heartbeat held db worker env1.now⟩, h.stored, ?_⟩
      . exact db.workers.get?_upsert_of_eq (r := (worker.heartbeat env1.now).toRow)
          (hworkerId.trans htwinId.symm)
      . exact h.worker.trans htwinId.symm

end Lags

theorem markDeadWorkers_alive {r : Except Err Unit} (hschema : Schema db)
    (hruns : Runs postgres
      (fun env => ∀ row ∈ db.workers.rows, env.now - row.lastSeenAt ≤ heartbeatTimeout)
      MarkDeadWorkers.execute db r db')
    : db' = db := by
  apply hruns.of_wp (G := noGuard)
  refine wp_perform_bind rfl ?_
  intro env _
  dsimp only [Call.exec]
  apply wp_forM (fun workers db' => db' = db ∧ ∀ worker ∈ workers, Current db worker)
  . exact ⟨rfl, fun _ => PostgresWorkerRepository.current_of_mem_list hschema⟩
  . intro worker workers db1 ⟨heq, hcurrent⟩
    subst heq
    refine wp_perform_bind rfl ?_
    intro env halive
    have halive : worker.isAlive env.now :=
      decide_eq_true (halive worker.toRow (Table.mem_of_get? (hcurrent worker List.mem_cons_self).row))
    split
    . exact ⟨rfl, fun other hother => hcurrent other (List.mem_cons_of_mem _ hother)⟩
    . next hdead => exact absurd halive hdead
  . intro db1 h
    exact h.left

theorem recoverOfflineNodes_alive {r : Except Err Unit}
    (hruns : Runs postgres (fun env => ∀ node ∈ db.nodes.rows, node.isAlive (env.nowFor node.id))
      RecoverOfflineNode.execute db r db')
    : db' = db := by
  apply hruns.of_wp (G := noGuard)
  refine wp_perform_bind rfl ?_
  intro env _
  refine wp_perform_bind rfl ?_
  intro env' halive
  have hnone : (env.nodeOrder.sort db.nodes.rows).filter (fun node => !node.isAlive (env'.nowFor node.id)) = [] := by
    rw [List.filter_eq_nil_iff]
    intro node hnode
    simp [halive node ((env.nodeOrder.hperm _).mem_iff.mp hnode)]
  dsimp only [Call.exec, PostgresNodeRepository.listAcrossTenants]
  rw [hnone]
  rfl

end AetherGrid
