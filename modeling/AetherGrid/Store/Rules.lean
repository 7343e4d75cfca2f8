import AetherGrid.Domain.Lemmas
import AetherGrid.Store.Schema

/-!
This module contains the rules for repository calls of a service that runs alone: what has to be known
of the stores for a call to succeed, and what the stores are afterwards.
-/

namespace AetherGrid

def Call.isPlain (c : Call) : Bool :=
  match c with
  | .saveJob _ | .saveLease _ | .saveEvent _ _ _ => false
  | _ => true

class Tolerant (G : DB → Call → Prop) : Prop where
  plain : ∀ db c, c.isPlain → G db c

class Lenient (G : DB → Call → Prop) : Prop extends Tolerant G where
  event : ∀ db job tenant type, G db (.saveEvent job tenant type)

def noGuard : DB → Call → Prop :=
  fun _ _ => True

instance : Lenient noGuard where
  plain _ _ _ := trivial
  event _ _ _ _ := trivial

def lawful (n : Nat) (db : DB) (c : Call) : Prop :=
  match c with
  | .saveJob job =>
    match db.jobs.get? job.id with
    | none => job.retryCount ≤ job.maxRetries
    | some stored => stored.Becomes job ∧ (Leased db job.id → stored.Endures job)
  | .saveLease lease => n ≤ lease.id.value
  | _ => True

instance (n : Nat) : Lenient (lawful n) where
  plain _ c hc := by
    cases c with
    | saveJob job => contradiction
    | saveLease lease => contradiction
    | _ => trivial
  event _ _ _ _ := trivial

def EventType.closes (type : EventType) : Bool :=
  match type with
  | .workerAssigned | .jobUnscheduled | .jobCompleted | .jobFailed | .jobCancelled => true
  | _ => false

def WorkerRow.freed (row : WorkerRow) : WorkerRow :=
  { row with status := .idle, runningJobId := none }

def withWorker (held : WorkerRow) (db : DB) : DB :=
  { db with workers := db.workers.upsert held }

structure Owes (I : DB → Prop) (held : WorkerRow) (db : DB) : Prop where
  schema : Schema db
  row : ∃ row, db.workers.get? held.id = some row ∧ row.freed = held.freed
  lease : ∃ lease ∈ db.leases.rows, lease.workerId = held.id
  settled : I (withWorker held db)

class Settling (I : DB → Prop) (G : DB → Call → Prop) : Prop extends Tolerant G where
  job : ∀ db job, lawful 0 db (.saveJob job) → G db (.saveJob job)
  event : ∀ db job tenant type, (type.closes → I db) → (type = .leaseAcquired → ∃ held, Owes I held db) →
    G db (.saveEvent job tenant type)

instance (I : DB → Prop) (n : Nat) : Settling I (lawful n) where
  job _ _ h := h
  event _ _ _ _ _ _ := trivial

open Prog

theorem lawful_saveJob {n : Nat} {db : DB} {job job' : Job} (hjob : db.jobs.get? job'.id = some job)
    (hbecomes : job.Becomes job') (hendures : Leased db job'.id → job.Endures job')
    : lawful n db (.saveJob job') := by
  dsimp only [lawful]
  rw [hjob]
  exact ⟨hbecomes, hendures⟩

variable {α σ : Type} {H : Env → Prop} {db : DB} {G : DB → Call → Prop}

theorem wp_performCall {c : Call} {Q : Except Err c.Res → DB → Prop} [Tolerant G] (hc : c.isPlain)
    (h : ∀ env, H env → Q (.ok (c.exec env db).1) (c.exec env db).2)
    : wp postgres H G (perform (S := signature) c) Q db :=
  ⟨Tolerant.plain db c hc, h⟩

theorem wp_perform_bind {c : Call} {f : c.Res → Service α} {Q : Except Err α → DB → Prop}
    [Tolerant G] (hc : c.isPlain)
    (h : ∀ env, H env → wp postgres H G (f (c.exec env db).1) Q (c.exec env db).2)
    : wp postgres H G (perform (S := signature) c >>= f) Q db := by
  rw [wp_bind]
  exact wp_performCall hc h

@[simp]
theorem wp_runCommand {ρ η : Type} {M : Machine signature ρ η} {H : η → Prop} {G : ρ → Call → Prop}
    {s : ρ} (command : EStateM Err σ α) (entity : σ) (Q : Except Err (α × σ) → ρ → Prop)
    : wp M H G (runCommand command entity) Q s
        ↔
      match command.run entity with
      | .ok a entity => Q (.ok (a, entity)) s
      | .error e _ => Q (.error e) s := by
  unfold runCommand
  cases command.run entity <;> rfl

theorem wp_of_schema {p : Service α} {Q : Except Err α → DB → Prop} (hschema : Schema db)
    (h : wp postgres H G p (fun r db' => Schema db' → Q r db') db)
    : wp postgres H G p Q db := by
  induction p generalizing db with
  | ret a => exact h hschema
  | raise e => exact h hschema
  | call c k ih =>
    refine ⟨h.left, ?_⟩
    intro env henv
    exact ih _ (hschema.exec c env) (h.right env henv)

section saves

variable {Q : Except Err Unit → DB → Prop}

theorem wp_saveNode [Tolerant G] {node : Node} (hschema : Schema db)
    (hnode : ∀ stored, db.nodes.get? node.id = some stored → stored.tenantId = node.tenantId)
    (h : Schema { db with nodes := db.nodes.upsert node }
      → Q (.ok ()) { db with nodes := db.nodes.upsert node })
    : wp postgres H G (NodeRepository.save node) Q db := by
  have hsave : PostgresNodeRepository.save db node
      = .ok { db with nodes := db.nodes.upsert node } := by
    unfold PostgresNodeRepository.save
    split
    . rfl
    . next stored hstored => rw [if_pos (hnode stored hstored)]
  refine ⟨Tolerant.plain db _ rfl, ?_⟩
  intro env _
  simp only [postgres, Call.exec, hsave, commit, wp_ofExcept]
  exact h (hschema.saveNode hsave)

theorem wp_saveJob {job : Job} (hschema : Schema db)
    (hjob : ∀ stored, db.jobs.get? job.id = some stored → stored.tenantId = job.tenantId)
    (hnode : PostgresJobRepository.assignedNodeSameTenant db job)
    (hguard : G db (.saveJob job))
    (h : Schema { db with jobs := db.jobs.upsert job }
      → Q (.ok ()) { db with jobs := db.jobs.upsert job })
    : wp postgres H G (JobRepository.save job) Q db := by
  have hsave : PostgresJobRepository.save db job = .ok { db with jobs := db.jobs.upsert job } := by
    unfold PostgresJobRepository.save
    split
    . next htenant =>
      obtain ⟨stored, hstored, hne⟩ := (Option.any_eq_true _ _).mp htenant
      have := hjob stored hstored
      simp [this] at hne
    . rfl
  refine ⟨hguard, ?_⟩
  intro env _
  simp only [postgres, Call.exec, hsave, commit, wp_ofExcept]
  exact h (hschema.saveJob hsave)

theorem saveWorker_eq_ok {worker : Worker} (hschema : Schema db)
    (hworker : ∀ row, db.workers.get? worker.id = some row → row.tenantId = worker.tenantId)
    (hnode : PostgresWorkerRepository.nodeSameTenant db worker.toRow)
    (hjob : PostgresWorkerRepository.runningJobSameTenant db worker.toRow)
    : PostgresWorkerRepository.save db worker = .ok (withWorker worker.toRow db) := by
  have hleases : PostgresWorkerRepository.leasesSameTenant db worker.toRow := by
    unfold PostgresWorkerRepository.leasesSameTenant
    rw [List.all_eq_true]
    intro lease hlease
    rw [decide_eq_true_eq]
    intro heq
    have := hschema.leaseWorker lease hlease
    unfold PostgresLeaseRepository.workerSameTenant at this
    rw [Option.any_eq_true] at this
    have ⟨row, hrow, htenant⟩ := this
    rw [heq] at hrow
    rw [decide_eq_true_eq] at htenant
    rw [← htenant]
    apply hworker row hrow
  unfold PostgresWorkerRepository.save
  rw [hnode, hjob, hleases]
  rfl

theorem wp_saveWorker_of_eq [Tolerant G] {worker : Worker} {db' : DB} (hschema : Schema db)
    (hsave : PostgresWorkerRepository.save db worker = .ok db') (h : Schema db' → Q (.ok ()) db')
    : wp postgres H G (WorkerRepository.save worker) Q db := by
  refine ⟨Tolerant.plain db _ rfl, ?_⟩
  intro env _
  simp only [postgres, Call.exec, hsave, commit, wp_ofExcept]
  exact h (hschema.saveWorker hsave)

theorem wp_saveWorker [Tolerant G] {worker : Worker} (hschema : Schema db)
    (hworker : ∀ row, db.workers.get? worker.id = some row → row.tenantId = worker.tenantId)
    (hnode : PostgresWorkerRepository.nodeSameTenant db worker.toRow)
    (hjob : PostgresWorkerRepository.runningJobSameTenant db worker.toRow)
    (h : Schema { db with workers := db.workers.upsert worker.toRow }
      → Q (.ok ()) { db with workers := db.workers.upsert worker.toRow })
    : wp postgres H G (WorkerRepository.save worker) Q db :=
  wp_saveWorker_of_eq hschema (saveWorker_eq_ok hschema hworker hnode hjob) h

theorem wp_saveCurrent [Tolerant G] (hschema : Schema db) {worker : Worker} (worker' : Worker)
    (hrow : db.workers.get? worker.id = some worker.toRow) (hid : worker'.id = worker.id)
    (hnode : worker'.node = worker.node)
    (hrunning : worker'.runningJob = worker.runningJob ∨ worker'.runningJob = none)
    (h : Schema { db with workers := db.workers.upsert worker'.toRow }
      → Q (.ok ()) { db with workers := db.workers.upsert worker'.toRow })
    : wp postgres H G (WorkerRepository.save worker') Q db := by
  have hmem := Table.mem_of_get? hrow
  have htenant : worker'.tenantId = worker.tenantId := by
    unfold Worker.tenantId
    rw [hnode]
  apply wp_saveWorker hschema
  . intro row hget
    rw [hid, hrow] at hget
    injection hget with hget
    rw [← hget, htenant]
    rfl
  . have := hschema.workerNode worker.toRow hmem
    unfold PostgresWorkerRepository.nodeSameTenant Worker.toRow at this ⊢
    rw [hnode, htenant]
    exact this
  . have := hschema.workerJob worker.toRow hmem
    unfold PostgresWorkerRepository.runningJobSameTenant Worker.toRow at this ⊢
    cases hrunning with
    | inl heq =>
      rw [heq, htenant]
      exact this
    | inr hnone =>
      rw [hnone]
      rfl
  . exact h

theorem wp_recordEvent {job : Job} {type : EventType} {stored : Job}
    (hguard : G db (.saveEvent job.id job.tenantId type))
    (hjob : db.jobs.get? job.id = some stored) (htenant : stored.tenantId = job.tenantId)
    (h : ∀ events, Q (.ok ()) { db with events := events, nextId := db.nextId + 1 })
    : wp postgres H G (RecordJobEventsService.recordForJob job type) Q db := by
  refine ⟨hguard, ?_⟩
  intro env _
  have hany : (db.jobs.get? job.id).any (·.tenantId = job.tenantId) = true := by
    rw [hjob]
    simpa using htenant
  simp only [postgres, Call.exec, PostgresEventRepository.save, hany, commit, if_true, wp_ofExcept]
  apply h

theorem wp_recordForJob [Lenient G] {job : Job} {type : EventType} {stored : Job}
    (hjob : db.jobs.get? job.id = some stored) (htenant : stored.tenantId = job.tenantId)
    (h : ∀ events, Q (.ok ()) { db with events := events, nextId := db.nextId + 1 })
    : wp postgres H G (RecordJobEventsService.recordForJob job type) Q db :=
  wp_recordEvent (Lenient.event _ _ _ _) hjob htenant h

end saves

end AetherGrid
