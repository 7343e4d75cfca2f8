import AetherGrid.Store.Rules

/-!
This module contains what the calls of a service that runs alone leave as it was: the attempts of jobs
and the leases.
-/

namespace AetherGrid

open Prog

variable (env : Env) {db : DB} {c : Call} {n : Nat}

theorem becomes_of_exec (hlawful : lawful n db c) {id : JobId} {job : Job}
    (hjob : db.jobs.get? id = some job)
    : ∃ job', (c.exec env db).2.jobs.get? id = some job' ∧ job.Becomes job' := by
  rcases (Call.writes_exec env db c).get?_job hjob with ⟨saved, rfl, rfl, hsaved⟩ | hsame | hcleared
  . dsimp only [lawful] at hlawful
    rw [hjob] at hlawful
    exact ⟨saved, hsaved, hlawful.left⟩
  . exact ⟨job, hsame, .refl job⟩
  . exact ⟨_, hcleared, .inl rfl, rfl, Nat.le_refl _, fun h => h, Nat.le_refl _⟩

theorem endures_of_exec (hlawful : lawful n db c) {id : JobId} {job : Job}
    (hjob : db.jobs.get? id = some job) (hleased : Leased db id)
    : ∃ job', (c.exec env db).2.jobs.get? id = some job' ∧ job.Endures job' := by
  rcases (Call.writes_exec env db c).get?_job hjob with ⟨saved, rfl, rfl, hsaved⟩ | hsame | hcleared
  . dsimp only [lawful] at hlawful
    rw [hjob] at hlawful
    exact ⟨saved, hsaved, hlawful.right hleased⟩
  . exact ⟨job, hsame, .refl job⟩
  . exact ⟨_, hcleared, rfl, rfl, .inl, fun h => h⟩

def Persists (n : Nat) (origin db : DB) : Prop :=
  ∀ id lease, db.leases.get? id = some lease → id.value < n →
    ∃ lease0, origin.leases.get? id = some lease0
      ∧ lease0.workerId = lease.workerId
      ∧ lease0.jobId = lease.jobId
      ∧ ∀ job0, origin.jobs.get? lease.jobId = some job0 →
        ∃ job, db.jobs.get? lease.jobId = some job ∧ job0.Endures job

theorem Persists.refl (n : Nat) (db : DB) : Persists n db db := by
  intro id lease hlease _
  exact ⟨lease, hlease, rfl, rfl, fun job hjob => ⟨job, hjob, .refl job⟩⟩

theorem Persists.exec {origin : DB} (h : Persists n origin db) (hlawful : lawful n db c)
    : Persists n origin (c.exec env db).2 := by
  intro id lease' hlease' hid
  have hkey := Table.key_of_get? hlease'
  rcases (Call.writes_exec env db c).mem_leases (Table.mem_of_get? hlease') with rfl | hold
  . have hfresh : n ≤ lease'.id.value := hlawful
    rw [hkey] at hfresh
    omega
  . have ⟨old, hold, hold', holdWorker, holdJob, _⟩ := hold
    have hget : db.leases.get? id = some old := by
      rw [← hkey, ← hold']
      exact db.leases.get?_key_of_mem hold
    have ⟨lease0, hlease0, hworkerId, hjobId, hjobs⟩ := h id old hget hid
    refine ⟨lease0, hlease0, hworkerId.trans holdWorker, hjobId.trans holdJob, ?_⟩
    intro job0 hjob0
    rw [← holdJob] at hjob0 ⊢
    have ⟨job, hjob, hendures⟩ := hjobs job0 hjob0
    have ⟨job', hjob', hendures'⟩ := endures_of_exec env hlawful hjob ⟨old, hold, rfl⟩
    exact ⟨job', hjob', hendures.trans hendures'⟩

def grantsNothing : DB → Call → Prop :=
  fun _ c => c.savedLease = none

instance : Lenient grantsNothing where
  plain _ c hc := by
    cases c with
    | saveLease lease => contradiction
    | _ => rfl
  event _ _ _ _ := rfl

variable {α : Type} {p : Service α} {H : Env → Prop} {Q : Except Err α → DB → Prop}

theorem wp_grantsNothing (h : ∀ n, wp postgres H (lawful n) p Q db)
    : wp postgres H grantsNothing p Q db := by
  apply wp_guard_forall _ h
  intro db c hlawful
  cases c with
  | saveLease lease =>
    have hle : lease.id.value + 1 ≤ lease.id.value := hlawful (lease.id.value + 1)
    omega
  | _ => rfl

theorem mem_leases_of_runs {r : Except Err α} {db' : DB} (hruns : Runs postgres H p db r db')
    (hwp : wp postgres H grantsNothing p Q db)
    : ∀ lease' ∈ db'.leases.rows, ∃ lease ∈ db.leases.rows,
        lease.id = lease'.id ∧ lease.workerId = lease'.workerId ∧ lease.jobId = lease'.jobId := by
  refine (hruns.of_wp (wp_keep (fun db' => ∀ lease' ∈ db'.leases.rows, ∃ lease ∈ db.leases.rows,
    lease.id = lease'.id ∧ lease.workerId = lease'.workerId ∧ lease.jobId = lease'.jobId)
    ?_ hwp ?_)).right
  . intro db1 c env hleases hgrants _ lease' hlease'
    rcases (Call.writes_exec env db1 c).mem_leases hlease' with rfl | ⟨old, hold, hid, hworker, hjob, _⟩
    . contradiction
    . have ⟨lease, hlease, hid', hworker', hjob'⟩ := hleases old hold
      exact ⟨lease, hlease, hid'.trans hid, hworker'.trans hworker, hjob'.trans hjob⟩
  . intro lease hlease
    exact ⟨lease, hlease, rfl, rfl, rfl⟩

end AetherGrid
