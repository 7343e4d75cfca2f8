import AetherGrid.Cluster.Concurrent

/-!
This module contains the release of a lease while other requests are served.
-/

namespace AetherGrid

open Prog Pool

namespace Fencing

def fenced : Watched signature DB Env (Option Lease) where
  exec := Call.exec
  note c env db checked :=
    match c with
    | .getLeaseByWorker worker tenant => PostgresLeaseRepository.getByWorkerId db worker tenant
    | .getWorker id tenant =>
      if (PostgresWorkerRepository.getById env db id tenant).isSome then checked else none
    | .getJob id tenant =>
      if (PostgresJobRepository.getById db id tenant).isSome then checked else none
    | .deleteLease _ _ => none
    | _ => checked

def expectedLease (request : Request) : Option LeaseId :=
  match request with
  | .releaseLease _ leaseId _ => some leaseId
  | _ => none

def Releasing (request : Request) (checked : Option Lease) (jobId : JobId) : Prop :=
  ∃ lease ∈ checked, expectedLease request = some lease.id ∧ lease.jobId = jobId

instance (request : Request) (checked : Option Lease) (jobId : JobId)
    : Decidable (Releasing request checked jobId) :=
  inferInstanceAs (Decidable (∃ lease ∈ checked, _))

variable {ι : Type}

def noneSavedMeanwhile (requests : ι → Request) (_ : DB) (checked : ι → Option Lease) (_ : ι)
    (c : Call) : Prop :=
  ∀ lease ∈ c.savedLease, ∀ i, ¬Releasing (requests i) (checked i) lease.jobId

instance [Fintype ι] (requests : ι → Request) (db : DB) (checked : ι → Option Lease) (i : ι) (c : Call)
    : Decidable (noneSavedMeanwhile requests db checked i c) :=
  inferInstanceAs (Decidable (∀ lease ∈ c.savedLease, ∀ _, ¬_))

def releases (request : Request) (checked : Option Lease) (c : Call) : Prop :=
  match request, c with
  | .releaseLease _ _ _, .deleteLease job _ => Releasing request checked job
  | .releaseLease _ _ _, .deleteLeaseIfExpired _ _ => False
  | .releaseLease _ _ _, .deleteNode _ _ => False
  | _, _ => True

theorem wp_releaseLease (workerId : WorkerId) (leaseId : LeaseId) (tenantId : TenantId)
    {H : DB × Env → Prop}
    : wp fenced.view H (releases (.releaseLease workerId leaseId tenantId))
        (releaseLease workerId leaseId tenantId) (fun _ _ => True) none := by
  unfold releaseLease
  apply Watched.wp_view_perform_bind trivial
  intro db env _ answer checked hanswer hchecked
  have hnote : checked = answer := hchecked.symm.trans hanswer
  subst hnote
  cases checked with
  | none => trivial
  | some lease =>
    dsimp only
    split
    . trivial
    . next hid =>
      simp only [not_not] at hid
      have hreleasing : Releasing (.releaseLease workerId leaseId tenantId) (some lease) lease.jobId :=
        ⟨lease, rfl, by rw [hid]; rfl, rfl⟩
      apply Watched.wp_view_perform_bind trivial
      intro db env _ answer checked hanswer hchecked
      cases answer with
      | none => trivial
      | some worker =>
        have hnote : checked = some lease := by
          rw [← hchecked]
          exact if_pos (by rw [show PostgresWorkerRepository.getById env db workerId tenantId
            = some worker from hanswer]; rfl)
        subst hnote
        apply Watched.wp_view_perform_bind trivial
        intro db env _ answer checked hanswer hchecked
        cases answer with
        | none => trivial
        | some job =>
          have hnote : checked = some lease := by
            rw [← hchecked]
            exact if_pos (by rw [show PostgresJobRepository.getById db lease.jobId tenantId
              = some job from hanswer]; rfl)
          subst hnote
          apply Watched.wp_view_perform_bind hreleasing
          intro db env _ _ _ _ _
          exact ⟨trivial, fun _ _ => by rw [wp_ofExcept]; trivial⟩

structure Fenced (requests : ι → Request) (db : DB) (checked : ι → Option Lease) : Prop where
  schema : Schema db
  same : ∀ i jobId, Releasing (requests i) (checked i) jobId →
    ∀ lease ∈ db.leases.rows, lease.jobId = jobId → expectedLease (requests i) = some lease.id

variable {requests : ι → Request} {db : DB} {checked : ι → Option Lease}

theorem Fenced.of_exec (h : Fenced requests db checked) {i : ι} {c : Call} {env : Env}
    (hcall : noneSavedMeanwhile requests db checked i c) {j : ι} {jobId : JobId}
    (hreleasing : Releasing (requests j) (checked j) jobId)
    : ∀ lease ∈ (c.exec env db).2.leases.rows, lease.jobId = jobId →
        expectedLease (requests j) = some lease.id := by
  intro lease hlease hjob
  cases (Call.writes_exec env db c).mem_leases hlease with
  | inl hsaved =>
    subst hsaved
    rw [← hjob] at hreleasing
    exact absurd hreleasing (hcall lease rfl j)
  | inr hold =>
    have ⟨old, hmem, hid, _, hjob', _⟩ := hold
    rw [← hid]
    exact h.same j jobId hreleasing old hmem (hjob'.trans hjob)

variable [DecidableEq ι]

theorem Fenced.step (h : Fenced requests db checked) {i : ι} {c : Call} {env : Env}
    (hcall : noneSavedMeanwhile requests db checked i c)
    : Fenced requests (c.exec env db).2
        (Function.update checked i (fenced.note c env db (checked i))) := by
  refine ⟨h.schema.exec c env, ?_⟩
  intro j jobId hreleasing
  by_cases hj : j = i
  . subst hj
    rw [Function.update_self] at hreleasing
    have hkept : fenced.note c env db (checked j) = checked j →
        ∀ lease ∈ (c.exec env db).2.leases.rows, lease.jobId = jobId →
          expectedLease (requests j) = some lease.id := by
      intro hnote
      rw [hnote] at hreleasing
      exact h.of_exec hcall hreleasing
    have hnone : fenced.note c env db (checked j) = none →
        ∀ lease ∈ (c.exec env db).2.leases.rows, lease.jobId = jobId →
          expectedLease (requests j) = some lease.id := by
      intro hnote
      rw [hnote] at hreleasing
      have ⟨_, hmem, _⟩ := hreleasing
      contradiction
    cases c with
    | getLeaseByWorker worker tenant =>
      have ⟨read, hread, hexpected, hjob⟩ := hreleasing
      intro lease hlease hjob'
      have hmem := (PostgresLeaseRepository.getByWorkerId_eq_some hread).left
      have := h.schema.uniqueJob read hmem lease hlease (hjob.trans hjob'.symm)
      rw [← this]
      exact hexpected
    | getWorker id tenant =>
      by_cases hsome : (PostgresWorkerRepository.getById env db id tenant).isSome
      . exact hkept (if_pos hsome)
      . exact hnone (if_neg hsome)
    | getJob id tenant =>
      by_cases hsome : (PostgresJobRepository.getById db id tenant).isSome
      . exact hkept (if_pos hsome)
      . exact hnone (if_neg hsome)
    | deleteLease job tenant => exact hnone rfl
    | _ => exact hkept rfl
  . rw [Function.update_of_ne hj] at hreleasing
    exact h.of_exec hcall hreleasing

def protocol (requests : ι → Request) : Protocol fenced (noneSavedMeanwhile requests) where
  inv := Fenced requests
  met _ := True
  guard i := releases (requests i)
  hmet _ _ _ _ := trivial
  hstep _ _ _ _ _ h _ hcall := h.step hcall

theorem holds_pending (hschema : Schema db)
    : (protocol requests).Holds (fun _ _ _ => True) (pending requests db none) := by
  refine ⟨⟨hschema, ?_⟩, ?_⟩
  . intro i jobId ⟨_, hmem, _⟩
    contradiction
  . intro i
    dsimp only [pending, protocol]
    cases hrequest : requests i with
    | releaseLease worker lease tenant => exact wp_releaseLease worker lease tenant
    | service call => exact wp_of_forall (fun _ _ => trivial) (fun _ _ => trivial) _ _
    | execution worker renewals result =>
      exact wp_of_forall (fun _ _ => trivial) (fun _ _ => trivial) _ _

theorem release_removes_expected {pool pool' : Pool signature Err Unit DB (Option Lease) ι} {i : ι}
    {workerId : WorkerId} {leaseId : LeaseId} {tenantId : TenantId} (hschema : Schema db)
    (hreaches : Reaches fenced (noneSavedMeanwhile requests) (pending requests db none) pool)
    (hrequest : requests i = .releaseLease workerId leaseId tenantId)
    (hstep : Pool.Step fenced anyTime i pool pool')
    : ∀ lease ∈ pool.state.leases.rows, pool'.state.leases.get? lease.id = none →
        lease.id = leaseId := by
  have hholds := (holds_pending hschema).reaches hreaches
  cases hstep with
  | @call c k env hthread _ =>
    have hguard : releases (requests i) (pool.notes i) c := hholds.guard hthread
    rw [hrequest] at hguard
    intro lease hlease hgone
    rcases (Call.writes_exec env pool.state c).lease_removed hlease hgone with rfl | rfl | ⟨_, _, rfl⟩
    . have hreleasing : Releasing (requests i) (pool.notes i) lease.jobId := by
        rw [hrequest]
        exact hguard
      have := hholds.inv.same i lease.jobId hreleasing lease hlease rfl
      rw [hrequest] at this
      injection this with this
      exact this.symm
    . contradiction
    . contradiction

def retryable : DB :=
  let node := Node.register ⟨0⟩ ⟨4, 4096, 0⟩ ⟨0⟩ none "node" 0
  let job : Job :=
    { id := ⟨1⟩
      resources := ⟨1, 1, 0⟩
      tenantId := ⟨0⟩
      maxRetries := 1
      status := .running
      assignedNodeId := some ⟨0⟩
      submittedAt := 0
      hcpu := Nat.one_pos
      hmemory := Nat.one_pos }
  { DB.empty with
    nodes := DB.empty.nodes.upsert node
    jobs := DB.empty.jobs.upsert job
    workers := DB.empty.workers.upsert ⟨⟨2⟩, ⟨0⟩, ⟨0⟩, .busy, .agent, some ⟨1⟩, 0⟩
    leases := DB.empty.leases.upsert ⟨⟨3⟩, ⟨2⟩, ⟨1⟩, ⟨0⟩, 0, seconds 30⟩
    nextId := 4 }

def parties (i : Fin 3) : Request :=
  match i with
  | 0 => .releaseLease ⟨2⟩ ⟨3⟩ ⟨0⟩
  | 1 => .service .recoverExpiredLeases
  | 2 => .service .schedulerTick

def thirtyOneSeconds : Env :=
  { now := seconds 31 }

def overtaken {ι : Type} (release pass tick : ι) : List (ι × Env) :=
  List.replicate 3 (release, thirtyOneSeconds)
    ++ List.replicate 11 (pass, thirtyOneSeconds)
    ++ List.replicate 14 (tick, thirtyOneSeconds)

theorem release_removes_other
    : Schema retryable
        ∧ ∃ pool pool', Reaches fenced anyTime (pending parties retryable none) pool
          ∧ Pool.Step fenced anyTime 0 pool pool'
          ∧ ∃ lease ∈ pool.state.leases.rows,
            pool'.state.leases.get? lease.id = none ∧ lease.id ≠ ⟨3⟩ := by
  refine ⟨by decide +kernel, ?_⟩
  have ⟨pool, hreaches, hnext⟩ := exists_reaches_of_play
    (W := fenced) (C := anyTime) (pending parties retryable none) (overtaken 0 1 2)
    (fun pool => (next fenced anyTime pool 0 thirtyOneSeconds).any
      (fun pool' => ∃ lease ∈ pool.state.leases.rows,
        pool'.state.leases.get? lease.id = none ∧ lease.id ≠ ⟨3⟩))
    (by decide +kernel)
  rw [Option.any_eq_true] at hnext
  have ⟨pool', hnext, hlease⟩ := hnext
  exact ⟨pool, pool', hreaches, step_of_next hnext, of_decide_eq_true hlease⟩

def undisturbed {ι : Type} (release tick : ι) : List (ι × Env) :=
  List.replicate 2 (tick, thirtyOneSeconds) ++ List.replicate 3 (release, thirtyOneSeconds)

theorem release_removes_expected_undisturbed
    : ∃ pool pool', Reaches fenced (noneSavedMeanwhile parties) (pending parties retryable none) pool
        ∧ Pool.Step fenced anyTime 0 pool pool'
        ∧ (∃ lease ∈ pool.state.leases.rows, pool'.state.leases.get? lease.id = none)
        ∧ ∀ lease ∈ pool.state.leases.rows, pool'.state.leases.get? lease.id = none →
          lease.id = ⟨3⟩ := by
  have ⟨pool, hreaches, hnext⟩ := exists_reaches_of_play
    (W := fenced) (C := noneSavedMeanwhile parties) (pending parties retryable none) (undisturbed 0 2)
    (fun pool => (next fenced anyTime pool 0 thirtyOneSeconds).any
      (fun pool' => ∃ lease ∈ pool.state.leases.rows, pool'.state.leases.get? lease.id = none))
    (by decide +kernel)
  rw [Option.any_eq_true] at hnext
  have ⟨pool', hnext, hlease⟩ := hnext
  have hschema : Schema retryable := by decide +kernel
  exact ⟨pool, pool', hreaches, step_of_next hnext, of_decide_eq_true hlease,
    release_removes_expected hschema hreaches rfl (step_of_next hnext)⟩

end Fencing

end AetherGrid
