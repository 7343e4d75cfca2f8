import AetherGrid.Domain.Lemmas
import AetherGrid.Service.Impl.Lease
import AetherGrid.Store.Reads
import AetherGrid.Store.Rules

/-!
This module contains the rules for the lease services and for `reclaim_job`.
-/

namespace AetherGrid

open Prog

variable {H : Env → Prop} {db : DB} {G : DB → Call → Prop} [Tolerant G]

theorem wp_releaseLease {workerId : WorkerId} {expected : LeaseId} {tenant : TenantId}
    (hschema : Schema db) (hevent : ∀ db job, G db (.saveEvent job tenant .leaseReleased))
    {Q : Except Err Unit → DB → Prop} (herror : ∀ e, Q (.error e) db)
    (hok : ∀ lease events, lease ∈ db.leases.rows → lease.workerId = workerId →
      lease.id = expected → lease.tenantId = tenant →
      let db' :=
        { PostgresLeaseRepository.delete db lease.jobId tenant with
          events := events
          nextId := db.nextId + 1 }
      Schema db' → Q (.ok ()) db')
    : wp postgres H G (releaseLease workerId expected tenant) Q db := by
  unfold releaseLease
  refine wp_perform_bind rfl ?_
  intro env henv
  dsimp only [Call.exec]
  cases hlease : PostgresLeaseRepository.getByWorkerId db workerId tenant with
  | none => exact herror _
  | some lease =>
    have ⟨hmem, hworker, htenant⟩ := PostgresLeaseRepository.getByWorkerId_eq_some hlease
    dsimp only
    split
    . exact herror _
    . next hid =>
      simp only [ne_eq, not_not] at hid
      refine wp_perform_bind rfl ?_
      intro env henv
      dsimp only [Call.exec]
      split
      . exact herror _
      . refine wp_perform_bind rfl ?_
        intro env henv
        dsimp only [Call.exec]
        split
        . exact herror _
        . next job hjob =>
          have ⟨hget, hjobTenant⟩ := PostgresJobRepository.getById_eq_some hjob
          refine wp_perform_bind rfl ?_
          intro env henv
          have hjobId := Table.key_of_get? hget
          apply wp_recordEvent
          . rw [hjobTenant]
            exact hevent _ _
          . rw [hjobId]
            exact hget
          . rfl
          . intro events
            apply hok lease events hmem hworker hid htenant
            exact (hschema.filterLeases _).congr rfl rfl rfl rfl

theorem wp_renewLease {workerId : WorkerId} {expected : LeaseId} {tenant : TenantId}
    {duration : Duration} {Q : Except Err Unit → DB → Prop} (herror : ∀ e, Q (.error e) db)
    (hok : ∀ lease expiresAt, lease ∈ db.leases.rows → lease.id = expected →
      Q (.ok ()) { db with leases := db.leases.upsert { lease with expiresAt := expiresAt } })
    : wp postgres H G (renewLease workerId expected tenant duration) Q db := by
  unfold renewLease
  refine wp_perform_bind rfl ?_
  intro env henv
  dsimp only [Call.exec]
  cases hlease : PostgresLeaseRepository.getByWorkerId db workerId tenant with
  | none => exact herror _
  | some lease =>
    have ⟨hmem, hworker, htenant⟩ := PostgresLeaseRepository.getByWorkerId_eq_some hlease
    dsimp only
    split
    . exact herror _
    . next hid =>
      simp only [ne_eq, not_not] at hid
      refine ⟨Tolerant.plain db _ rfl, ?_⟩
      intro env henv
      have hget : (db.leases.get? lease.id).filter (·.tenantId = tenant) = some lease := by
        rw [db.leases.get?_key_of_mem hmem]
        simpa using htenant
      simp only [Call.exec, PostgresLeaseRepository.renew, hget, wp_ofExcept]
      cases isDatetime (env.now + duration) with
      | true => exact hok lease _ hmem hid
      | false => exact herror _

def Reclaimed (job : Job) (jobs jobs' : Table JobId Job Job.id) : Prop :=
  (job.status.isActive = false ∧ jobs' = jobs)
    ∨ ∃ job' next, job.Moves job' next none ∧ next.isActive = false ∧ jobs' = jobs.upsert job'

theorem Reclaimed.puts {job : Job} {jobs jobs' : Table JobId Job Job.id}
    (h : Reclaimed job jobs jobs') (hjob : jobs.get? job.id = some job)
    : ∃ job', jobs.Puts job' jobs'
        ∧ job'.id = job.id
        ∧ job'.resources = job.resources
        ∧ job'.tenantId = job.tenantId
        ∧ job'.status.isActive = false := by
  cases h with
  | inl h =>
    rw [h.right]
    exact ⟨job, Table.puts_of_get? hjob, rfl, rfl, rfl, h.left⟩
  | inr h =>
    have ⟨job', next, hmoves, hinactive, heq⟩ := h
    rw [heq]
    refine ⟨job', Table.puts_upsert _ _, hmoves.id, hmoves.resources, hmoves.tenantId, ?_⟩
    rw [hmoves.status]
    exact hinactive

def releasedNodes (nodes : Table NodeId Node Node.id) (node : Option Node) (job : Job)
    : Table NodeId Node Node.id :=
  match node with
  | none => nodes
  | some node => nodes.upsert (node.release job.resources)

theorem lawful_reclaim {n : Nat} {db' : DB} {job job' : Job} {now : Time}
    (hjob : db.jobs.get? job.id = some job) (hjobs : db'.jobs = db.jobs) (hnot : ¬Leased db' job.id)
    (hrun : (Job.reclaim now).run job = .ok () job') : lawful n db' (.saveJob job') := by
  have ⟨_, _, hmoves⟩ := Job.reclaim_moves hrun
  apply lawful_saveJob _ hmoves.becomes
  . rw [hmoves.id]
    intro hleased
    exact absurd hleased hnot
  . rw [hmoves.id, hjobs]
    exact hjob

theorem not_leased_delete {db' : DB} {job stored : Job} (hschema : Schema db)
    (hjob : db.jobs.get? job.id = some stored) (hstored : stored.tenantId = job.tenantId)
    (hleases : db'.leases = (PostgresLeaseRepository.delete db job.id job.tenantId).leases)
    : ¬Leased db' job.id := by
  intro ⟨lease, hlease, hid⟩
  rw [hleases, PostgresLeaseRepository.mem_delete] at hlease
  have ⟨hmem, hnot⟩ := hlease
  have ⟨job', hjob', htenant⟩ := hschema.job_of_lease hmem
  rw [hid, hjob] at hjob'
  injection hjob' with hjob'
  apply hnot
  rw [← htenant, ← hjob', hstored]
  exact ⟨hid, rfl⟩

section parts

theorem reclaimJob_delete [Releasing] (job : Job) (node : Option Node)
    : reclaimJob job node false
        =
      LeaseRepository.delete job.id job.tenantId >>= fun _ => reclaimJob job node true := by
  rfl

def Releases [Releasing] (node : Node) (job : Job) : Prop :=
  Releasing.release node job.resources = .ret (node.release job.resources)

theorem releases_of_le [Releasing] {node : Node} {job : Job} (h : node.available + job.resources ≤ node.capacity)
    : Releases node job :=
  Releasing.release_eq node job.resources h

theorem reclaimJob_releases [Releasing] {job : Job} {node : Node} (h : Releases node job)
    : reclaimJob job (some node) true
        =
      NodeRepository.save (node.release job.resources) >>= fun _ => reclaimJob job none true := by
  have hbody : reclaimJob job (some node) true
      = Releasing.release node job.resources >>= fun node =>
        NodeRepository.save node >>= fun _ => reclaimJob job none true := rfl
  rw [hbody, h]
  rfl

theorem reclaimJob_release (job : Job) (node : Node)
    : reclaimJob job (some node) true
        =
      NodeRepository.save (node.release job.resources) >>= fun _ => reclaimJob job none true :=
  reclaimJob_releases rfl

theorem wp_reclaimJob_move [Releasing] {σ η : Type} {M : Machine signature σ η} {H : η → Prop}
    {G : σ → Call → Prop} {s : σ} {job : Job} {Q : Except Err Bool → σ → Prop}
    (hclock : ∀ f : Time → Service Bool, (∀ now, wp M H G (f now) Q s) → wp M H G (utcNow >>= f) Q s)
    (hsaved : ∀ now job', (Job.reclaim now).run job = .ok () job' →
      wp M H G (JobRepository.save job') (fun r s' => Q (r.map fun _ => true) s') s)
    (hleft : job.status.isActive = false → Q (.ok false) s)
    : wp M H G (reclaimJob job none true) Q s := by
  apply hclock
  intro now
  cases hrun : (Job.reclaim now).run job with
  | ok _ job' =>
    have hmap := (wp_map _ _ _ _).mpr (hsaved now job' hrun)
    exact hmap
  | error e job' =>
    obtain ⟨hinactive, message, he⟩ := Job.reclaim_error hrun
    subst he
    exact hleft hinactive

end parts

theorem wp_reclaim [Releasing] {job stored : Job} (hschema : Schema db) (hjob : db.jobs.get? job.id = some stored)
    (htenant : stored.tenantId = job.tenantId) {Q : Except Err Bool → DB → Prop}
    (hguard : ∀ now job', (Job.reclaim now).run job = .ok () job' → G db (.saveJob job'))
    (h : ∀ jobs' reclaimed, Reclaimed job db.jobs jobs' → Schema { db with jobs := jobs' } →
      Q (.ok reclaimed) { db with jobs := jobs' })
    : wp postgres H G (reclaimJob job none true) Q db := by
  apply wp_reclaimJob_move
  . intro f hf
    refine wp_perform_bind rfl ?_
    intro env henv
    exact hf env.now
  . intro now job' hrun
    obtain ⟨next, hnext, hmoves⟩ := Job.reclaim_moves hrun
    have hinactive : next.isActive = false := by
      rcases hnext with rfl | rfl | rfl <;> rfl
    apply wp_saveJob hschema
    . intro other hother
      rw [hmoves.id, hjob] at hother
      injection hother with hother
      rw [← hother, hmoves.tenantId, htenant]
    . unfold PostgresJobRepository.assignedNodeSameTenant
      rw [hmoves.assignedNodeId]
      rfl
    . exact hguard now job' hrun
    . intro hschema'
      exact h _ true (.inr ⟨job', next, hmoves, hinactive, rfl⟩) hschema'
  . intro hinactive
    exact h db.jobs false (.inl ⟨hinactive, rfl⟩) hschema

theorem wp_reclaimJob [Releasing] {job stored : Job} {node : Option Node} {deleted : Bool} (hschema : Schema db)
    (hjob : db.jobs.get? job.id = some stored) (htenant : stored.tenantId = job.tenantId)
    (hnode : ∀ n, node = some n → ∀ n', db.nodes.get? n.id = some n' → n'.tenantId = n.tenantId)
    (hreleases : ∀ n, node = some n → Releases n job)
    (hguard : ∀ db' now job', db'.jobs = db.jobs →
      db'.leases = (if deleted then db else
        PostgresLeaseRepository.delete db job.id job.tenantId).leases →
      (Job.reclaim now).run job = .ok () job' → G db' (.saveJob job'))
    {Q : Except Err Bool → DB → Prop}
    (h : ∀ jobs' reclaimed, Reclaimed job db.jobs jobs' →
      let db' :=
        { (if deleted then db else PostgresLeaseRepository.delete db job.id job.tenantId) with
          nodes := releasedNodes db.nodes node job
          jobs := jobs' }
      Schema db' → Q (.ok reclaimed) db')
    : wp postgres H G (reclaimJob job node deleted) Q db := by
  -- the lease goes first, then the node gets its resources back, then the job moves
  have hnodes : ∀ leases, Schema { db with leases := leases } →
      (∀ db' now job', db'.jobs = db.jobs → db'.leases = leases →
        (Job.reclaim now).run job = .ok () job' → G db' (.saveJob job')) →
      (∀ jobs' reclaimed, Reclaimed job db.jobs jobs' →
        let db' := { db with
          leases := leases
          nodes := releasedNodes db.nodes node job
          jobs := jobs' }
        Schema db' → Q (.ok reclaimed) db') →
      wp postgres H G (reclaimJob job node true) Q { db with leases := leases } := by
    intro leases hleases hguard hQ
    cases node with
    | none => exact wp_reclaim hleases hjob htenant (fun now job' => hguard _ now job' rfl rfl) hQ
    | some node =>
      rw [reclaimJob_releases (hreleases node rfl), wp_bind]
      apply wp_saveNode hleases
      . intro n' hn'
        exact hnode node rfl n' hn'
      . intro hschema'
        exact wp_reclaim hschema' hjob htenant (fun now job' => hguard _ now job' rfl rfl) hQ
  cases deleted with
  | true => exact hnodes db.leases hschema hguard h
  | false =>
    rw [reclaimJob_delete]
    refine wp_perform_bind rfl ?_
    intro env henv
    exact hnodes _ (hschema.exec (.deleteLease job.id job.tenantId) env) hguard h

end AetherGrid
