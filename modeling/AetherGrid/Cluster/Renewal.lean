import AetherGrid.Cluster.Concurrent
import AetherGrid.Store.Reads

/-!
This module contains leases that are renewed while reconciliation looks for the expired ones.
-/

namespace AetherGrid

open Prog Pool

namespace Renewal

inductive Entry where
  | renewed (id : LeaseId) (expiresAt : Time)
  | removed (lease : Lease) (now : Time)
  deriving DecidableEq, Repr

-- a lease that is renewed now expires before the calendar of Python ends
abbrev Instant := { t : Time // isDatetime (t + defaultLeaseDuration) }

structure Ledger where
  db : DB
  clock : Instant
  log : List Entry := []

def Ledger.next (s : Ledger) (env : Env) : Instant :=
  if h : isDatetime (env.now + defaultLeaseDuration) ∧ s.clock ≤ env.now then ⟨env.now, h.left⟩ else s.clock

def Ledger.reading (s : Ledger) (env : Env) : Env :=
  { env with now := s.next env }

def renewals (c : Call) (env : Env) (db : DB) : List Entry :=
  match c with
  | .renewLease id duration tenant =>
    match PostgresLeaseRepository.renew env db id duration tenant with
    | .ok _ => [.renewed id (env.now + duration)]
    | .error _ => []
  | _ => []

def removals (c : Call) (env : Env) (db : DB) : List Entry :=
  (db.leases.rows.filter (fun lease => ((c.exec env db).2.leases.get? lease.id).isNone)).map
    (.removed · env.now)

structure Note where
  seen : List (WorkerId × JobId) := []
  unleased : List JobId := []
  renewed : Option LeaseId := none

def Note.unlease (n : Note) (db : DB) (jobId : JobId) : Note :=
  if Leased db jobId then n else { n with unleased := jobId :: n.unleased }

def ledgered : Watched signature Ledger Env Note where
  exec c env s :=
    ((c.exec (s.reading env) s.db).1,
      { db := (c.exec (s.reading env) s.db).2
        clock := s.next env
        log := removals c (s.reading env) s.db ++ renewals c (s.reading env) s.db ++ s.log })
  note c env s n :=
    match c with
    | .listWorkers =>
      { n with
        seen := s.db.workers.rows.filterMap (fun row => row.runningJobId.map (row.id, ·)) ++ n.seen }
    | .listLeases =>
      { n with seen := s.db.leases.rows.map (fun lease => (lease.workerId, lease.jobId)) ++ n.seen }
    | .getLeaseByJob job _ => n.unlease s.db job
    | .deleteLeaseIfExpired job tenant =>
      n.unlease (PostgresLeaseRepository.deleteIfExpired (s.reading env) s.db job tenant).2 job
    | .renewLease id duration tenant =>
      { n with
        renewed :=
          match PostgresLeaseRepository.renew (s.reading env) s.db id duration tenant with
          | .ok _ => some id
          | .error _ => n.renewed }
    | _ => n

def takesPart (request : Request) : Bool :=
  match request with
  | .service .recoverExpiredLeases => true
  | .service .recoverOfflineNodes => true
  | .service (.renewLease _ _ _ duration) => duration = defaultLeaseDuration
  | _ => false

def expectedLease (request : Request) : Option LeaseId :=
  match request with
  | .service (.renewLease _ lease _ _) => some lease
  | _ => none

section store

structure Harmless (db : DB) (c : Call) : Prop where
  savedLease : c.savedLease = none
  node : ∀ id tenant, c ≠ .deleteNode id tenant
  worker : ∀ worker, c = .saveWorker worker →
    worker.runningJob = none ∧ ∀ lease ∈ db.leases.rows, lease.workerId ≠ worker.id
  job : ∀ job, c = .saveJob job → ¬Leased db job.id
  removed : ∀ job tenant, c = .deleteLease job tenant → ¬Leased db job
  renewed : ∀ id duration tenant, c = .renewLease id duration tenant → duration = defaultLeaseDuration

variable {db : DB} {c : Call} {env : Env} {lease : Lease}

theorem exec_renewLease_leases (env : Env) (db : DB) (id : LeaseId) (duration : Duration)
    (tenant : TenantId)
    : (((Call.renewLease id duration tenant).exec env db).2 = db
          ∧ renewals (.renewLease id duration tenant) env db = [])
        ∨ ∃ old ∈ db.leases.rows, old.id = id
          ∧ ((Call.renewLease id duration tenant).exec env db).2
              = { db with leases := db.leases.upsert { old with expiresAt := env.now + duration } }
          ∧ renewals (.renewLease id duration tenant) env db = [.renewed id (env.now + duration)] := by
  dsimp only [Call.exec, renewals]
  cases hrenew : PostgresLeaseRepository.renew env db id duration tenant with
  | error e => exact .inl ⟨rfl, rfl⟩
  | ok db' =>
    obtain ⟨old, hold, hid, rfl⟩ := PostgresLeaseRepository.renew_eq_ok hrenew
    exact .inr ⟨old, hold, hid, rfl, rfl⟩

theorem Harmless.mem_leases (h : Harmless db c) (hlease : lease ∈ (c.exec env db).2.leases.rows)
    : lease ∈ db.leases.rows
        ∨ ∃ old ∈ db.leases.rows, ∃ tenant, c = .renewLease old.id defaultLeaseDuration tenant
          ∧ lease = { old with expiresAt := env.now + defaultLeaseDuration } := by
  by_cases hrenewal : ∃ id duration tenant, c = .renewLease id duration tenant
  . obtain ⟨id, duration, tenant, rfl⟩ := hrenewal
    have hduration := h.renewed id duration tenant rfl
    subst hduration
    rcases exec_renewLease_leases env db id defaultLeaseDuration tenant with
      ⟨heq, _⟩ | ⟨old, hold, rfl, heq, _⟩
    . rw [heq] at hlease
      exact .inl hlease
    . rw [heq] at hlease
      rcases (Table.mem_upsert _ _ _).mp hlease with hnew | ⟨hmem, _⟩
      . exact .inr ⟨old, hold, tenant, rfl, hnew⟩
      . exact .inl hmem
  . left
    have hwrites := Call.writes_exec env db c
    generalize (c.exec env db).2 = db' at *
    cases hwrites with
    | renewal id duration tenant => exact absurd ⟨id, duration, tenant, rfl⟩ hrenewal
    | lease saved =>
      have := h.savedLease
      contradiction
    | nodeGone id tenant => exact absurd rfl (h.node id tenant)
    | leaseGone job tenant => exact List.mem_of_mem_filter hlease
    | expiredLeaseGone job tenant => exact List.mem_of_mem_filter hlease
    | _ => exact hlease

theorem Harmless.exists_lease (h : Harmless db c) (hlease : lease ∈ (c.exec env db).2.leases.rows)
    : ∃ old ∈ db.leases.rows, old.id = lease.id
        ∧ old.workerId = lease.workerId
        ∧ old.jobId = lease.jobId
        ∧ old.tenantId = lease.tenantId := by
  rcases h.mem_leases hlease with hmem | ⟨old, hold, tenant, _, rfl⟩
  . exact ⟨lease, hmem, rfl, rfl, rfl, rfl⟩
  . exact ⟨old, hold, rfl, rfl, rfl, rfl⟩

theorem Harmless.not_leased (h : Harmless db c) {jobId : JobId} (hfree : ¬Leased db jobId)
    : ¬Leased (c.exec env db).2 jobId := by
  rintro ⟨lease, hlease, hjob⟩
  have ⟨old, hold, _, _, holdJob, _⟩ := h.exists_lease hlease
  exact hfree ⟨old, hold, holdJob.trans hjob⟩

theorem Harmless.expired (h : Harmless db c) (hlease : lease ∈ db.leases.rows)
    (hgone : (c.exec env db).2.leases.get? lease.id = none) : lease.expiresAt < env.now := by
  rcases (Call.writes_exec env db c).lease_removed hlease hgone with rfl | rfl | ⟨id, tenant, rfl⟩
  . exact absurd ⟨lease, hlease, rfl⟩ (h.removed _ _ rfl)
  . by_contra halive
    have hstays : lease ∈ ((Call.deleteLeaseIfExpired lease.jobId lease.tenantId).exec env db).2.leases.rows :=
      PostgresLeaseRepository.mem_deleteIfExpired.mpr ⟨hlease, fun hexpired => halive hexpired.right.right⟩
    have hget := Table.get?_key_of_mem _ hstays
    rw [hgone] at hget
    contradiction
  . exact absurd rfl (h.node id tenant)

theorem Harmless.get?_job (h : Harmless db c) {jobId : JobId} (hleased : Leased db jobId)
    : (c.exec env db).2.jobs.get? jobId = db.jobs.get? jobId := by
  have hwrites := Call.writes_exec env db c
  generalize (c.exec env db).2 = db' at *
  cases hwrites with
  | job job =>
    apply Table.get?_upsert_of_ne
    intro heq
    rw [← heq] at hleased
    exact h.job job rfl hleased
  | nodeGone id tenant => exact absurd rfl (h.node id tenant)
  | _ => rfl

theorem Harmless.get?_worker (h : Harmless db c) (hlease : lease ∈ db.leases.rows)
    : (c.exec env db).2.workers.get? lease.workerId = db.workers.get? lease.workerId := by
  have hwrites := Call.writes_exec env db c
  generalize (c.exec env db).2 = db' at *
  cases hwrites with
  | worker worker =>
    apply Table.get?_upsert_of_ne
    intro heq
    exact (h.worker worker rfl).right lease hlease heq.symm
  | nodeGone id tenant => exact absurd rfl (h.node id tenant)
  | _ => rfl

theorem Harmless.mem_workers (h : Harmless db c) {row : WorkerRow}
    (hrow : row ∈ (c.exec env db).2.workers.rows) : row ∈ db.workers.rows ∨ row.runningJobId = none := by
  have hwrites := Call.writes_exec env db c
  generalize (c.exec env db).2 = db' at *
  cases hwrites with
  | worker worker =>
    rcases (Table.mem_upsert _ _ _).mp hrow with rfl | ⟨hmem, _⟩
    . right
      unfold Worker.toRow
      rw [(h.worker worker rfl).left]
      rfl
    . exact .inl hmem
  | nodeGone id tenant => exact absurd rfl (h.node id tenant)
  | _ => exact .inl hrow

theorem Harmless.keepsTenants (h : Harmless db c)
    : KeepsTenants Job.tenantId db.jobs (c.exec env db).2.jobs := by
  have hwrites := Call.writes_exec env db c
  generalize (c.exec env db).2 = db' at *
  cases hwrites with
  | job job htenant => exact .upsert htenant
  | nodeGone id tenant => exact absurd rfl (h.node id tenant)
  | _ => exact .refl _

end store

def Entry.Respects (newer older : Entry) : Prop :=
  match newer, older with
  | .removed lease now, .renewed id expiresAt => lease.id = id → expiresAt < now
  | _, _ => True

structure Sound (origin : DB) (s : Ledger) : Prop where
  schema : Schema s.db
  tenants : KeepsTenants Job.tenantId origin.jobs s.db.jobs
  lease : ∀ lease ∈ s.db.leases.rows, ∃ old ∈ origin.leases.rows, old.id = lease.id
    ∧ old.workerId = lease.workerId
    ∧ old.jobId = lease.jobId
    ∧ old.tenantId = lease.tenantId
  job : ∀ lease ∈ s.db.leases.rows, s.db.jobs.get? lease.jobId = origin.jobs.get? lease.jobId
  worker : ∀ lease ∈ s.db.leases.rows,
    s.db.workers.get? lease.workerId = origin.workers.get? lease.workerId
  running : ∀ row ∈ s.db.workers.rows, ∀ jobId, row.runningJobId = some jobId →
    ∃ old, origin.workers.get? row.id = some old ∧ old.runningJobId = some jobId
  gone : ∀ lease ∈ origin.leases.rows, (∃ stored ∈ s.db.leases.rows, stored.id = lease.id)
    ∨ ∃ last now, .removed last now ∈ s.log ∧ last.id = lease.id
  expired : ∀ lease now, .removed lease now ∈ s.log → lease.expiresAt < now
  ordered : s.log.Pairwise Entry.Respects
  renewed : ∀ id expiresAt, .renewed id expiresAt ∈ s.log →
    expiresAt ≤ s.clock.val + defaultLeaseDuration
      ∧ ∀ lease ∈ s.db.leases.rows, lease.id = id → expiresAt ≤ lease.expiresAt

section step

variable {origin : DB} {s : Ledger} {c : Call} {env : Env}

theorem mem_removals {db : DB} {entry : Entry} (h : entry ∈ removals c env db)
    : ∃ lease ∈ db.leases.rows, (c.exec env db).2.leases.get? lease.id = none
        ∧ entry = .removed lease env.now := by
  have ⟨lease, hlease, heq⟩ := List.mem_map.mp h
  have ⟨hmem, hgone⟩ := List.mem_filter.mp hlease
  exact ⟨lease, hmem, Option.isNone_iff_eq_none.mp hgone, heq.symm⟩

theorem mem_renewals {db : DB} {entry : Entry} (h : entry ∈ renewals c env db)
    : ∃ id duration tenant, c = .renewLease id duration tenant
        ∧ entry = .renewed id (env.now + duration)
        ∧ ∃ old ∈ db.leases.rows, old.id = id
          ∧ (c.exec env db).2
              = { db with leases := db.leases.upsert { old with expiresAt := env.now + duration } } := by
  cases c with
  | renewLease id duration tenant =>
    rcases exec_renewLease_leases env db id duration tenant with
      ⟨_, hnone⟩ | ⟨old, hold, hid, heq, hsome⟩
    . rw [hnone] at h
      contradiction
    . rw [hsome] at h
      exact ⟨id, duration, tenant, rfl, List.mem_singleton.mp h, old, hold, hid, heq⟩
  | _ => contradiction

theorem Ledger.clock_le_reading (s : Ledger) (env : Env) : s.clock.val ≤ (s.reading env).now := by
  dsimp only [Ledger.reading, Ledger.next]
  split
  . next h => exact h.right
  . exact Int.le_refl _

theorem Sound.le_expiresAt (h : Sound origin s) (hc : Harmless s.db c) {id : LeaseId}
    {expiresAt : Time} (hentry : .renewed id expiresAt ∈ s.log) {lease : Lease}
    (hlease : lease ∈ (c.exec (s.reading env) s.db).2.leases.rows) (hid : lease.id = id)
    : expiresAt ≤ lease.expiresAt := by
  have ⟨hclock, hstored⟩ := h.renewed id expiresAt hentry
  rcases hc.mem_leases hlease with hmem | ⟨old, hold, tenant, _, rfl⟩
  . exact hstored lease hmem hid
  . exact Int.le_trans hclock (Int.add_le_add_right (s.clock_le_reading env) _)

theorem Sound.log_expired (h : Sound origin s) (hc : Harmless s.db c) {lease : Lease} {now : Time}
    (hentry : .removed lease now ∈ (ledgered.exec c env s).2.log) : lease.expiresAt < now := by
  rcases List.mem_append.mp hentry with hnew | hold
  . rcases List.mem_append.mp hnew with hremoved | hrenewed
    . have ⟨lease', hlease', hgone, heq⟩ := mem_removals hremoved
      injection heq with heq hnow
      subst heq hnow
      exact hc.expired hlease' hgone
    . have ⟨_, _, _, _, heq, _⟩ := mem_renewals hrenewed
      contradiction
  . exact h.expired lease now hold

theorem Sound.log_ordered (h : Sound origin s) (hc : Harmless s.db c)
    : (ledgered.exec c env s).2.log.Pairwise Entry.Respects := by
  have hremovals : (removals c (s.reading env) s.db).Pairwise Entry.Respects := by
    rw [List.pairwise_iff_forall_sublist]
    intro newer older hsublist
    have hmem : older ∈ removals c (s.reading env) s.db := hsublist.subset (by simp)
    have ⟨_, _, _, heq⟩ := mem_removals hmem
    rw [heq]
    cases newer <;> trivial
  have hrenewals : (renewals c (s.reading env) s.db).Pairwise Entry.Respects := by
    rw [List.pairwise_iff_forall_sublist]
    intro newer older hsublist
    have hmem : newer ∈ renewals c (s.reading env) s.db := hsublist.subset (by simp)
    have ⟨_, _, _, _, heq, _⟩ := mem_renewals hmem
    rw [heq]
    trivial
  dsimp only [ledgered]
  rw [List.pairwise_append, List.pairwise_append]
  refine ⟨⟨hremovals, hrenewals, ?_⟩, h.ordered, ?_⟩
  . -- a renewal removes nothing
    intro newer hnewer older holder
    have ⟨lease, hlease, hgone, _⟩ := mem_removals hnewer
    obtain ⟨_, _, _, rfl, _⟩ := mem_renewals holder
    rcases (Call.writes_exec _ _ _).lease_removed hlease hgone with heq | heq | ⟨_, _, heq⟩
    all_goals contradiction
  . intro newer hnewer older holder
    rcases List.mem_append.mp hnewer with hremoved | hrenewed
    . have ⟨lease, hlease, hgone, heq⟩ := mem_removals hremoved
      rw [heq]
      cases older with
      | removed _ _ => trivial
      | renewed id expiresAt =>
        intro hid
        have hle := (h.renewed id expiresAt holder).right lease hlease hid
        exact Int.lt_of_le_of_lt hle (hc.expired hlease hgone)
    . have ⟨_, _, _, _, heq, _⟩ := mem_renewals hrenewed
      rw [heq]
      trivial

theorem Sound.log_renewed (h : Sound origin s) (hc : Harmless s.db c) {id : LeaseId} {expiresAt : Time}
    (hentry : .renewed id expiresAt ∈ (ledgered.exec c env s).2.log)
    : expiresAt ≤ (ledgered.exec c env s).2.clock.val + defaultLeaseDuration
        ∧ ∀ lease ∈ (ledgered.exec c env s).2.db.leases.rows, lease.id = id → expiresAt ≤ lease.expiresAt := by
  rcases List.mem_append.mp hentry with hnew | hold
  . rcases List.mem_append.mp hnew with hremoved | hrenewed
    . have ⟨_, _, _, heq⟩ := mem_removals hremoved
      contradiction
    . have ⟨id', duration, tenant, hcall, heq, old, hold, hid, hexec⟩ := mem_renewals hrenewed
      injection heq with heq hexpires
      subst heq hexpires
      have hduration := hc.renewed id duration tenant hcall
      refine ⟨?_, ?_⟩
      . rw [hduration]
        exact Int.le_refl _
      . intro lease hlease hlid
        dsimp only [ledgered] at hlease
        rw [hexec] at hlease
        rcases (Table.mem_upsert _ _ _).mp hlease with rfl | ⟨_, hne⟩
        . exact Int.le_refl _
        . exact absurd (hlid.trans hid.symm) hne
  . have ⟨hclock, _⟩ := h.renewed id expiresAt hold
    refine ⟨?_, fun lease hlease hid => h.le_expiresAt hc hold hlease hid⟩
    exact Int.le_trans hclock (Int.add_le_add_right (s.clock_le_reading env) _)

theorem Sound.exec (h : Sound origin s) (hc : Harmless s.db c)
    : Sound origin (ledgered.exec c env s).2 where
  schema := h.schema.exec c (s.reading env)
  tenants k job hjob := by
    have ⟨job', hjob', htenant⟩ := h.tenants k job hjob
    have hkeeps : KeepsTenants Job.tenantId s.db.jobs (c.exec (s.reading env) s.db).2.jobs :=
      hc.keepsTenants
    have ⟨job'', hjob'', htenant'⟩ := hkeeps k job' hjob'
    exact ⟨job'', hjob'', htenant'.trans htenant⟩
  lease lease hlease := by
    have ⟨old, hold, hid, hworker, hjob, htenant⟩ := hc.exists_lease hlease
    have ⟨older, holder, hid', hworker', hjob', htenant'⟩ := h.lease old hold
    exact ⟨older, holder, hid'.trans hid, hworker'.trans hworker, hjob'.trans hjob,
      htenant'.trans htenant⟩
  job lease hlease := by
    have ⟨old, hold, _, _, hjob, _⟩ := hc.exists_lease hlease
    rw [← hjob, ← h.job old hold]
    exact hc.get?_job ⟨old, hold, rfl⟩
  worker lease hlease := by
    have ⟨old, hold, _, hworker, _⟩ := hc.exists_lease hlease
    rw [← hworker, ← h.worker old hold]
    exact hc.get?_worker hold
  running row hrow jobId hrunning := by
    rcases hc.mem_workers hrow with hmem | hnone
    . exact h.running row hmem jobId hrunning
    . rw [hrunning] at hnone
      contradiction
  gone lease hlease := by
    rcases h.gone lease hlease with ⟨stored, hstored, hid⟩ | ⟨last, now, hentry, hid⟩
    . cases hget : (c.exec (s.reading env) s.db).2.leases.get? stored.id with
      | some stored' => exact .inl ⟨stored', Table.mem_of_get? hget, (Table.key_of_get? hget).trans hid⟩
      | none =>
        refine .inr ⟨stored, (s.reading env).now, ?_, hid⟩
        apply List.mem_append_left
        apply List.mem_append_left
        apply List.mem_map_of_mem
        exact List.mem_filter.mpr ⟨hstored, Option.isNone_iff_eq_none.mpr hget⟩
    . exact .inr ⟨last, now, List.mem_append_right _ hentry, hid⟩
  expired _ _ hentry := h.log_expired hc hentry
  ordered := h.log_ordered hc
  renewed _ _ hentry := h.log_renewed hc hentry

end step

def keeps (request : Request) (n : Note) (c : Call) : Prop :=
  ((expectedLease request).isSome → n.renewed = none)
    ∧ match c with
      | .saveWorker worker =>
        expectedLease request = none
          ∧ worker.runningJob = none
          ∧ ∃ jobId ∈ n.unleased, (worker.id, jobId) ∈ n.seen
      | .saveJob job => expectedLease request = none ∧ job.id ∈ n.unleased
      | .deleteLease job _ => expectedLease request = none ∧ job ∈ n.unleased
      | .saveNode _ | .saveEvent _ _ _ | .deleteLeaseIfExpired _ _ => expectedLease request = none
      | .renewLease id duration _ => expectedLease request = some id ∧ duration = defaultLeaseDuration
      | .uuid4 | .saveLease _ | .deleteNode _ _ => False
      | _ => True

variable {ι : Type}

structure Excludes (origin : DB) (s : Ledger) (notes : ι → Note) : Prop where
  sound : Sound origin s
  seen : ∀ i, ∀ entry ∈ (notes i).seen,
    ∃ row, origin.workers.get? entry.1 = some row ∧ row.runningJobId = some entry.2
  unleased : ∀ i, ∀ jobId ∈ (notes i).unleased, ¬Leased s.db jobId
  renewed : ∀ i id, (notes i).renewed = some id → ∃ expiresAt, .renewed id expiresAt ∈ s.log

section protocol

variable {origin : DB} {s : Ledger} {notes : ι → Note} {request : Request} {c : Call} {env : Env}
variable {n : Note}

theorem Sound.running_of_lease (h : Sound origin s) (hinv : Inv origin) {lease : Lease}
    (hlease : lease ∈ s.db.leases.rows)
    : ∃ row, origin.workers.get? lease.workerId = some row ∧ row.runningJobId = some lease.jobId := by
  have ⟨old, hold, _, hworker, hjob, _⟩ := h.lease lease hlease
  have ⟨row, job, hheld⟩ := hinv.held old hold
  rw [← hworker, ← hjob]
  exact ⟨row, hheld.hrow, hheld.running⟩

theorem Excludes.harmless (h : Excludes origin s notes) (hinv : Inv origin) {i : ι}
    (hguard : keeps request (notes i) c) : Harmless s.db c := by
  have ⟨_, hguard⟩ := hguard
  refine ⟨?_, ?_, ?_, ?_, ?_, ?_⟩
  . cases c with
    | saveLease lease => exact hguard.elim
    | _ => rfl
  . rintro id tenant rfl
    exact hguard
  . rintro worker rfl
    have ⟨_, hrunning, jobId, hunleased, hseen⟩ := hguard
    refine ⟨hrunning, ?_⟩
    intro lease hlease hworker
    have ⟨row, hrow, hjob⟩ := h.seen i _ hseen
    have ⟨row', hrow', hjob'⟩ := h.sound.running_of_lease hinv hlease
    rw [hworker, hrow] at hrow'
    injection hrow' with hrow'
    rw [← hrow', hjob] at hjob'
    injection hjob' with hjob'
    exact h.unleased i jobId hunleased ⟨lease, hlease, hjob'.symm⟩
  . rintro job rfl
    exact h.unleased i _ hguard.right
  . rintro job tenant rfl
    exact h.unleased i _ hguard.right
  . rintro id duration tenant rfl
    exact hguard.right

theorem mem_unlease {db : DB} {jobId jobId' : JobId} (h : jobId' ∈ (n.unlease db jobId).unleased)
    : jobId' ∈ n.unleased ∨ ¬Leased db jobId' := by
  unfold Note.unlease at h
  split at h
  . exact .inl h
  . next hfree =>
    rcases List.mem_cons.mp h with rfl | hmem
    . exact .inr hfree
    . exact .inl hmem

theorem seen_unlease (n : Note) (db : DB) (jobId : JobId) : (n.unlease db jobId).seen = n.seen := by
  unfold Note.unlease
  split <;> rfl

theorem unleased_unlease {db : DB} {jobId : JobId} (h : ¬Leased db jobId)
    : jobId ∈ (n.unlease db jobId).unleased := by
  unfold Note.unlease
  rw [if_neg h]
  exact List.mem_cons_self

theorem mem_unleased_note {jobId : JobId} (h : jobId ∈ (ledgered.note c env s n).unleased)
    : jobId ∈ n.unleased
        ∨ ¬Leased s.db jobId
        ∨ ¬Leased (c.exec (s.reading env) s.db).2 jobId := by
  cases c with
  | getLeaseByJob job tenant => exact (mem_unlease h).imp id .inl
  | deleteLeaseIfExpired job tenant => exact (mem_unlease h).imp id .inr
  | _ => exact .inl h

theorem mem_renewed_note {id : LeaseId} (h : (ledgered.note c env s n).renewed = some id)
    : n.renewed = some id ∨ ∃ expiresAt, .renewed id expiresAt ∈ (ledgered.exec c env s).2.log := by
  have hunlease : ∀ db jobId, (n.unlease db jobId).renewed = n.renewed := by
    intro db jobId
    unfold Note.unlease
    split <;> rfl
  cases c with
  | renewLease id' duration tenant =>
    dsimp only [ledgered] at h
    cases hrenew : PostgresLeaseRepository.renew (s.reading env) s.db id' duration tenant with
    | ok db' =>
      rw [hrenew] at h
      injection h with h
      subst h
      refine .inr ⟨(s.reading env).now + duration, ?_⟩
      apply List.mem_append_left
      apply List.mem_append_right
      simp [renewals, hrenew]
    | error e =>
      rw [hrenew] at h
      exact .inl h
  | getLeaseByJob job tenant => exact .inl ((hunlease _ _).symm.trans h)
  | deleteLeaseIfExpired job tenant => exact .inl ((hunlease _ _).symm.trans h)
  | _ => exact .inl h

theorem mem_seen_note {entry : WorkerId × JobId} (h : entry ∈ (ledgered.note c env s n).seen)
    : entry ∈ n.seen
        ∨ (∃ row ∈ s.db.workers.rows, row.id = entry.1 ∧ row.runningJobId = some entry.2)
        ∨ ∃ lease ∈ s.db.leases.rows, lease.workerId = entry.1 ∧ lease.jobId = entry.2 := by
  cases c with
  | listWorkers =>
    rcases List.mem_append.mp h with hnew | hold
    . have ⟨row, hrow, hpair⟩ := List.mem_filterMap.mp hnew
      rw [Option.map_eq_some_iff] at hpair
      obtain ⟨jobId, hjob, rfl⟩ := hpair
      exact .inr (.inl ⟨row, hrow, rfl, hjob⟩)
    . exact .inl hold
  | listLeases =>
    rcases List.mem_append.mp h with hnew | hold
    . obtain ⟨lease, hlease, rfl⟩ := List.mem_map.mp hnew
      exact .inr (.inr ⟨lease, hlease, rfl, rfl⟩)
    . exact .inl hold
  | getLeaseByJob job tenant =>
    dsimp only [ledgered] at h
    rw [seen_unlease] at h
    exact .inl h
  | deleteLeaseIfExpired job tenant =>
    dsimp only [ledgered] at h
    rw [seen_unlease] at h
    exact .inl h
  | _ => exact .inl h

variable [DecidableEq ι]

theorem Excludes.step (h : Excludes origin s notes) (hinv : Inv origin) {i : ι}
    (hguard : keeps request (notes i) c)
    : Excludes origin (ledgered.exec c env s).2
        (Function.update notes i (ledgered.note c env s (notes i))) := by
  have hc := h.harmless hinv hguard
  refine ⟨h.sound.exec hc, ?_, ?_, ?_⟩
  . intro j entry hentry
    by_cases hj : j = i
    . subst hj
      rw [Function.update_self] at hentry
      rcases mem_seen_note hentry with hold | ⟨row, hrow, hid, hrunning⟩ | ⟨lease, hlease, hworker, hjob⟩
      . exact h.seen j entry hold
      . rw [← hid]
        exact h.sound.running row hrow entry.2 hrunning
      . rw [← hworker, ← hjob]
        exact h.sound.running_of_lease hinv hlease
    . rw [Function.update_of_ne hj] at hentry
      exact h.seen j entry hentry
  . intro j jobId hjobId
    by_cases hj : j = i
    . subst hj
      rw [Function.update_self] at hjobId
      rcases mem_unleased_note hjobId with hold | hbefore | hafter
      . exact hc.not_leased (h.unleased j jobId hold)
      . exact hc.not_leased hbefore
      . exact hafter
    . rw [Function.update_of_ne hj] at hjobId
      exact hc.not_leased (h.unleased j jobId hjobId)
  . intro j id hrenewed
    have hlog : ∀ expiresAt, .renewed id expiresAt ∈ s.log →
        .renewed id expiresAt ∈ (ledgered.exec c env s).2.log :=
      fun _ hentry => List.mem_append_right _ hentry
    by_cases hj : j = i
    . subst hj
      rw [Function.update_self] at hrenewed
      rcases mem_renewed_note hrenewed with hold | hnew
      . have ⟨expiresAt, hentry⟩ := h.renewed j id hold
        exact ⟨expiresAt, hlog expiresAt hentry⟩
      . exact hnew
    . rw [Function.update_of_ne hj] at hrenewed
      have ⟨expiresAt, hentry⟩ := h.renewed j id hrenewed
      exact ⟨expiresAt, hlog expiresAt hentry⟩

def protocol (requests : ι → Request) (hinv : Inv origin) : Protocol ledgered (anyTime (ι := ι)) where
  inv := Excludes origin
  met x := Sound origin x.1
  guard i := keeps (requests i)
  hmet _ _ _ h := h.sound
  hstep _ _ _ _ _ h hguard _ := h.step hinv hguard

end protocol

section programs

variable {origin : DB} {request : Request} {n : Note} {jobId : JobId} {tenantId : TenantId}

abbrev met (origin : DB) (x : Ledger × Env) : Prop :=
  Sound origin x.1

theorem keeps_read {c : Call} (hpass : expectedLease request = none) (hread : c.isRead)
    : keeps request n c := by
  refine ⟨?_, ?_⟩
  . rw [hpass]
    intro h
    contradiction
  . cases c <;> trivial

theorem wp_renewLease (worker : WorkerId) (lease : LeaseId) (tenant : TenantId)
    (hrequest : expectedLease request = some lease) (hn : n.renewed = none)
    : wp ledgered.view (met origin) (keeps request) (renewLease worker lease tenant)
        (fun r n' =>
          match r with
          | .ok _ => n'.renewed = some lease
          | .error e => e = .noActiveLease worker ∨ e = .leaseNotFound lease) n := by
  unfold renewLease
  apply Watched.wp_view_read ⟨fun _ => hn, trivial⟩ (fun _ _ => rfl)
  intro s env hmet answer hanswer
  cases answer with
  | none => exact .inl rfl
  | some found =>
    dsimp only
    split
    . exact .inr rfl
    . next hid =>
      rw [not_not] at hid
      refine ⟨⟨fun _ => hn, hrequest.trans (congrArg some hid.symm), rfl⟩, ?_⟩
      intro x _
      rw [wp_ofExcept]
      have hexec : ledgered.view.exec (.renewLease found.id defaultLeaseDuration tenant) x n
          = ((commit x.1.db (PostgresLeaseRepository.renew (x.1.reading x.2) x.1.db found.id
            defaultLeaseDuration tenant)).1,
            { n with
              renewed :=
                match PostgresLeaseRepository.renew (x.1.reading x.2) x.1.db found.id defaultLeaseDuration
                  tenant with
                | .ok _ => some found.id
                | .error _ => n.renewed }) := rfl
      rw [hexec]
      -- the clock leaves room for the new expiry, so the statement is sent
      have hrange : isDatetime ((x.1.reading x.2).now + defaultLeaseDuration) = true := (x.1.next x.2).property
      unfold PostgresLeaseRepository.renew
      rw [if_pos hrange, hid]
      cases (x.1.db.leases.get? lease).filter (·.tenantId = tenant) with
      | none => exact .inr rfl
      | some stored => rfl

variable (hpass : expectedLease request = none)

include hpass

theorem wp_deleteIfExpired {α : Type} {f : Bool → Service α} {Q : Except Err α → Note → Prop}
    (hkept : ∀ n', wp ledgered.view (met origin) (keeps request) (f false) Q n')
    (hremoved : ∀ n', n'.seen = n.seen → jobId ∈ n'.unleased →
      wp ledgered.view (met origin) (keeps request) (f true) Q n')
    : wp ledgered.view (met origin) (keeps request)
        (LeaseRepository.deleteIfExpired jobId tenantId >>= f) Q n := by
  refine Watched.wp_view_perform_bind ⟨(keeps_read (c := .utcNow) hpass rfl).left, hpass⟩ ?_
  intro s env hmet answer n' hanswer hn'
  cases answer with
  | false => exact hkept n'
  | true =>
    have ⟨lease, hlease, hjob, htenant, hexpired⟩ :=
      PostgresLeaseRepository.deleteIfExpired_eq_true_iff.mp hanswer
    have hfree : ¬Leased
        (PostgresLeaseRepository.deleteIfExpired (s.reading env) s.db jobId tenantId).2 jobId := by
      rintro ⟨other, hother, hotherJob⟩
      have ⟨hmem, hstays⟩ := PostgresLeaseRepository.mem_deleteIfExpired.mp hother
      have heq := hmet.schema.uniqueJob other hmem lease hlease (hotherJob.trans hjob.symm)
      rw [heq] at hstays
      exact hstays ⟨hjob, htenant, hexpired⟩
    rw [← hn']
    apply hremoved
    . exact seen_unlease _ _ _
    . exact unleased_unlease hfree

theorem wp_reclaimRecord {job : Job} {node : Option Node} {leaseAlreadyDeleted : Bool} {type : EventType}
    (hjob : job.id ∈ n.unleased)
    : wp ledgered.view (met origin) (keeps request)
        (do
          let reclaimed ← reclaimJob job node leaseAlreadyDeleted
          if reclaimed then
            RecordJobEventsService.recordForJob job type) (fun _ _ => True) n := by
  have hblank : ∀ n : Note, (expectedLease request).isSome → n.renewed = none := by
    intro n
    rw [hpass]
    intro h
    contradiction
  rw [wp_bind]
  apply view_reclaimJob (fun n => job.id ∈ n.unleased) (fun n => job.id ∈ n.unleased)
  . exact fun _ => hjob
  . intro _
    exact ⟨⟨hblank n, hpass, hjob⟩, fun _ _ => hjob⟩
  . exact fun _ h => h
  . intro n node h
    exact ⟨⟨hblank n, hpass⟩, fun _ _ => h⟩
  . intro n
    exact keeps_read hpass rfl
  . exact fun _ _ _ => rfl
  . intro n now job' h hrun
    have ⟨next, _, hmoves⟩ := Job.reclaim_moves hrun
    refine ⟨⟨hblank n, hpass, ?_⟩, ?_⟩
    . rw [hmoves.id]
      exact h
    . intro s env
      exact ⟨⟨hblank _, hpass⟩, fun _ _ => by rw [wp_ofExcept]; trivial⟩
  . exact fun _ _ => trivial
  . exact fun _ _ => trivial

theorem wp_saveWorker {worker : Worker} {Q : Except Err Unit → Note → Prop}
    (hjob : jobId ∈ n.unleased) (hseen : (worker.id, jobId) ∈ n.seen) (hQ : ∀ r, Q r n)
    : wp ledgered.view (met origin) (keeps request) (WorkerRepository.save worker.recover) Q n := by
  have hguard : keeps request n (.saveWorker worker.recover) :=
    ⟨(keeps_read (c := .utcNow) hpass rfl).left, hpass, rfl, jobId, hjob, hseen⟩
  refine ⟨hguard, ?_⟩
  intro x _
  rw [wp_ofExcept]
  exact hQ _

theorem wp_recoverWorker {worker : Option Worker} {Q : Except Err Unit → Note → Prop}
    (hjob : jobId ∈ n.unleased) (hseen : ∀ w, worker = some w → (w.id, jobId) ∈ n.seen)
    (hQ : ∀ r, Q r n)
    : wp ledgered.view (met origin) (keeps request) (RecoverExpiredLease.recoverWorker worker) Q n := by
  unfold RecoverExpiredLease.recoverWorker
  cases worker with
  | none => exact hQ _
  | some worker => exact wp_saveWorker hpass hjob (hseen worker rfl) hQ

theorem wp_recoverExpired {lease : Lease} (hseen : (lease.workerId, lease.jobId) ∈ n.seen)
    : wp ledgered.view (met origin) (keeps request) (RecoverExpiredLease.recover lease)
        (fun _ _ => True) n := by
  unfold RecoverExpiredLease.recover
  apply Watched.wp_view_read (keeps_read hpass rfl) (fun _ _ => rfl)
  intro _ _ _ now _
  split
  . trivial
  . apply wp_deleteIfExpired hpass
    . exact fun _ => trivial
    . intro n hsame hjob
      rw [← hsame] at hseen
      apply Watched.wp_view_read (keeps_read hpass rfl) (fun _ _ => rfl)
      intro s env hmet worker hworker
      have hfound : ∀ w, worker = some w → (w.id, lease.jobId) ∈ n.seen := by
        rintro w rfl
        have ⟨_, hid, _⟩ := PostgresWorkerRepository.getById_eq_some hmet.schema hworker
        rw [hid]
        exact hseen
      apply Watched.wp_view_read (keeps_read hpass rfl) (fun _ _ => rfl)
      intro s env _ answer hanswer
      cases answer with
      | none => exact wp_recoverWorker hpass hjob hfound (fun _ => trivial)
      | some job =>
        have ⟨hget, _⟩ := PostgresJobRepository.getById_eq_some hanswer
        have hid : job.id = lease.jobId := Table.key_of_get? hget
        apply wp_seq (fun _ _ => trivial)
        apply wp_recoverWorker hpass hjob hfound
        rintro r a rfl
        unfold RecoverExpiredLease.reclaim RecoverExpiredLease.findNode
        rw [← hid] at hjob
        cases job.assignedNodeId with
        | none => exact wp_reclaimRecord hpass hjob
        | some nodeId =>
          apply Watched.wp_view_read (keeps_read hpass rfl) (fun _ _ => rfl)
          intro s env _ node _
          exact wp_reclaimRecord hpass hjob

theorem wp_reclaimOffline {worker : Worker} {job : Job} {leaseAlreadyDeleted : Bool}
    (hjob : job.id ∈ n.unleased) (hseen : (worker.id, job.id) ∈ n.seen)
    : wp ledgered.view (met origin) (keeps request)
        (RecoverOfflineNode.reclaim worker job leaseAlreadyDeleted) (fun _ _ => True) n := by
  unfold RecoverOfflineNode.reclaim
  apply wp_seq (fun _ _ => trivial)
  apply wp_saveWorker hpass hjob hseen
  rintro r a rfl
  exact wp_reclaimRecord hpass hjob

theorem wp_recoverOffline {offlineNodeIds : List NodeId} {worker : Worker}
    (hseen : ∀ job, worker.runningJob = some job → (worker.id, job.id) ∈ n.seen)
    (htenant : ∀ job, worker.runningJob = some job → ∀ old, origin.jobs.get? job.id = some old →
      old.tenantId = job.tenantId)
    : wp ledgered.view (met origin) (keeps request) (RecoverOfflineNode.recover offlineNodeIds worker)
        (fun _ _ => True) n := by
  unfold RecoverOfflineNode.recover
  split
  . trivial
  . cases hrunning : worker.runningJob with
    | none => trivial
    | some job =>
      have hseen := hseen job hrunning
      apply Watched.wp_view_perform_bind (keeps_read hpass rfl)
      intro s env hmet answer n' hanswer hn'
      have hsame : n'.seen = n.seen := by
        rw [← hn']
        exact seen_unlease _ _ _
      rw [← hsame] at hseen
      cases answer with
      | none =>
        have hfree : ¬Leased s.db job.id := by
          rintro ⟨lease, hlease, hjob⟩
          have ⟨stored, hstored, hstoredTenant⟩ := hmet.schema.job_of_lease hlease
          have hget := hmet.job lease hlease
          rw [hstored, hjob] at hget
          have := htenant job hrunning stored hget.symm
          exact PostgresLeaseRepository.getByJobId_eq_none hanswer lease hlease
            ⟨hjob, hstoredTenant.symm.trans this⟩
        apply wp_reclaimOffline hpass _ hseen
        rw [← hn']
        exact unleased_unlease hfree
      | some lease =>
        apply Watched.wp_view_read (keeps_read hpass rfl) (fun _ _ => rfl)
        intro s env _ now _
        split
        . trivial
        . apply wp_deleteIfExpired hpass
          . exact fun _ => trivial
          . intro n'' hsame' hjob
            rw [← hsame'] at hseen
            exact wp_reclaimOffline hpass hjob hseen

omit hpass in
theorem seen_subset_note (c : Call) (x : Ledger × Env) (n : Note)
    : n.seen ⊆ (ledgered.view.exec c x n).2.seen := by
  have hnote : (ledgered.view.exec c x n).2 = ledgered.note c x.2 x.1 n := rfl
  rw [hnote]
  intro entry hentry
  cases c with
  | listWorkers => exact List.mem_append_right _ hentry
  | listLeases => exact List.mem_append_right _ hentry
  | getLeaseByJob job tenant =>
    dsimp only [ledgered]
    rw [seen_unlease]
    exact hentry
  | deleteLeaseIfExpired job tenant =>
    dsimp only [ledgered]
    rw [seen_unlease]
    exact hentry
  | _ => exact hentry

omit hpass in
theorem wp_forEach {β : Type} {l : List β} {f : β → Service Unit} (knows : β → Note → Prop)
    (hmono : ∀ x n n', n.seen ⊆ n'.seen → knows x n → knows x n') (hl : ∀ x ∈ l, knows x n)
    (hf : ∀ x n, knows x n → wp ledgered.view (met origin) (keeps request) (f x) (fun _ _ => True) n)
    : wp ledgered.view (met origin) (keeps request) (forM l f) (fun _ _ => True) n := by
  apply wp_forM (fun l n => ∀ x ∈ l, knows x n) hl
  . intro x xs n hknows
    have hkeep := wp_keep (fun n' => n.seen ⊆ n'.seen)
      (fun n' c y hn' _ _ => List.Subset.trans hn' (seen_subset_note c y n'))
      (hf x n (hknows x List.mem_cons_self)) (List.Subset.refl _)
    apply wp_mono hkeep
    intro r n' ⟨_, hsubset⟩
    cases r with
    | ok _ =>
      intro y hy
      exact hmono y n n' hsubset (hknows y (List.mem_cons_of_mem _ hy))
    | error e => trivial
  . exact fun _ _ => trivial

theorem wp_recoverExpiredLeases
    : wp ledgered.view (met origin) (keeps request) RecoverExpiredLease.execute (fun _ _ => True) n := by
  unfold RecoverExpiredLease.execute
  apply Watched.wp_view_perform_bind (keeps_read hpass rfl)
  intro s env _ leases n' hanswer hn'
  apply wp_forEach (fun lease n => (lease.workerId, lease.jobId) ∈ n.seen)
  . exact fun _ _ _ hsubset hseen => hsubset hseen
  . intro lease hlease
    rw [← hanswer] at hlease
    have hmem := ((s.reading env).leaseOrder.hperm _).mem_iff.mp hlease
    rw [← hn']
    apply List.mem_append_left
    exact List.mem_map_of_mem (f := fun lease : Lease => (lease.workerId, lease.jobId)) hmem
  . intro lease n hseen
    exact wp_recoverExpired hpass hseen

theorem wp_recoverOfflineNodes
    : wp ledgered.view (met origin) (keeps request) RecoverOfflineNode.execute (fun _ _ => True) n := by
  unfold RecoverOfflineNode.execute
  apply Watched.wp_view_read (keeps_read hpass rfl) (fun _ _ => rfl)
  intro _ _ _ nodes _
  apply Watched.wp_view_read (keeps_read hpass rfl) (fun _ _ => rfl)
  intro _ _ _ now _
  dsimp only
  split
  . trivial
  . apply Watched.wp_view_perform_bind (keeps_read hpass rfl)
    intro s env hmet workers n' hanswer hn'
    apply wp_forEach (fun worker n => ∀ job, worker.runningJob = some job →
      (worker.id, job.id) ∈ n.seen
        ∧ ∀ old, origin.jobs.get? job.id = some old → old.tenantId = job.tenantId)
    . intro worker n n' hsubset hknows job hjob
      obtain ⟨hseen, htenant⟩ := hknows job hjob
      exact ⟨hsubset hseen, htenant⟩
    . intro worker hworker job hjob
      rw [← hanswer] at hworker
      have hcurrent := PostgresWorkerRepository.current_of_mem_list hmet.schema hworker
      refine ⟨?_, ?_⟩
      . rw [← hn']
        apply List.mem_append_left
        apply List.mem_filterMap.mpr
        refine ⟨worker.toRow, Table.mem_of_get? hcurrent.row, ?_⟩
        simp [Worker.toRow, hjob]
      . intro old hold
        obtain ⟨job', hjob', htenant⟩ := hmet.tenants _ old hold
        rw [hcurrent.job job hjob] at hjob'
        injection hjob' with hjob'
        rw [hjob', htenant]
    . intro worker n hknows
      exact wp_recoverOffline hpass (fun job hjob => (hknows job hjob).left)
        (fun job hjob => (hknows job hjob).right)

end programs

def Answers (request : Request) (r : Except Err Unit) (n : Note) : Prop :=
  match request with
  | .service (.renewLease worker lease _ _) =>
    match r with
    | .ok _ => n.renewed = some lease
    | .error e => e = .noActiveLease worker ∨ e = .leaseNotFound lease
  | _ => True

theorem wp_run {origin : DB} {request : Request} (hrequest : takesPart request)
    : wp ledgered.view (met origin) (keeps request) request.run (Answers request) {} := by
  cases request with
  | releaseLease worker lease tenant => contradiction
  | execution worker renewals result => contradiction
  | service served =>
    cases served with
    | recoverExpiredLeases => exact wp_recoverExpiredLeases rfl
    | recoverOfflineNodes => exact wp_recoverOfflineNodes rfl
    | renewLease worker lease tenant duration =>
      have hduration : duration = defaultLeaseDuration := of_decide_eq_true hrequest
      subst hduration
      exact wp_renewLease worker lease tenant rfl rfl
    | _ => contradiction

section

variable [DecidableEq ι] {requests : ι → Request} {db : DB} {t : Instant}
variable {pool pool' : Pool signature Err Unit Ledger Note ι}

theorem sound_start (hinv : Inv db) : Sound db { db := db, clock := t } where
  schema := hinv.schema
  tenants := .refl _
  lease lease hlease := ⟨lease, hlease, rfl, rfl, rfl, rfl⟩
  job _ _ := rfl
  worker _ _ := rfl
  running row hrow _ hrunning := ⟨row, db.workers.get?_key_of_mem hrow, hrunning⟩
  gone lease hlease := .inl ⟨lease, hlease, rfl⟩
  expired _ _ hentry := by contradiction
  ordered := .nil
  renewed _ _ hentry := by contradiction

theorem holds_pending (hinv : Inv db) (hrequests : ∀ i, takesPart (requests i))
    : (protocol requests hinv).Holds (fun i => Answers (requests i))
        (pending requests { db := db, clock := t } {}) := by
  refine ⟨⟨sound_start hinv, ?_, ?_, ?_⟩, fun i => wp_run (hrequests i)⟩
  . intro i entry hentry
    contradiction
  . intro i jobId hjobId
    contradiction
  . intro i id hrenewed
    contradiction

section renewal

variable {i : ι} {worker : WorkerId} {id : LeaseId} {tenant : TenantId} {duration : Duration}

end renewal

end

end Renewal

end AetherGrid
