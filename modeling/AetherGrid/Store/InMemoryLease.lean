import AetherGrid.Store.Reads

/-!
This module contains the in-memory lease repository and its comparison with the Postgres one.
-/

namespace AetherGrid

abbrev LeaseDict := Table JobId Lease Lease.jobId

namespace InMemoryLeaseRepository

def save (leases : LeaseDict) (lease : Lease) : LeaseDict :=
  leases.upsert lease

def renew (env : Env) (leases : LeaseDict) (leaseId : LeaseId) (duration : Duration)
    (tenantId : TenantId) : Except Err LeaseDict :=
  match leases.rows.find? (fun lease => lease.id = leaseId ∧ lease.tenantId = tenantId) with
  | none => .error (.leaseNotFound leaseId)
  | some lease =>
    if isDatetime (env.now + duration) then
      .ok (leases.upsert (lease.renew env.now duration))
    else
      .error (.overflowError "date value out of range")

def getByJobId (leases : LeaseDict) (jobId : JobId) (tenantId : TenantId) : Option Lease :=
  (leases.get? jobId).filter (·.tenantId = tenantId)

def getByWorkerId (leases : LeaseDict) (workerId : WorkerId) (tenantId : TenantId) : Option Lease :=
  leases.rows.find? (fun lease => lease.workerId = workerId ∧ lease.tenantId = tenantId)

def listAcrossTenants (leases : LeaseDict) : List Lease :=
  leases.rows

def delete (leases : LeaseDict) (jobId : JobId) (tenantId : TenantId) : LeaseDict :=
  match leases.get? jobId with
  | none => leases
  | some lease => if lease.tenantId = tenantId then leases.filter (·.jobId ≠ jobId) else leases

def deleteIfExpired (env : Env) (leases : LeaseDict) (jobId : JobId) (tenantId : TenantId)
    : Bool × LeaseDict :=
  match leases.get? jobId with
  | none => (false, leases)
  | some lease =>
    if lease.tenantId ≠ tenantId ∨ !lease.isExpired env.now then
      (false, leases)
    else
      (true, leases.filter (·.jobId ≠ jobId))

end InMemoryLeaseRepository

inductive LeaseCall where
  | save (lease : Lease)
  | renew (id : LeaseId) (duration : Duration) (tenant : TenantId)
  | getByJobId (job : JobId) (tenant : TenantId)
  | getByWorkerId (worker : WorkerId) (tenant : TenantId)
  | listAcrossTenants
  | delete (job : JobId) (tenant : TenantId)
  | deleteIfExpired (job : JobId) (tenant : TenantId)

inductive LeaseAnswer where
  | done
  | raised (e : Err)
  | found (lease : Option Lease)
  | deleted (removed : Bool)
  | listed (leases : List Lease)
  deriving DecidableEq

def LeaseAnswer.Same (a b : LeaseAnswer) : Prop :=
  match a, b with
  | .listed leases, .listed leases' => leases.Perm leases'
  | a, b => a = b

def LeaseAnswer.ofExcept {σ : Type} (s : σ) (r : Except Err σ) : LeaseAnswer × σ :=
  match r with
  | .ok s' => (.done, s')
  | .error e => (.raised e, s)

namespace LeaseCall

def inMemory (call : LeaseCall) (env : Env) (leases : LeaseDict) : LeaseAnswer × LeaseDict :=
  match call with
  | .save lease => (.done, InMemoryLeaseRepository.save leases lease)
  | .renew id duration tenant =>
    LeaseAnswer.ofExcept leases (InMemoryLeaseRepository.renew env leases id duration tenant)
  | .getByJobId job tenant => (.found (InMemoryLeaseRepository.getByJobId leases job tenant), leases)
  | .getByWorkerId worker tenant =>
    (.found (InMemoryLeaseRepository.getByWorkerId leases worker tenant), leases)
  | .listAcrossTenants => (.listed (InMemoryLeaseRepository.listAcrossTenants leases), leases)
  | .delete job tenant => (.done, InMemoryLeaseRepository.delete leases job tenant)
  | .deleteIfExpired job tenant =>
    let r := InMemoryLeaseRepository.deleteIfExpired env leases job tenant
    (.deleted r.1, r.2)

def postgres (call : LeaseCall) (env : Env) (db : DB) : LeaseAnswer × DB :=
  match call with
  | .save lease => LeaseAnswer.ofExcept db (PostgresLeaseRepository.save db lease)
  | .renew id duration tenant =>
    LeaseAnswer.ofExcept db (PostgresLeaseRepository.renew env db id duration tenant)
  | .getByJobId job tenant => (.found (PostgresLeaseRepository.getByJobId db job tenant), db)
  | .getByWorkerId worker tenant => (.found (PostgresLeaseRepository.getByWorkerId db worker tenant), db)
  | .listAcrossTenants => (.listed (PostgresLeaseRepository.listAcrossTenants env db), db)
  | .delete job tenant => (.done, PostgresLeaseRepository.delete db job tenant)
  | .deleteIfExpired job tenant =>
    let r := PostgresLeaseRepository.deleteIfExpired env db job tenant
    (.deleted r.1, r.2)

def Legal (call : LeaseCall) (db : DB) : Prop :=
  match call with
  | .save lease =>
    (∀ other ∈ db.leases.rows, other.id ≠ lease.id
        ∧ other.workerId ≠ lease.workerId
        ∧ other.jobId ≠ lease.jobId)
      ∧ (db.workers.get? lease.workerId).any (·.tenantId = lease.tenantId)
      ∧ (db.jobs.get? lease.jobId).any (·.tenantId = lease.tenantId)
  | _ => True

def OffEdges (call : LeaseCall) (env : Env) (db : DB) : Prop :=
  match call with
  | .deleteIfExpired job tenant =>
    ∀ lease ∈ db.leases.rows, lease.jobId = job → lease.tenantId = tenant → lease.expiresAt ≠ env.now
  | .renew id duration tenant =>
    (∃ lease ∈ db.leases.rows, lease.id = id ∧ lease.tenantId = tenant) ∨ isDatetime (env.now + duration)
  | _ => True

def mayDelete (call : LeaseCall) (env : Env) (found : JobId → TenantId → Option Lease) (a : LeaseAnswer)
    : Prop :=
  match call with
  | .deleteIfExpired job tenant => a = .deleted ((found job tenant).any (·.isExpired env.now))
  | _ => True

structure Agree (call : LeaseCall) (env : Env) (db : DB) (leases : LeaseDict) : Prop where
  same : (call.inMemory env leases).1.Same (call.postgres env db).1
  inMemory : call.mayDelete env (InMemoryLeaseRepository.getByJobId leases) (call.inMemory env leases).1
  postgres : call.mayDelete env (PostgresLeaseRepository.getByJobId db) (call.postgres env db).1

end LeaseCall

namespace LeaseRun

def Legal (calls : List (Env × LeaseCall)) (db : DB) : Prop :=
  match calls with
  | [] => True
  | (env, call) :: calls => call.Legal db ∧ Legal calls (call.postgres env db).2

def OffEdges (calls : List (Env × LeaseCall)) (db : DB) : Prop :=
  match calls with
  | [] => True
  | (env, call) :: calls => call.OffEdges env db ∧ OffEdges calls (call.postgres env db).2

def Agree (calls : List (Env × LeaseCall)) (db : DB) (leases : LeaseDict) : Prop :=
  match calls with
  | [] => True
  | (env, call) :: calls =>
    call.Agree env db leases ∧ Agree calls (call.postgres env db).2 (call.inMemory env leases).2

end LeaseRun

def SameLeases (db : DB) (leases : LeaseDict) : Prop :=
  ∀ lease, lease ∈ leases.rows ↔ lease ∈ db.leases.rows

namespace InMemoryLeaseRepository

variable {leases : LeaseDict} {env : Env} {job : JobId} {tenant : TenantId} {lease : Lease}

theorem getByJobId_eq_some_iff
    : getByJobId leases job tenant = some lease
        ↔
      lease ∈ leases.rows ∧ lease.jobId = job ∧ lease.tenantId = tenant := by
  unfold getByJobId
  rw [Option.filter_eq_some_iff, Table.get?_eq_some_iff, decide_eq_true_eq, and_assoc]

theorem mem_delete
    : lease ∈ (delete leases job tenant).rows
        ↔
      lease ∈ leases.rows ∧ ¬(lease.jobId = job ∧ lease.tenantId = tenant) := by
  unfold delete
  split
  . next hnone =>
    rw [Table.get?_eq_none_iff] at hnone
    constructor
    . intro hmem
      exact ⟨hmem, fun h => hnone lease hmem h.left⟩
    . intro h
      exact h.left
  . next stored hstored =>
    have hsame : ∀ other ∈ leases.rows, other.jobId = job → other = stored := by
      intro other hother hjob
      have := leases.get?_key_of_mem hother
      rw [hjob, hstored, Option.some.injEq] at this
      exact this.symm
    split
    . next htenant =>
      simp only [Table.filter, List.mem_filter, ne_eq, decide_not, Bool.not_eq_eq_eq_not, Bool.not_true,
        decide_eq_false_iff_not]
      constructor
      . rintro ⟨hmem, hne⟩
        exact ⟨hmem, fun h => hne h.left⟩
      . rintro ⟨hmem, hnot⟩
        refine ⟨hmem, ?_⟩
        intro hjob
        apply hnot
        refine ⟨hjob, ?_⟩
        rw [hsame lease hmem hjob]
        exact htenant
    . next htenant =>
      constructor
      . intro hmem
        refine ⟨hmem, ?_⟩
        rintro ⟨hjob, hlease⟩
        rw [hsame lease hmem hjob] at hlease
        exact htenant hlease
      . intro h
        exact h.left

theorem deleteIfExpired_eq (env : Env) (leases : LeaseDict) (job : JobId) (tenant : TenantId)
    : deleteIfExpired env leases job tenant
        =
      if (getByJobId leases job tenant).any (·.isExpired env.now) then
        (true, delete leases job tenant)
      else
        (false, leases) := by
  unfold deleteIfExpired getByJobId delete
  cases leases.get? job with
  | none => rfl
  | some stored =>
    by_cases htenant : stored.tenantId = tenant
    . cases hexpired : stored.isExpired env.now <;> simp [htenant, hexpired]
    . simp [htenant]

end InMemoryLeaseRepository

namespace PostgresLeaseRepository

variable {db : DB} {env : Env} {job : JobId} {tenant : TenantId} {lease : Lease}

theorem getByJobId_eq_some_iff (hschema : Schema db)
    : getByJobId db job tenant = some lease
        ↔
      lease ∈ db.leases.rows ∧ lease.jobId = job ∧ lease.tenantId = tenant := by
  unfold getByJobId
  rw [Table.find?_eq_some_iff_of_unique, decide_eq_true_eq]
  intro a ha b hb hpa hpb
  rw [decide_eq_true_eq] at hpa hpb
  exact hschema.uniqueJob a ha b hb (hpa.left.trans hpb.left.symm)

theorem deleteIfExpired_eq (hschema : Schema db)
    : deleteIfExpired env db job tenant
        =
      if (getByJobId db job tenant).any (·.expiresAt < env.now) then
        (true, delete db job tenant)
      else
        (false, db) := by
  split
  . next hexpired =>
    rw [Option.any_eq_true] at hexpired
    have ⟨stored, hstored, hlt⟩ := hexpired
    rw [getByJobId_eq_some_iff hschema] at hstored
    rw [decide_eq_true_eq] at hlt
    have hremoved : (deleteIfExpired env db job tenant).1 = true := by
      rw [deleteIfExpired_eq_true_iff]
      exact ⟨stored, hstored.left, hstored.right.left, hstored.right.right, hlt⟩
    have hleft : (deleteIfExpired env db job tenant).2 = delete db job tenant := by
      unfold deleteIfExpired delete
      dsimp only
      rw [Table.filter_congr]
      intro lease hlease
      unfold deletable
      rw [← decide_not, decide_eq_decide, not_iff_not]
      constructor
      . intro h
        exact ⟨h.left, h.right.left⟩
      . intro h
        have heq := hschema.uniqueJob lease hlease stored hstored.left
          (h.left.trans hstored.right.left.symm)
        refine ⟨h.left, h.right, ?_⟩
        rw [heq]
        exact hlt
    exact Prod.ext hremoved hleft
  . next hexpired =>
    have hremoved : (deleteIfExpired env db job tenant).1 = false := by
      rw [← Bool.not_eq_true, deleteIfExpired_eq_true_iff]
      intro ⟨lease, hlease, hjob, htenant, hlt⟩
      apply hexpired
      rw [Option.any_eq_true]
      refine ⟨lease, ?_, decide_eq_true hlt⟩
      rw [getByJobId_eq_some_iff hschema]
      exact ⟨hlease, hjob, htenant⟩
    exact Prod.ext hremoved (deleteIfExpired_of_false hremoved)

end PostgresLeaseRepository

namespace SameLeases

variable {db : DB} {leases : LeaseDict} {env : Env}

theorem getByJobId (h : SameLeases db leases) (hschema : Schema db)
    : InMemoryLeaseRepository.getByJobId leases = PostgresLeaseRepository.getByJobId db := by
  funext job tenant
  apply Option.ext
  intro lease
  rw [InMemoryLeaseRepository.getByJobId_eq_some_iff,
    PostgresLeaseRepository.getByJobId_eq_some_iff hschema, h]

theorem getByWorkerId (h : SameLeases db leases) (hschema : Schema db) (worker : WorkerId)
    (tenant : TenantId)
    : InMemoryLeaseRepository.getByWorkerId leases worker tenant
        =
      PostgresLeaseRepository.getByWorkerId db worker tenant := by
  apply Table.find?_eq_of_mem_iff h
  intro a ha b hb hpa hpb
  rw [decide_eq_true_eq] at hpa hpb
  exact hschema.uniqueWorker a ha b hb (hpa.left.trans hpb.left.symm)

theorem perm (h : SameLeases db leases)
    : (InMemoryLeaseRepository.listAcrossTenants leases).Perm
        (PostgresLeaseRepository.listAcrossTenants env db) := by
  refine List.Perm.trans ?_ (env.leaseOrder.hperm _).symm
  exact (List.perm_ext_iff_of_nodup (List.Nodup.of_map _ leases.hnodup)
    (List.Nodup.of_map _ db.leases.hnodup)).mpr h

theorem delete (h : SameLeases db leases) (job : JobId) (tenant : TenantId)
    : SameLeases (PostgresLeaseRepository.delete db job tenant)
        (InMemoryLeaseRepository.delete leases job tenant) := by
  intro lease
  rw [InMemoryLeaseRepository.mem_delete, PostgresLeaseRepository.mem_delete, h]

theorem save (h : SameLeases db leases) {lease : Lease} (hlegal : (LeaseCall.save lease).Legal db)
    : SameLeases { db with leases := db.leases.upsert lease }
        (InMemoryLeaseRepository.save leases lease) := by
  intro other
  unfold InMemoryLeaseRepository.save
  rw [Table.mem_upsert, Table.mem_upsert, h]
  apply or_congr_right
  constructor
  . intro ⟨hmem, _⟩
    exact ⟨hmem, (hlegal.left other hmem).left⟩
  . intro ⟨hmem, _⟩
    exact ⟨hmem, (hlegal.left other hmem).right.right⟩

theorem upsert (h : SameLeases db leases) (hschema : Schema db) {lease lease' : Lease}
    (hlease : lease ∈ db.leases.rows) (hid : lease'.id = lease.id) (hjob : lease'.jobId = lease.jobId)
    : SameLeases { db with leases := db.leases.upsert lease' } (leases.upsert lease') := by
  intro other
  rw [Table.mem_upsert, Table.mem_upsert, h]
  apply or_congr_right
  apply and_congr_right
  intro hother
  rw [hid, hjob, not_iff_not]
  constructor
  . intro hsame
    rw [hschema.uniqueJob other hother lease hlease hsame]
  . intro hsame
    rw [db.leases.eq_of_key_eq hother hlease hsame]

theorem find?_renew (h : SameLeases db leases) (id : LeaseId) (tenant : TenantId)
    : leases.rows.find? (fun lease => lease.id = id ∧ lease.tenantId = tenant)
        =
      (db.leases.get? id).filter (·.tenantId = tenant) := by
  apply Option.ext
  intro lease
  rw [Table.find?_eq_some_iff_of_unique, Option.filter_eq_some_iff, Table.get?_eq_some_iff, decide_eq_true_eq,
    decide_eq_true_eq, h, and_assoc]
  intro a ha b hb hpa hpb
  rw [decide_eq_true_eq] at hpa hpb
  exact db.leases.eq_of_key_eq ((h a).mp ha) ((h b).mp hb) (hpa.left.trans hpb.left.symm)

end SameLeases

namespace LeaseCall

variable {call : LeaseCall} {db : DB} {leases : LeaseDict} {env : Env}

theorem postgres_save {lease : Lease} (hlegal : (LeaseCall.save lease).Legal db)
    : PostgresLeaseRepository.save db lease = .ok { db with leases := db.leases.upsert lease } := by
  have ⟨hothers, hworker, hjob⟩ := hlegal
  unfold PostgresLeaseRepository.save
  dsimp only
  rw [if_neg, if_neg, if_neg, if_neg]
  . rw [hjob]
    exact Bool.false_ne_true
  . rw [hworker]
    exact Bool.false_ne_true
  . rw [List.any_eq_true]
    intro ⟨other, hother, hsame⟩
    exact (hothers other (List.mem_of_mem_filter hother)).right.right (of_decide_eq_true hsame)
  . rw [List.any_eq_true]
    intro ⟨other, hother, hsame⟩
    exact (hothers other (List.mem_of_mem_filter hother)).right.left (of_decide_eq_true hsame)

theorem schema_postgres (hschema : Schema db) (call : LeaseCall) (env : Env)
    : Schema (call.postgres env db).2 := by
  have hcommit : ∀ r, (LeaseAnswer.ofExcept db r).2 = (commit db r).2 := by
    intro r
    cases r <;> rfl
  cases call with
  | save lease =>
    have := hschema.exec (.saveLease lease) env
    unfold LeaseCall.postgres
    dsimp only
    rw [hcommit]
    exact this
  | renew id duration tenant =>
    have := hschema.exec (.renewLease id duration tenant) env
    unfold LeaseCall.postgres
    dsimp only
    rw [hcommit]
    exact this
  | delete job tenant => exact hschema.exec (.deleteLease job tenant) env
  | deleteIfExpired job tenant => exact hschema.exec (.deleteLeaseIfExpired job tenant) env
  | _ => exact hschema

theorem any_isExpired_iff (hschema : Schema db) {job : JobId} {tenant : TenantId}
    : (PostgresLeaseRepository.getByJobId db job tenant).any (·.isExpired env.now)
        = (PostgresLeaseRepository.getByJobId db job tenant).any (·.expiresAt < env.now)
        ↔
      (LeaseCall.deleteIfExpired job tenant).OffEdges env db := by
  dsimp only [OffEdges]
  cases hget : PostgresLeaseRepository.getByJobId db job tenant with
  | none =>
    have hnone := PostgresLeaseRepository.getByJobId_eq_none hget
    apply iff_of_true rfl
    intro lease hlease hjob htenant
    exact absurd ⟨hjob, htenant⟩ (hnone lease hlease)
  | some stored =>
    have ⟨hstored, hjob, htenant⟩ := PostgresLeaseRepository.getByJobId_eq_some hget
    unfold Lease.isExpired
    rw [Option.any_some, Option.any_some, decide_eq_decide]
    constructor
    . intro h lease hlease hjob' _ heq
      rw [hschema.uniqueJob lease hlease stored hstored (hjob'.trans hjob.symm)] at heq
      exact Int.ne_of_lt (h.mp (Int.le_of_eq heq)) heq
    . intro h
      constructor
      . intro hle
        exact lt_of_le_of_ne hle (h stored hstored hjob htenant)
      . exact Int.le_of_lt

theorem deleteIfExpired_postgres (hschema : Schema db) (job : JobId) (tenant : TenantId)
    : (LeaseCall.deleteIfExpired job tenant).postgres env db
        =
      if (PostgresLeaseRepository.getByJobId db job tenant).any (·.expiresAt < env.now) then
        (.deleted true, PostgresLeaseRepository.delete db job tenant)
      else
        (.deleted false, db) := by
  unfold LeaseCall.postgres
  dsimp only
  rw [PostgresLeaseRepository.deleteIfExpired_eq hschema]
  split <;> rfl

theorem deleteIfExpired_inMemory (job : JobId) (tenant : TenantId)
    : (LeaseCall.deleteIfExpired job tenant).inMemory env leases
        =
      if (InMemoryLeaseRepository.getByJobId leases job tenant).any (·.isExpired env.now) then
        (.deleted true, InMemoryLeaseRepository.delete leases job tenant)
      else
        (.deleted false, leases) := by
  unfold LeaseCall.inMemory
  dsimp only
  rw [InMemoryLeaseRepository.deleteIfExpired_eq]
  split <;> rfl

theorem not_exists_of_filter_get? {id : LeaseId} {tenant : TenantId}
    (h : (db.leases.get? id).filter (·.tenantId = tenant) = none)
    : ¬∃ lease ∈ db.leases.rows, lease.id = id ∧ lease.tenantId = tenant := by
  rintro ⟨lease, hlease, hid, htenant⟩
  have hget := db.leases.get?_key_of_mem hlease
  rw [hid] at hget
  rw [hget] at h
  simp [htenant] at h

theorem agree_of_offEdges (hschema : Schema db) (h : SameLeases db leases) (hlegal : call.Legal db)
    (hoff : call.OffEdges env db)
    : call.Agree env db leases ∧ SameLeases (call.postgres env db).2 (call.inMemory env leases).2 := by
  cases call with
  | save lease =>
    have hsave : (LeaseCall.save lease).postgres env db
        = (.done, { db with leases := db.leases.upsert lease }) := by
      unfold LeaseCall.postgres
      dsimp only
      rw [postgres_save hlegal]
      rfl
    refine ⟨⟨?_, trivial, trivial⟩, ?_⟩
    . rw [hsave]
      rfl
    . rw [hsave]
      exact h.save hlegal
  | renew id duration tenant =>
    have hfind := h.find?_renew id tenant
    cases hget : (db.leases.get? id).filter (·.tenantId = tenant) with
    | none =>
      have hrange : isDatetime (env.now + duration) = true :=
        hoff.resolve_left (not_exists_of_filter_get? hget)
      have hpostgres : (LeaseCall.renew id duration tenant).postgres env db
          = (.raised (.leaseNotFound id), db) := by
        simp only [LeaseCall.postgres, PostgresLeaseRepository.renew, hget, hrange, if_true,
          LeaseAnswer.ofExcept]
      have hinMemory : (LeaseCall.renew id duration tenant).inMemory env leases
          = (.raised (.leaseNotFound id), leases) := by
        simp only [LeaseCall.inMemory, InMemoryLeaseRepository.renew, hfind, hget, LeaseAnswer.ofExcept]
      refine ⟨⟨?_, trivial, trivial⟩, ?_⟩
      . rw [hpostgres, hinMemory]
        rfl
      . rw [hpostgres, hinMemory]
        exact h
    | some lease =>
      have hmem := (Option.filter_eq_some_iff.mp hget).left
      cases hrange : isDatetime (env.now + duration) with
      | true =>
        have hpostgres : (LeaseCall.renew id duration tenant).postgres env db
            = (.done, { db with leases := db.leases.upsert (lease.renew env.now duration) }) := by
          simp only [LeaseCall.postgres, PostgresLeaseRepository.renew, hget, hrange, if_true,
            LeaseAnswer.ofExcept, Lease.renew]
        have hinMemory : (LeaseCall.renew id duration tenant).inMemory env leases
            = (.done, leases.upsert (lease.renew env.now duration)) := by
          simp only [LeaseCall.inMemory, InMemoryLeaseRepository.renew, hfind, hget, hrange, if_true,
            LeaseAnswer.ofExcept]
        refine ⟨⟨?_, trivial, trivial⟩, ?_⟩
        . rw [hpostgres, hinMemory]
          rfl
        . rw [hpostgres, hinMemory]
          exact h.upsert hschema (Table.mem_of_get? hmem) rfl rfl
      | false =>
        have hpostgres : (LeaseCall.renew id duration tenant).postgres env db
            = (.raised (.overflowError "date value out of range"), db) := by
          simp only [LeaseCall.postgres, PostgresLeaseRepository.renew, hrange, Bool.false_eq_true, if_false,
            LeaseAnswer.ofExcept]
        have hinMemory : (LeaseCall.renew id duration tenant).inMemory env leases
            = (.raised (.overflowError "date value out of range"), leases) := by
          simp only [LeaseCall.inMemory, InMemoryLeaseRepository.renew, hfind, hget, hrange,
            Bool.false_eq_true, if_false, LeaseAnswer.ofExcept]
        refine ⟨⟨?_, trivial, trivial⟩, ?_⟩
        . rw [hpostgres, hinMemory]
          rfl
        . rw [hpostgres, hinMemory]
          exact h
  | getByJobId job tenant =>
    refine ⟨⟨?_, trivial, trivial⟩, h⟩
    exact congrArg LeaseAnswer.found (congrFun₂ (h.getByJobId hschema) job tenant)
  | getByWorkerId worker tenant =>
    refine ⟨⟨?_, trivial, trivial⟩, h⟩
    exact congrArg LeaseAnswer.found (h.getByWorkerId hschema worker tenant)
  | listAcrossTenants => exact ⟨⟨h.perm, trivial, trivial⟩, h⟩
  | delete job tenant => exact ⟨⟨rfl, trivial, trivial⟩, h.delete job tenant⟩
  | deleteIfExpired job tenant =>
    have hdecide := (any_isExpired_iff hschema).mpr hoff
    have hget := h.getByJobId hschema
    have hpostgres : (LeaseCall.deleteIfExpired job tenant).postgres env db
        = if (PostgresLeaseRepository.getByJobId db job tenant).any (·.isExpired env.now) then
          (.deleted true, PostgresLeaseRepository.delete db job tenant)
        else
          (.deleted false, db) := by
      rw [deleteIfExpired_postgres hschema, hdecide]
    have hinMemory : (LeaseCall.deleteIfExpired job tenant).inMemory env leases
        = if (PostgresLeaseRepository.getByJobId db job tenant).any (·.isExpired env.now) then
          (.deleted true, InMemoryLeaseRepository.delete leases job tenant)
        else
          (.deleted false, leases) := by
      rw [deleteIfExpired_inMemory, hget]
    cases hexpired : (PostgresLeaseRepository.getByJobId db job tenant).any (·.isExpired env.now) with
    | true =>
      rw [hexpired, if_pos rfl] at hpostgres hinMemory
      refine ⟨⟨?_, ?_, ?_⟩, ?_⟩
      . rw [hpostgres, hinMemory]
        rfl
      . dsimp only [mayDelete]
        rw [hinMemory, hget, hexpired]
      . dsimp only [mayDelete]
        rw [hpostgres, hexpired]
      . rw [hpostgres, hinMemory]
        exact h.delete job tenant
    | false =>
      rw [hexpired, if_neg Bool.false_ne_true] at hpostgres hinMemory
      refine ⟨⟨?_, ?_, ?_⟩, ?_⟩
      . rw [hpostgres, hinMemory]
        rfl
      . dsimp only [mayDelete]
        rw [hinMemory, hget, hexpired]
      . dsimp only [mayDelete]
        rw [hpostgres, hexpired]
      . rw [hpostgres, hinMemory]
        exact h

theorem offEdges_of_agree (hschema : Schema db) (hsame : SameLeases db leases) (h : call.Agree env db leases)
    : call.OffEdges env db := by
  cases call with
  | renew id duration tenant =>
    by_contra hedge
    simp only [OffEdges, not_or, Bool.not_eq_true] at hedge
    have hget : (db.leases.get? id).filter (·.tenantId = tenant) = none := by
      rw [Option.eq_none_iff_forall_ne_some]
      intro lease hlease
      rw [Option.filter_eq_some_iff] at hlease
      exact hedge.left
        ⟨lease, Table.mem_of_get? hlease.left, Table.key_of_get? hlease.left, of_decide_eq_true hlease.right⟩
    have hanswers := h.same
    simp only [LeaseCall.inMemory, InMemoryLeaseRepository.renew, hsame.find?_renew, hget, LeaseCall.postgres,
      PostgresLeaseRepository.renew, hedge.right, Bool.false_eq_true, if_false, LeaseAnswer.ofExcept] at hanswers
    have hmixed : LeaseAnswer.raised (.leaseNotFound id)
        = .raised (.overflowError "date value out of range") := hanswers
    simp at hmixed
  | deleteIfExpired job tenant =>
    have hpostgres := h.postgres
    dsimp only [mayDelete] at hpostgres
    rw [deleteIfExpired_postgres hschema] at hpostgres
    rw [← any_isExpired_iff hschema]
    split at hpostgres
    . next hlt =>
      injection hpostgres with hpostgres
      rw [hlt, ← hpostgres]
    . next hlt =>
      injection hpostgres with hpostgres
      rw [Bool.not_eq_true] at hlt
      rw [hlt, ← hpostgres]
  | _ => trivial

end LeaseCall

theorem leaseRepositories_agree_iff (calls : List (Env × LeaseCall)) {db : DB} {leases : LeaseDict}
    (hschema : Schema db) (hsame : SameLeases db leases) (hlegal : LeaseRun.Legal calls db)
    : LeaseRun.Agree calls db leases ↔ LeaseRun.OffEdges calls db := by
  induction calls generalizing db leases with
  | nil => exact Iff.rfl
  | cons entry calls ih =>
    have ⟨env, call⟩ := entry
    have hnext := LeaseCall.schema_postgres hschema call env
    constructor
    . intro ⟨hagree, hrest⟩
      have hoff := LeaseCall.offEdges_of_agree hschema hsame hagree
      have ⟨_, hsame'⟩ := LeaseCall.agree_of_offEdges hschema hsame hlegal.left hoff
      exact ⟨hoff, (ih hnext hsame' hlegal.right).mp hrest⟩
    . intro ⟨hoff, hrest⟩
      have ⟨hagree, hsame'⟩ := LeaseCall.agree_of_offEdges hschema hsame hlegal.left hoff
      exact ⟨hagree, (ih hnext hsame' hlegal.right).mpr hrest⟩

namespace LeaseRun

def oneWorker : DB where
  nodes := Table.empty.upsert
    { id := ⟨0⟩, capacity := ⟨4, 4096, 0⟩, tenantId := ⟨0⟩, name := "swift-falcon-3f2a", lastSeenAt := 0,
      available := ⟨3, 4095, 0⟩, havailable := by decide }
  jobs := Table.empty.upsert
    { id := ⟨1⟩, resources := ⟨1, 1, 0⟩, tenantId := ⟨0⟩, status := .scheduled,
      assignedNodeId := some ⟨0⟩, submittedAt := 0, hcpu := Nat.one_pos, hmemory := Nat.one_pos }
  workers := Table.empty.upsert ⟨⟨2⟩, ⟨0⟩, ⟨0⟩, .idle, .agent, none, 0⟩
  leases := .empty
  events := []
  nextId := 3

def saveThenDelete (t : Time) : List (Env × LeaseCall) :=
  [({ now := 0 }, .save (.create ⟨3⟩ ⟨2⟩ ⟨1⟩ ⟨0⟩ 0)), ({ now := t }, .deleteIfExpired ⟨1⟩ ⟨0⟩)]

theorem legal_saveThenDelete (t : Time) : Legal (saveThenDelete t) oneWorker :=
  ⟨⟨nofun, by decide, by decide⟩, trivial, trivial⟩

end LeaseRun

theorem leaseRepositories_agree_afterExpiry
    : LeaseRun.Agree (LeaseRun.saveThenDelete (seconds 31)) LeaseRun.oneWorker .empty := by
  refine (leaseRepositories_agree_iff _ (by decide) (fun _ => Iff.rfl)
    (LeaseRun.legal_saveThenDelete _)).mpr ⟨trivial, ?_, trivial⟩
  intro lease hlease _ _
  have : lease = .create ⟨3⟩ ⟨2⟩ ⟨1⟩ ⟨0⟩ 0 := List.mem_singleton.mp hlease
  rw [this]
  decide

theorem leaseRepositories_disagree_atExpiry
    : Schema LeaseRun.oneWorker
        ∧ SameLeases LeaseRun.oneWorker .empty
        ∧ LeaseRun.Legal (LeaseRun.saveThenDelete (seconds 30)) LeaseRun.oneWorker
        ∧ ¬LeaseRun.Agree (LeaseRun.saveThenDelete (seconds 30)) LeaseRun.oneWorker .empty := by
  refine ⟨by decide, fun _ => Iff.rfl, LeaseRun.legal_saveThenDelete _, ?_⟩
  rintro ⟨_, hagree, _⟩
  -- the dictionary deletes the lease, the table keeps it
  have : LeaseAnswer.deleted true = .deleted false := hagree.same
  contradiction

end AetherGrid
