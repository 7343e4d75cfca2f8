import AetherGrid.Cluster.Concurrent
import AetherGrid.Store.Reads

/-!
This module contains what follows the loss of a lease while other requests are served: the resources of
the job are given back to its node and the next status of the job is saved.
-/

namespace AetherGrid

open Prog Pool

namespace Settlement

structure Audited where
  db : DB
  granted : JobId → Option LeaseId

def leaseOf (db : DB) (jobId : JobId) : Option LeaseId :=
  (db.leases.rows.find? (·.jobId = jobId)).map (·.id)

def audit (db : DB) : Audited where
  db := db
  granted := leaseOf db

inductive Effect where
  | nodeReleased
  | jobSaved
  deriving DecidableEq, Repr

structure Loss where
  jobId : JobId
  leaseId : Option LeaseId
  done : List Effect := []
  deriving DecidableEq, Repr

structure Note where
  minted : Option Nat := none
  loss : Option Loss := none
  absent : Bool := false
  effects : List (LeaseId × Effect) := []
  deriving DecidableEq, Repr

def Note.perform (n : Note) (effect : Effect) : Note :=
  match n.loss with
  | none => n
  | some loss =>
    { n with
      loss := some { loss with done := effect :: loss.done }
      effects := (loss.leaseId.toList.map (·, effect)) ++ n.effects }

def audited : Watched signature Audited Env Note where
  exec c env s :=
    ((c.exec env s.db).1,
      ⟨(c.exec env s.db).2, fun jobId => (leaseOf (c.exec env s.db).2 jobId).or (s.granted jobId)⟩)
  note c env s n :=
    match c with
    | .uuid4 => { n with minted := some s.db.nextId }
    | .saveLease _ => { n with minted := none }
    | .getLeaseByJob job tenant =>
      { n with
        loss := none
        absent := (PostgresLeaseRepository.getByJobId s.db job tenant).isNone }
    | .deleteLease job _ => { n with loss := some ⟨job, s.granted job, []⟩ }
    | .deleteLeaseIfExpired job tenant =>
      if (PostgresLeaseRepository.deleteIfExpired env s.db job tenant).1 then
        { n with loss := some ⟨job, s.granted job, []⟩ }
      else
        { n with loss := none }
    | .saveNode _ => n.perform .nodeReleased
    | .saveJob _ => n.perform .jobSaved
    | _ => n

def reportedJob (request : Request) : Option JobId :=
  match request with
  | .service (.report _ _ job _ _ _) => some job
  | _ => none

def isRegistration (request : Request) : Bool :=
  match request with
  | .service (.postWorkers _ _ _) => true
  | _ => false

def contends (request : Request) : Bool :=
  match request with
  | .service (.report _ _ _ _ _ _) => true
  | .service .recoverExpiredLeases => true
  | .service .recoverOfflineNodes => true
  | _ => isRegistration request || isTick request

variable {ι : Type}

def soughtLease (request : Request) (c : Call) : Option (JobId × TenantId) :=
  match c with
  | .deleteLease job tenant => some (job, tenant)
  | .getLeaseByJob job tenant => if isTick request then none else some (job, tenant)
  | _ => none

def findsLease (requests : ι → Request) (s : Audited) (_ : ι → Note) (i : ι) (c : Call) : Prop :=
  ∀ entry ∈ soughtLease (requests i) c,
    (∃ lease ∈ s.db.leases.rows, lease.jobId = entry.1 ∧ lease.tenantId = entry.2)
      ∧ ∀ jobId ∈ reportedJob (requests i), entry.1 = jobId

instance (requests : ι → Request) (s : Audited) (notes : ι → Note) (i : ι) (c : Call)
    : Decidable (findsLease requests s notes i c) :=
  inferInstanceAs
    (Decidable (∀ entry ∈ soughtLease (requests i) c, _ ∧ ∀ jobId ∈ reportedJob (requests i), _))

def keeps (request : Request) (n : Note) (c : Call) : Prop :=
  match c with
  | .saveNode _ => isTick request ∨ ∃ loss, n.loss = some loss ∧ .nodeReleased ∉ loss.done
  | .saveJob job =>
    isTick request
      ∨ ∃ loss, n.loss = some loss
        ∧ .jobSaved ∉ loss.done
        ∧ job.id = (reportedJob request).getD loss.jobId
  | .saveWorker _ =>
    isTick request ∨ isRegistration request ∨ n.absent ∨ ∃ loss, n.loss = some loss
  | .saveEvent _ _ _ => isTick request ∨ ∃ loss, n.loss = some loss
  | .saveLease lease => n.minted = some lease.id.value
  | .deleteLease _ _ => isTick request = false
  | .deleteLeaseIfExpired _ _ => isTick request = false ∧ reportedJob request = none
  | .renewLease _ _ _ => False
  | .deleteNode _ _ => False
  | _ => True

def Stored (db : DB) (leaseId : LeaseId) : Prop :=
  ∃ lease ∈ db.leases.rows, lease.id = leaseId

def Note.Lost (n : Note) (leaseId : LeaseId) : Prop :=
  (∃ loss, n.loss = some loss ∧ loss.leaseId = some leaseId)
    ∨ ∃ effect, (leaseId, effect) ∈ n.effects

structure Sound (request : Request) (n : Note) : Prop where
  lease : ∀ loss, n.loss = some loss → ∃ leaseId, loss.leaseId = some leaseId
  job : ∀ loss, n.loss = some loss → ∀ jobId ∈ reportedJob request, loss.jobId = jobId
  done : ∀ loss leaseId effect, n.loss = some loss → loss.leaseId = some leaseId →
    (leaseId, effect) ∈ n.effects → effect ∈ loss.done
  once : n.effects.Nodup
  tick : isTick request → n.loss = none
  present : isTick request = false → n.absent = false

structure Settled (requests : ι → Request) (s : Audited) (notes : ι → Note) : Prop where
  schema : Schema s.db
  granted : ∀ lease ∈ s.db.leases.rows, s.granted lease.jobId = some lease.id
  fresh : ∀ leaseId, Stored s.db leaseId → leaseId.value < s.db.nextId
  lost : ∀ i leaseId, (notes i).Lost leaseId →
    leaseId.value < s.db.nextId ∧ ¬Stored s.db leaseId
  unique : ∀ i j leaseId, (notes i).Lost leaseId → (notes j).Lost leaseId → i = j
  minted : ∀ i id, (notes i).minted = some id →
    id < s.db.nextId ∧ ¬Stored s.db ⟨id⟩ ∧ ∀ j, ¬(notes j).Lost ⟨id⟩
  mintedOnce : ∀ i j id, (notes i).minted = some id → (notes j).minted = some id → i = j
  sound : ∀ i, Sound (requests i) (notes i)

theorem granted_of_mem {db : DB} (hschema : Schema db) (granted : JobId → Option LeaseId)
    {lease : Lease} (hlease : lease ∈ db.leases.rows)
    : (leaseOf db lease.jobId).or (granted lease.jobId) = some lease.id := by
  have hfind : db.leases.rows.find? (·.jobId = lease.jobId) = some lease := by
    cases h : db.leases.rows.find? (·.jobId = lease.jobId) with
    | none =>
      rw [List.find?_eq_none] at h
      have := h lease hlease
      simp at this
    | some other =>
      have hjob : other.jobId = lease.jobId := by simpa using List.find?_some h
      rw [hschema.uniqueJob other (List.mem_of_find?_eq_some h) lease hlease hjob]
  unfold leaseOf
  rw [hfind]
  rfl

variable {requests : ι → Request} {s s' : Audited} {notes : ι → Note}

theorem Settled.not_lost (h : Settled requests s notes) {i : ι} {leaseId : LeaseId}
    (hstored : Stored s.db leaseId) : ¬(notes i).Lost leaseId :=
  fun hlost => (h.lost i leaseId hlost).right hstored

variable [DecidableEq ι]

theorem Settled.sound_update (h : Settled requests s notes) {i : ι} {n : Note}
    (hsound : Sound (requests i) n) : ∀ j, Sound (requests j) (Function.update notes i n j) :=
  (Function.forall_update_iff notes (p := fun j n => Sound (requests j) n)).mpr
    ⟨hsound, fun j _ => h.sound j⟩

theorem Settled.move (h : Settled requests s notes) {i : ι} {n : Note} (hschema : Schema s'.db)
    (hgranted : ∀ lease ∈ s'.db.leases.rows, s'.granted lease.jobId = some lease.id)
    (hid : s.db.nextId ≤ s'.db.nextId) (hstored : ∀ leaseId, Stored s'.db leaseId → Stored s.db leaseId)
    (hlost : ∀ leaseId, n.Lost leaseId →
      (notes i).Lost leaseId ∨ Stored s.db leaseId ∧ ¬Stored s'.db leaseId)
    (hminted : ∀ id, n.minted = some id → (notes i).minted = some id)
    (hsound : Sound (requests i) n) : Settled requests s' (Function.update notes i n) := by
  have hlost' : ∀ j leaseId, (Function.update notes i n j).Lost leaseId →
      (notes j).Lost leaseId ∨ j = i ∧ Stored s.db leaseId ∧ ¬Stored s'.db leaseId := by
    intro j leaseId hj
    by_cases heq : j = i
    . subst heq
      rw [Function.update_self] at hj
      cases hlost leaseId hj with
      | inl hold => exact .inl hold
      | inr hnew => exact .inr ⟨rfl, hnew⟩
    . rw [Function.update_of_ne heq] at hj
      exact .inl hj
  have hminted' : ∀ j id, (Function.update notes i n j).minted = some id →
      (notes j).minted = some id := by
    intro j id hj
    by_cases heq : j = i
    . subst heq
      rw [Function.update_self] at hj
      exact hminted id hj
    . rw [Function.update_of_ne heq] at hj
      exact hj
  refine ⟨hschema, hgranted, ?_, ?_, ?_, ?_, ?_, ?_⟩
  . intro leaseId hleaseId
    have := h.fresh leaseId (hstored leaseId hleaseId)
    omega
  . intro j leaseId hj
    rcases hlost' j leaseId hj with hold | ⟨_, hin, hout⟩
    . have ⟨hlt, hnot⟩ := h.lost j leaseId hold
      exact ⟨by omega, fun hin => hnot (hstored leaseId hin)⟩
    . have := h.fresh leaseId hin
      exact ⟨by omega, hout⟩
  . intro j k leaseId hj hk
    rcases hlost' j leaseId hj with hold | ⟨hji, hin, _⟩
    . rcases hlost' k leaseId hk with hold' | ⟨_, hin, _⟩
      . exact h.unique j k leaseId hold hold'
      . exact absurd hold (h.not_lost hin)
    . rcases hlost' k leaseId hk with hold' | ⟨hki, _, _⟩
      . exact absurd hold' (h.not_lost hin)
      . rw [hji, hki]
  . intro j id hj
    have ⟨hlt, hnot, hnone⟩ := h.minted j id (hminted' j id hj)
    refine ⟨by omega, fun hin => hnot (hstored _ hin), ?_⟩
    intro k hk
    rcases hlost' k _ hk with hold | ⟨_, hin, _⟩
    . exact hnone k hold
    . exact hnot hin
  . intro j k id hj hk
    exact h.mintedOnce j k id (hminted' j id hj) (hminted' k id hk)
  . exact h.sound_update hsound

theorem stored_exec {c : Call} {env : Env} {db : DB} {leaseId : LeaseId} (hc : c.savedLease = none)
    (h : Stored (c.exec env db).2 leaseId) : Stored db leaseId := by
  have ⟨lease, hlease, hid⟩ := h
  cases (Call.writes_exec env db c).mem_leases hlease with
  | inl hsaved =>
    rw [hsaved] at hc
    contradiction
  | inr hold =>
    have ⟨old, hmem, hold, _⟩ := hold
    exact ⟨old, hmem, hold.trans hid⟩

theorem Settled.exec (h : Settled requests s notes) {i : ι} {c : Call} {env : Env} {n : Note}
    (hc : c.savedLease = none)
    (hlost : ∀ leaseId, n.Lost leaseId →
      (notes i).Lost leaseId ∨ Stored s.db leaseId ∧ ¬Stored (c.exec env s.db).2 leaseId)
    (hminted : ∀ id, n.minted = some id → (notes i).minted = some id)
    (hsound : Sound (requests i) n)
    : Settled requests (audited.exec c env s).2 (Function.update notes i n) := by
  have hschema := h.schema.exec c env
  apply h.move
  . exact hschema
  . intro lease hlease
    exact granted_of_mem hschema s.granted hlease
  . exact (Call.writes_exec env s.db c).nextId_le
  . intro leaseId
    exact stored_exec hc
  . exact hlost
  . exact hminted
  . exact hsound

theorem Sound.minting {request : Request} {n : Note} (h : Sound request n) {minted : Option Nat}
    : Sound request { n with minted := minted } :=
  ⟨h.lease, h.job, h.done, h.once, h.tick, h.present⟩

theorem lost_of_minting {i j : ι} {minted : Option Nat} {leaseId : LeaseId}
    (h : (Function.update notes i { notes i with minted := minted } j).Lost leaseId)
    : (notes j).Lost leaseId := by
  by_cases heq : j = i
  . subst heq
    rw [Function.update_self] at h
    exact h
  . rw [Function.update_of_ne heq] at h
    exact h

theorem Settled.mint (h : Settled requests s notes) (i : ι) (env : Env)
    : Settled requests (audited.exec .uuid4 env s).2
        (Function.update notes i { notes i with minted := some s.db.nextId }) := by
  have hschema : Schema { s.db with nextId := s.db.nextId + 1 } := h.schema.congr rfl rfl rfl rfl
  have hminted : ∀ j id,
      (Function.update notes i { notes i with minted := some s.db.nextId } j).minted = some id →
      j = i ∧ id = s.db.nextId ∨ j ≠ i ∧ (notes j).minted = some id := by
    intro j id hj
    by_cases heq : j = i
    . subst heq
      rw [Function.update_self] at hj
      injection hj with hj
      exact .inl ⟨rfl, hj.symm⟩
    . rw [Function.update_of_ne heq] at hj
      exact .inr ⟨heq, hj⟩
  refine ⟨hschema, ?_, ?_, ?_, ?_, ?_, ?_, ?_⟩
  . intro lease hlease
    exact granted_of_mem hschema s.granted hlease
  . intro leaseId hleaseId
    exact Nat.lt_succ_of_lt (h.fresh leaseId hleaseId)
  . intro j leaseId hj
    have ⟨hlt, hnot⟩ := h.lost j leaseId (lost_of_minting hj)
    exact ⟨Nat.lt_succ_of_lt hlt, hnot⟩
  . intro j k leaseId hj hk
    exact h.unique j k leaseId (lost_of_minting hj) (lost_of_minting hk)
  . intro j id hj
    rcases hminted j id hj with ⟨_, rfl⟩ | ⟨_, hold⟩
    . refine ⟨Nat.lt_succ_self _, ?_, ?_⟩
      . intro hin
        exact Nat.lt_irrefl _ (h.fresh _ hin)
      . intro k hk
        exact Nat.lt_irrefl _ (h.lost k _ (lost_of_minting hk)).left
    . have ⟨hlt, hnot, hnone⟩ := h.minted j id hold
      exact ⟨Nat.lt_succ_of_lt hlt, hnot, fun k hk => hnone k (lost_of_minting hk)⟩
  . intro j k id hj hk
    rcases hminted j id hj with ⟨hji, hid⟩ | ⟨_, hold⟩
    . rcases hminted k id hk with ⟨hki, _⟩ | ⟨_, hold'⟩
      . rw [hji, hki]
      . have := (h.minted k id hold').left
        omega
    . rcases hminted k id hk with ⟨_, hid⟩ | ⟨_, hold'⟩
      . have := (h.minted j id hold).left
        omega
      . exact h.mintedOnce j k id hold hold'
  . exact h.sound_update (h.sound i).minting

theorem Settled.grant (h : Settled requests s notes) {i : ι} {env : Env} {lease : Lease}
    (hminted : (notes i).minted = some lease.id.value)
    : Settled requests (audited.exec (.saveLease lease) env s).2
        (Function.update notes i { notes i with minted := none }) := by
  have hstored : ∀ leaseId, Stored ((Call.saveLease lease).exec env s.db).2 leaseId →
      leaseId = lease.id ∨ Stored s.db leaseId := by
    intro leaseId ⟨other, hother, hid⟩
    cases (Call.writes_exec env s.db (.saveLease lease)).mem_leases hother with
    | inl heq =>
      injection heq with heq
      rw [← hid, heq]
      exact .inl rfl
    | inr hold =>
      have ⟨old, hmem, hold, _⟩ := hold
      exact .inr ⟨old, hmem, hold.trans hid⟩
  have hid := (Call.writes_exec env s.db (.saveLease lease)).nextId_le
  have hschema := h.schema.exec (.saveLease lease) env
  have ⟨hlt, _, hnone⟩ := h.minted i _ hminted
  have hother : ∀ j id,
      (Function.update notes i { notes i with minted := none } j).minted = some id →
      j ≠ i ∧ (notes j).minted = some id := by
    intro j id hj
    by_cases heq : j = i
    . subst heq
      rw [Function.update_self] at hj
      contradiction
    . rw [Function.update_of_ne heq] at hj
      exact ⟨heq, hj⟩
  refine ⟨hschema, ?_, ?_, ?_, ?_, ?_, ?_, ?_⟩
  . intro lease hlease
    exact granted_of_mem hschema s.granted hlease
  . intro leaseId hleaseId
    rcases hstored leaseId hleaseId with rfl | hold
    . exact Nat.lt_of_lt_of_le hlt hid
    . exact Nat.lt_of_lt_of_le (h.fresh leaseId hold) hid
  . intro j leaseId hj
    have ⟨hlt, hnot⟩ := h.lost j leaseId (lost_of_minting hj)
    refine ⟨Nat.lt_of_lt_of_le hlt hid, ?_⟩
    intro hin
    rcases hstored leaseId hin with rfl | hold
    . exact hnone j (lost_of_minting hj)
    . exact hnot hold
  . intro j k leaseId hj hk
    exact h.unique j k leaseId (lost_of_minting hj) (lost_of_minting hk)
  . intro j id hj
    have ⟨hne, hold⟩ := hother j id hj
    have ⟨hlt, hnot, hnone⟩ := h.minted j id hold
    refine ⟨Nat.lt_of_lt_of_le hlt hid, ?_, fun k hk => hnone k (lost_of_minting hk)⟩
    intro hin
    rcases hstored _ hin with heq | hold'
    . apply hne
      apply h.mintedOnce j i id hold
      rw [hminted, ← heq]
    . exact hnot hold'
  . intro j k id hj hk
    exact h.mintedOnce j k id (hother j id hj).right (hother k id hk).right
  . exact h.sound_update (h.sound i).minting

section note

variable {request : Request} {n : Note} {effect : Effect}

theorem Note.perform_of_none (h : n.loss = none) : n.perform effect = n := by
  unfold Note.perform
  rw [h]

theorem Note.perform_of_loss {loss : Loss} (h : n.loss = some loss)
    : n.perform effect
        =
      { n with
        loss := some { loss with done := effect :: loss.done }
        effects := (loss.leaseId.toList.map (·, effect)) ++ n.effects } := by
  unfold Note.perform
  rw [h]

theorem Note.lost_perform {leaseId : LeaseId} (h : (n.perform effect).Lost leaseId)
    : n.Lost leaseId := by
  cases hloss : n.loss with
  | none =>
    rw [perform_of_none hloss] at h
    exact h
  | some loss =>
    rw [perform_of_loss hloss] at h
    rcases h with ⟨loss', hloss', hlease⟩ | ⟨effect', hmem⟩
    . injection hloss' with hloss'
      rw [← hloss'] at hlease
      exact .inl ⟨loss, hloss, hlease⟩
    . rw [List.mem_append, List.mem_map] at hmem
      rcases hmem with ⟨leaseId', hlease, heq⟩ | hmem
      . injection heq with heq
        subst heq
        exact .inl ⟨loss, hloss, Option.mem_toList.mp hlease⟩
      . exact .inr ⟨effect', hmem⟩

theorem Sound.perform (h : Sound request n) {loss : Loss} (hloss : n.loss = some loss)
    (hdone : effect ∉ loss.done) : Sound request (n.perform effect) := by
  have ⟨leaseId, hlease⟩ := h.lease loss hloss
  rw [Note.perform_of_loss hloss, hlease]
  refine ⟨?_, ?_, ?_, ?_, ?_, h.present⟩
  . intro loss' hloss'
    injection hloss' with hloss'
    rw [← hloss']
    exact ⟨leaseId, rfl⟩
  . intro loss' hloss' jobId hjobId
    injection hloss' with hloss'
    rw [← hloss']
    exact h.job loss hloss jobId hjobId
  . intro loss' leaseId' effect' hloss' hlease' hmem
    injection hloss' with hloss'
    subst hloss'
    injection hlease' with hlease'
    subst hlease'
    simp only [Option.toList_some, List.map_cons, List.map_nil, List.cons_append, List.nil_append,
      List.mem_cons, Prod.mk.injEq, true_and] at hmem
    rw [List.mem_cons]
    exact hmem.imp id (h.done loss leaseId effect' hloss hlease)
  . simp only [Option.toList_some, List.map_cons, List.map_nil, List.cons_append, List.nil_append,
      List.nodup_cons]
    exact ⟨fun hmem => hdone (h.done loss leaseId effect hloss hlease hmem), h.once⟩
  . intro htick
    rw [h.tick htick] at hloss
    contradiction

end note

theorem not_stored_filter {db : DB} {p : Lease → Bool} {lease : Lease} (hlease : lease ∈ db.leases.rows)
    (hp : p lease = false) : ¬Stored { db with leases := db.leases.filter p } lease.id := by
  intro ⟨other, hother, hid⟩
  have ⟨hmem, hother⟩ := List.mem_filter.mp hother
  rw [db.leases.eq_of_key_eq hmem hlease hid, hp] at hother
  contradiction

theorem Settled.remove (h : Settled requests s notes) {i : ι} {c : Call} {env : Env} {lease : Lease}
    (hc : c.savedLease = none) (hlease : lease ∈ s.db.leases.rows)
    (hgone : ¬Stored (c.exec env s.db).2 lease.id)
    (hjob : ∀ jobId ∈ reportedJob (requests i), lease.jobId = jobId)
    (htick : isTick (requests i) = false)
    : Settled requests (audited.exec c env s).2
        (Function.update notes i
          { notes i with loss := some ⟨lease.jobId, s.granted lease.jobId, []⟩ }) := by
  have hstored : Stored s.db lease.id := ⟨lease, hlease, rfl⟩
  have hsound := h.sound i
  rw [h.granted lease hlease]
  apply h.exec hc
  . intro leaseId hlost
    rcases hlost with ⟨loss, hloss, hleaseId⟩ | heffects
    . injection hloss with hloss
      rw [← hloss] at hleaseId
      injection hleaseId with hleaseId
      rw [← hleaseId]
      exact .inr ⟨hstored, hgone⟩
    . exact .inl (.inr heffects)
  . exact fun _ hminted => hminted
  . refine ⟨?_, ?_, ?_, hsound.once, ?_, hsound.present⟩
    . intro loss hloss
      injection hloss with hloss
      rw [← hloss]
      exact ⟨lease.id, rfl⟩
    . intro loss hloss
      injection hloss with hloss
      rw [← hloss]
      exact hjob
    . intro loss leaseId effect hloss hleaseId hmem
      injection hloss with hloss
      rw [← hloss] at hleaseId
      injection hleaseId with hleaseId
      rw [← hleaseId] at hmem
      exact absurd (.inr ⟨effect, hmem⟩) (h.not_lost (i := i) hstored)
    . intro htick'
      rw [htick] at htick'
      contradiction

theorem Settled.forget (h : Settled requests s notes) {i : ι} {c : Call} {env : Env} {absent : Bool}
    (hc : c.savedLease = none) (habsent : isTick (requests i) = false → absent = false)
    : Settled requests (audited.exec c env s).2
        (Function.update notes i { notes i with loss := none, absent := absent }) := by
  apply h.exec hc
  . intro leaseId hlost
    rcases hlost with ⟨loss, hloss, _⟩ | heffects
    . contradiction
    . exact .inl (.inr heffects)
  . exact fun _ hminted => hminted
  . refine ⟨?_, ?_, ?_, (h.sound i).once, fun _ => rfl, habsent⟩
    . intro loss hloss
      contradiction
    . intro loss hloss
      contradiction
    . intro loss leaseId effect hloss
      contradiction

theorem Settled.stay (h : Settled requests s notes) {i : ι} {c : Call} {env : Env}
    (hc : c.savedLease = none)
    : Settled requests (audited.exec c env s).2 (Function.update notes i (notes i)) :=
  h.exec hc (fun _ hlost => .inl hlost) (fun _ hminted => hminted) (h.sound i)

theorem Settled.perform (h : Settled requests s notes) {i : ι} {c : Call} {env : Env} {effect : Effect}
    (hc : c.savedLease = none)
    (hguard : isTick (requests i) ∨ ∃ loss, (notes i).loss = some loss ∧ effect ∉ loss.done)
    : Settled requests (audited.exec c env s).2
        (Function.update notes i ((notes i).perform effect)) := by
  rcases hguard with htick | ⟨loss, hloss, hdone⟩
  . rw [Note.perform_of_none ((h.sound i).tick htick)]
    exact h.stay hc
  . apply h.exec hc
    . exact fun _ hlost => .inl (Note.lost_perform hlost)
    . intro id hminted
      rw [Note.perform_of_loss hloss] at hminted
      exact hminted
    . exact (h.sound i).perform hloss hdone

theorem Settled.step (h : Settled requests s notes) {i : ι} {c : Call} {env : Env}
    (hguard : keeps (requests i) (notes i) c) (hcall : findsLease requests s notes i c)
    : Settled requests (audited.exec c env s).2
        (Function.update notes i (audited.note c env s (notes i))) := by
  cases c with
  | uuid4 => exact h.mint i env
  | saveLease lease => exact h.grant hguard
  | getLeaseByJob job tenant =>
    apply h.forget rfl
    intro htick
    have hsought : (job, tenant) ∈ soughtLease (requests i) (.getLeaseByJob job tenant) := by
      simp [soughtLease, htick]
    obtain ⟨⟨lease, hlease, hmatch⟩, _⟩ := hcall (job, tenant) hsought
    cases hfound : PostgresLeaseRepository.getByJobId s.db job tenant with
    | none => exact absurd hmatch (PostgresLeaseRepository.getByJobId_eq_none hfound lease hlease)
    | some _ => rfl
  | deleteLease job tenant =>
    obtain ⟨⟨lease, hlease, hjob, htenant⟩, hreported⟩ := hcall (job, tenant) rfl
    dsimp only at hjob htenant hreported
    subst hjob
    apply h.remove rfl hlease
    . apply not_stored_filter hlease
      simp [htenant]
    . exact hreported
    . exact hguard
  | deleteLeaseIfExpired job tenant =>
    dsimp only [audited]
    split
    . next hexpired =>
      rw [PostgresLeaseRepository.deleteIfExpired_eq_true_iff] at hexpired
      obtain ⟨lease, hlease, hjob, htenant, hpast⟩ := hexpired
      subst hjob
      apply h.remove rfl hlease
      . apply not_stored_filter hlease
        simp [PostgresLeaseRepository.deletable, htenant, hpast]
      . rw [hguard.right]
        intro jobId hjobId
        contradiction
      . exact hguard.left
    . exact h.forget rfl (h.sound i).present
  | saveNode node => exact h.perform rfl hguard
  | saveJob job =>
    apply h.perform rfl
    apply hguard.imp id
    rintro ⟨loss, hloss, hdone, _⟩
    exact ⟨loss, hloss, hdone⟩
  | renewLease id duration tenant => contradiction
  | deleteNode id tenant => contradiction
  | _ => exact h.stay rfl

section programs

variable {request : Request} {n : Note} {H : Audited × Env → Prop} {jobId : JobId}
variable {todo todo' : List Effect}

def Acts (n : Note) (jobId : JobId) (todo : List Effect) : Prop :=
  ∃ loss, n.loss = some loss ∧ loss.jobId = jobId ∧ ∀ effect ∈ todo, effect ∉ loss.done

theorem Acts.mono (h : Acts n jobId todo) (htodo : todo' ⊆ todo) : Acts n jobId todo' := by
  have ⟨loss, hloss, hjob, hdone⟩ := h
  exact ⟨loss, hloss, hjob, fun effect heffect => hdone effect (htodo heffect)⟩

theorem Acts.perform {effect : Effect} (h : Acts n jobId todo) (htodo : todo' ⊆ todo)
    (heffect : effect ∉ todo') : Acts (n.perform effect) jobId todo' := by
  have ⟨loss, hloss, hjob, hdone⟩ := h
  rw [Note.perform_of_loss hloss]
  refine ⟨_, rfl, hjob, ?_⟩
  intro other hother hmem
  cases List.mem_cons.mp hmem with
  | inl heq =>
    rw [heq] at hother
    contradiction
  | inr hmem => exact hdone other (htodo hother) hmem

theorem Acts.exists_loss (h : Acts n jobId todo) : ∃ loss, n.loss = some loss :=
  have ⟨loss, hloss, _⟩ := h
  ⟨loss, hloss⟩

variable {Q : Except Err Unit → Note → Prop}

theorem wp_saveNode {node : Node} (h : Acts n jobId [.nodeReleased, .jobSaved])
    (hQ : ∀ r n', Acts n' jobId [.jobSaved] → Q r n')
    : wp audited.view H (keeps request) (NodeRepository.save node) Q n := by
  have ⟨loss, hloss, _, hdone⟩ := h
  refine ⟨.inr ⟨loss, hloss, hdone _ List.mem_cons_self⟩, ?_⟩
  intro x _
  rw [wp_ofExcept]
  apply hQ
  exact h.perform (by simp) (by simp)

theorem wp_saveJob {job : Job} (h : Acts n jobId [.jobSaved])
    (hjob : job.id = (reportedJob request).getD jobId) (hQ : ∀ r n', Acts n' jobId [] → Q r n')
    : wp audited.view H (keeps request) (JobRepository.save job) Q n := by
  have ⟨loss, hloss, hloss', hdone⟩ := h
  refine ⟨.inr ⟨loss, hloss, hdone _ List.mem_cons_self, by rw [hloss', hjob]⟩, ?_⟩
  intro x _
  rw [wp_ofExcept]
  apply hQ
  exact h.perform (by simp) (by simp)

theorem wp_saveWorker {worker : Worker}
    (h : isTick request ∨ isRegistration request ∨ n.absent ∨ ∃ loss, n.loss = some loss)
    (hQ : ∀ r, Q r n)
    : wp audited.view H (keeps request) (WorkerRepository.save worker) Q n := by
  refine ⟨h, ?_⟩
  intro x _
  rw [wp_ofExcept]
  apply hQ

theorem wp_recordForJob {job : Job} {type : EventType}
    (h : isTick request ∨ ∃ loss, n.loss = some loss) (hQ : ∀ r, Q r n)
    : wp audited.view H (keeps request) (RecordJobEventsService.recordForJob job type) Q n := by
  refine ⟨h, ?_⟩
  intro x _
  rw [wp_ofExcept]
  apply hQ

theorem wp_releaseNode {job : Job} {tenantId : TenantId} (h : Acts n jobId [.nodeReleased, .jobSaved])
    (hQ : ∀ r n', Acts n' jobId [.jobSaved] → Q r n')
    : wp audited.view H (keeps request) (releaseNode job tenantId) Q n := by
  have hnothing : Q (.ok ()) n := hQ _ _ (h.mono (by simp))
  unfold releaseNode
  split
  . exact hnothing
  . apply Watched.wp_view_read trivial (fun _ _ => rfl)
    intro s env _ node _
    cases node with
    | none => exact hnothing
    | some node => exact wp_saveNode h hQ

theorem wp_releaseLease {workerId : WorkerId} {leaseId : LeaseId} {tenantId : TenantId}
    (hrequest : isTick request = false)
    (hQ : ∀ r n', (r = .ok () → ∃ jobId, Acts n' jobId [.nodeReleased, .jobSaved]) → Q r n')
    : wp audited.view H (keeps request) (releaseLease workerId leaseId tenantId) Q n := by
  have herror : ∀ e n', Q (.error e) n' := by
    intro e n'
    apply hQ
    intro h
    contradiction
  unfold releaseLease
  apply Watched.wp_view_read trivial (fun _ _ => rfl)
  intro s env _ lease _
  cases lease with
  | none => exact herror _ _
  | some lease =>
    dsimp only
    split
    . exact herror _ _
    . apply Watched.wp_view_read trivial (fun _ _ => rfl)
      intro s env _ worker _
      cases worker with
      | none => exact herror _ _
      | some worker =>
        apply Watched.wp_view_read trivial (fun _ _ => rfl)
        intro s env _ job _
        cases job with
        | none => exact herror _ _
        | some job =>
          apply Watched.wp_view_perform_bind hrequest
          intro s env _ _ n' _ hn'
          have hacts : Acts n' lease.jobId [.nodeReleased, .jobSaved] := by
            rw [← hn']
            exact ⟨_, rfl, rfl, by simp⟩
          apply wp_recordForJob (.inr hacts.exists_loss)
          intro r
          apply hQ
          intro _
          exact ⟨lease.jobId, hacts⟩

theorem wp_report (outcome : ReportJobOutcome.Outcome) (workerId : WorkerId) (jobId : JobId)
    (tenantId : TenantId) (leaseId : LeaseId) (exitCode : Option Int)
    (hrequest : request = .service (.report outcome workerId jobId tenantId leaseId exitCode))
    : wp audited.view H (keeps request)
        (ReportJobOutcome.report outcome workerId jobId tenantId leaseId exitCode)
        (fun _ _ => True) n := by
  have htick : isTick request = false := by
    rw [hrequest]
    rfl
  apply view_report
  . trivial
  . exact fun _ => trivial
  . exact fun _ _ _ => rfl
  . exact fun _ _ _ => trivial
  . intro s env _ worker job job' next _ _ hid hmoves _ _
    unfold ReportJobOutcome.finish
    have herror : ∀ (e : Err) (n' : Note), True := fun _ _ => trivial
    apply wp_seq herror
    apply wp_releaseLease htick
    rintro r n' hacts a rfl
    have ⟨lostJob, hacts⟩ := hacts rfl
    apply wp_seq herror
    apply wp_saveWorker (.inr (.inr (.inr hacts.exists_loss)))
    rintro r a rfl
    apply wp_seq herror
    apply wp_releaseNode hacts
    rintro r n' hacts a rfl
    apply wp_seq herror
    apply wp_saveJob hacts
    . rw [hmoves.id, hid, hrequest]
      rfl
    . rintro r n' hacts a rfl
      apply wp_seq herror
      apply wp_recordForJob (.inr hacts.exists_loss)
      exact fun _ _ _ => trivial

theorem wp_reclaimJob {job : Job} {node : Option Node} {leaseAlreadyDeleted : Bool}
    {Q : Except Err Bool → Note → Prop} (hrequest : isTick request = false)
    (hreported : reportedJob request = none)
    (hacts : leaseAlreadyDeleted = true → Acts n job.id [.nodeReleased, .jobSaved])
    (hok : ∀ reclaimed n', Acts n' job.id [] → Q (.ok reclaimed) n')
    (herror : ∀ e n', Q (.error e) n')
    : wp audited.view H (keeps request) (reclaimJob job node leaseAlreadyDeleted) Q n := by
  apply view_reclaimJob (Acts · job.id [.nodeReleased, .jobSaved]) (Acts · job.id [.jobSaved]) hacts
  . intro _
    exact ⟨hrequest, fun _ _ => ⟨_, rfl, rfl, by simp⟩⟩
  . intro n h
    exact h.mono (by simp)
  . intro n node h
    have ⟨loss, hloss, _, hdone⟩ := h
    refine ⟨.inr ⟨loss, hloss, hdone _ List.mem_cons_self⟩, ?_⟩
    intro s env
    exact h.perform (by simp) (by simp)
  . exact fun _ => trivial
  . exact fun _ _ _ => rfl
  . intro n now job' h hrun
    have ⟨loss, hloss, hjob, hdone⟩ := h
    have ⟨next, _, hmoves⟩ := Job.reclaim_moves hrun
    refine ⟨.inr ⟨loss, hloss, hdone _ List.mem_cons_self, ?_⟩, ?_⟩
    . rw [hreported, Option.getD_none, hjob, hmoves.id]
    . intro s env
      apply hok
      exact h.perform (by simp) (by simp)
  . intro n h
    exact hok _ _ (h.mono (by simp))
  . exact herror

theorem wp_deleteIfExpired {α : Type} {f : Bool → Service α} {tenantId : TenantId}
    {Q : Except Err α → Note → Prop} (hrequest : isTick request = false)
    (hreported : reportedJob request = none) (hkept : ∀ n, wp audited.view H (keeps request) (f false) Q n)
    (hremoved : ∀ n, Acts n jobId [.nodeReleased, .jobSaved] →
      wp audited.view H (keeps request) (f true) Q n)
    : wp audited.view H (keeps request) (LeaseRepository.deleteIfExpired jobId tenantId >>= f) Q n := by
  apply Watched.wp_view_perform_bind ⟨hrequest, hreported⟩
  intro s env _ answer n' hanswer hn'
  cases answer with
  | false => exact hkept n'
  | true =>
    apply hremoved
    have hloss : n'.loss = some ⟨jobId, s.granted jobId, []⟩ := by
      rw [← hn']
      exact congrArg Note.loss (if_pos hanswer)
    exact ⟨_, hloss, rfl, by simp⟩

theorem wp_reclaimRecord {job : Job} {node : Option Node} {leaseAlreadyDeleted : Bool} {type : EventType}
    (hrequest : isTick request = false) (hreported : reportedJob request = none)
    (hacts : leaseAlreadyDeleted = true → Acts n job.id [.nodeReleased, .jobSaved])
    : wp audited.view H (keeps request)
        (do
          let reclaimed ← reclaimJob job node leaseAlreadyDeleted
          if reclaimed then
            RecordJobEventsService.recordForJob job type) (fun _ _ => True) n := by
  rw [wp_bind]
  apply wp_reclaimJob hrequest hreported hacts
  . intro reclaimed n' hacts
    cases reclaimed with
    | false => trivial
    | true => exact wp_recordForJob (.inr hacts.exists_loss) (fun _ => trivial)
  . exact fun _ _ => trivial

theorem wp_recoverWorker {worker : Option Worker} (h : ∃ loss, n.loss = some loss) (hQ : ∀ r, Q r n)
    : wp audited.view H (keeps request) (RecoverExpiredLease.recoverWorker worker) Q n := by
  unfold RecoverExpiredLease.recoverWorker
  cases worker with
  | none => exact hQ _
  | some worker => exact wp_saveWorker (.inr (.inr (.inr h))) hQ

theorem wp_recoverExpired {lease : Lease} (hrequest : isTick request = false)
    (hreported : reportedJob request = none)
    : Always audited.view H (keeps request) (RecoverExpiredLease.recover lease) := by
  intro n
  have herror : ∀ (e : Err) (n' : Note), True := fun _ _ => trivial
  unfold RecoverExpiredLease.recover
  apply Watched.wp_view_read trivial (fun _ _ => rfl)
  intro s env _ now _
  split
  . trivial
  . apply wp_deleteIfExpired hrequest hreported
    . exact fun _ => trivial
    . intro n hacts
      apply Watched.wp_view_read trivial (fun _ _ => rfl)
      intro s env _ worker _
      apply Watched.wp_view_read trivial (fun _ _ => rfl)
      intro s env _ answer hanswer
      cases answer with
      | none => exact wp_recoverWorker hacts.exists_loss (fun _ => trivial)
      | some job =>
        have ⟨hget, _⟩ := PostgresJobRepository.getById_eq_some hanswer
        have hid : job.id = lease.jobId := Table.key_of_get? hget
        apply wp_seq herror
        apply wp_recoverWorker hacts.exists_loss
        rintro r a rfl
        unfold RecoverExpiredLease.reclaim RecoverExpiredLease.findNode
        rw [← hid] at hacts
        cases job.assignedNodeId with
        | none => exact wp_reclaimRecord hrequest hreported (fun _ => hacts)
        | some nodeId =>
          apply Watched.wp_view_read trivial (fun _ _ => rfl)
          intro s env _ node _
          exact wp_reclaimRecord hrequest hreported (fun _ => hacts)

theorem wp_reclaimOffline {worker : Worker} {job : Job} {leaseAlreadyDeleted : Bool}
    (hrequest : isTick request = false) (hreported : reportedJob request = none)
    (hworker : n.absent ∨ ∃ loss, n.loss = some loss)
    (hacts : leaseAlreadyDeleted = true → Acts n job.id [.nodeReleased, .jobSaved])
    : wp audited.view H (keeps request) (RecoverOfflineNode.reclaim worker job leaseAlreadyDeleted)
        (fun _ _ => True) n := by
  unfold RecoverOfflineNode.reclaim
  apply wp_seq (fun _ _ => trivial)
  apply wp_saveWorker (.inr (.inr hworker))
  rintro r a rfl
  exact wp_reclaimRecord hrequest hreported hacts

theorem wp_recoverOffline {offlineNodeIds : List NodeId} {worker : Worker}
    (hrequest : isTick request = false) (hreported : reportedJob request = none)
    : Always audited.view H (keeps request) (RecoverOfflineNode.recover offlineNodeIds worker) := by
  intro n
  unfold RecoverOfflineNode.recover
  split
  . trivial
  . cases worker.runningJob with
    | none => trivial
    | some job =>
      apply Watched.wp_view_perform_bind trivial
      intro s env _ answer n' hanswer hn'
      cases answer with
      | none =>
        have habsent : n'.absent := by
          rw [← hn']
          exact Option.isNone_iff_eq_none.mpr hanswer
        exact wp_reclaimOffline hrequest hreported (.inl habsent) (fun h => by contradiction)
      | some lease =>
        apply Watched.wp_view_read trivial (fun _ _ => rfl)
        intro s env _ now _
        split
        . trivial
        . apply wp_deleteIfExpired hrequest hreported
          . exact fun _ => trivial
          . intro n hacts
            exact wp_reclaimOffline hrequest hreported (.inr hacts.exists_loss) (fun _ => hacts)

theorem wp_createWorker {node : Node} {managedBy : WorkerManagement} (hrequest : isRegistration request)
    (htick : isTick request = false) (hreported : reportedJob request = none)
    : Always audited.view H (keeps request) (createWorker node managedBy) := by
  intro n
  have herror : ∀ (e : Err) (n' : Note), True := fun _ _ => trivial
  unfold createWorker
  apply Watched.wp_view_read trivial (fun _ _ => rfl)
  intro s env _ answer _
  cases answer with
  | none =>
    apply Watched.wp_view_perform_bind trivial
    intro s env _ id n' _ _
    apply Watched.wp_view_read trivial (fun _ _ => rfl)
    intro s env _ now _
    apply wp_seq herror
    apply wp_saveWorker (.inr (.inl hrequest))
    exact fun _ _ _ => trivial
  | some existing =>
    dsimp only
    have hsave : ∀ (existing : Worker) n, wp audited.view H (keeps request)
        (do
          WorkerRepository.save existing
          return existing) (fun _ _ => True) n := by
      intro existing n
      apply wp_seq herror
      apply wp_saveWorker (.inr (.inl hrequest))
      exact fun _ _ _ => trivial
    cases existing.runningJob with
    | none => exact hsave _ n
    | some job =>
      dsimp only
      rw [wp_bind]
      apply wp_reclaimJob htick hreported
      . intro h
        contradiction
      . intro _ n' _
        exact hsave _ n'
      . exact fun _ _ => trivial

theorem wp_postWorkers {nodeId : NodeId} {tenantId : TenantId} {managedBy : WorkerManagement}
    (hrequest : isRegistration request) (htick : isTick request = false)
    (hreported : reportedJob request = none)
    : Always audited.view H (keeps request) (postWorkers nodeId tenantId managedBy) := by
  unfold postWorkers
  apply Always.bind (.perform (fun _ => trivial))
  intro answer
  cases answer with
  | none => exact .raise _
  | some node =>
    apply Always.bind (wp_createWorker hrequest htick hreported)
    intro worker n
    unfold registerWorker
    apply wp_seq (fun _ _ => trivial)
    apply wp_saveWorker (.inr (.inl hrequest))
    rintro r a rfl
    apply Watched.wp_view_read trivial (fun _ _ => rfl)
    intro s env _ answer _
    cases answer with
    | none => trivial
    | some _ => trivial

theorem keeps_ofTick (hrequest : isTick request) (n : Note) (c : Call) (hc : c.ofTick)
    : keeps request n c := by
  cases c with
  | saveNode _ => exact .inl hrequest
  | saveJob _ => exact .inl hrequest
  | saveWorker _ => contradiction
  | saveEvent _ _ _ => exact .inl hrequest
  | saveLease _ => contradiction
  | deleteLease _ _ => contradiction
  | deleteLeaseIfExpired _ _ => contradiction
  | renewLease _ _ _ => contradiction
  | deleteNode _ _ => contradiction
  | _ => trivial

theorem always_acquireLease (hrequest : isTick request) (worker : Worker) (job : Job)
    : Always audited.view H (keeps request) (acquireLease worker job) := by
  intro n
  unfold acquireLease
  split
  . trivial
  . apply Watched.wp_view_perform_bind trivial
    intro s env _ answer n' _ _
    cases answer with
    | some _ => trivial
    | none =>
      apply Watched.wp_view_read trivial (fun _ _ => rfl)
      intro s env _ now _
      apply Watched.wp_view_perform_bind trivial
      intro s env _ id n'' hid hn''
      have hminted : n''.minted = some id := by
        rw [← hn'', ← hid]
        rfl
      apply wp_seq (fun _ _ => trivial)
      refine ⟨hminted, ?_⟩
      intro x _
      rw [wp_ofExcept]
      intro _ _
      apply wp_seq (fun _ _ => trivial)
      apply wp_recordForJob (.inl hrequest)
      exact fun _ _ _ => trivial

end programs

theorem always_run {H : Audited × Env → Prop} {request : Request} (hrequest : contends request)
    : Always audited.view H (keeps request) request.run := by
  cases request with
  | releaseLease worker lease tenant => contradiction
  | execution worker renewals result => contradiction
  | service served =>
    cases served with
    | report outcome worker job tenant lease exitCode =>
      apply Always.map
      intro n
      exact wp_report outcome worker job tenant lease exitCode rfl
    | recoverExpiredLeases =>
      apply Always.bind (.perform (fun _ => trivial))
      intro leases
      apply Always.forM
      intro lease
      exact wp_recoverExpired rfl rfl
    | recoverOfflineNodes =>
      apply Always.bind (.perform (fun _ => trivial))
      intro nodes
      apply Always.bind (.perform (fun _ => trivial))
      intro now
      dsimp only
      split
      . exact .pure _
      . apply Always.bind (.perform (fun _ => trivial))
        intro workers
        apply Always.forM
        intro worker
        exact wp_recoverOffline rfl rfl
    | postWorkers node tenant managedBy =>
      apply Always.map
      exact wp_postWorkers rfl rfl rfl
    | schedulerTick =>
      apply always_schedulerTick (keeps_ofTick rfl)
      exact always_assignWorker (keeps_ofTick rfl) (always_acquireLease rfl) (fun _ _ => .inl rfl)
    | _ => contradiction

def protocol (requests : ι → Request) : Protocol audited (findsLease requests) where
  inv := Settled requests
  met _ := True
  guard i := keeps (requests i)
  hmet _ _ _ _ := trivial
  hstep _ _ _ _ _ h hguard hcall := h.step hguard hcall

theorem holds_pending {db : DB} (hschema : Schema db)
    (hfresh : ∀ lease ∈ db.leases.rows, lease.id.value < db.nextId)
    (hrequests : ∀ i, contends (requests i))
    : (protocol requests).Holds (fun _ _ _ => True) (pending requests (audit db) {}) := by
  have hlost : ∀ leaseId, ¬Note.Lost {} leaseId := by
    intro leaseId hlost
    rcases hlost with ⟨_, hloss, _⟩ | ⟨_, hmem⟩
    . contradiction
    . contradiction
  refine ⟨?_, ?_⟩
  . refine ⟨hschema, ?_, ?_, ?_, ?_, ?_, ?_, ?_⟩
    . intro lease hlease
      have := granted_of_mem hschema (fun _ => none) hlease
      rw [Option.or_none] at this
      exact this
    . intro leaseId ⟨lease, hlease, hid⟩
      rw [← hid]
      exact hfresh lease hlease
    . intro i leaseId h
      exact absurd h (hlost leaseId)
    . intro i j leaseId h
      exact absurd h (hlost leaseId)
    . intro i id h
      contradiction
    . intro i j id h
      contradiction
    . intro i
      refine ⟨?_, ?_, ?_, List.nodup_nil, fun _ => rfl, fun _ => rfl⟩
      . intro loss h
        contradiction
      . intro loss h
        contradiction
      . intro loss leaseId effect h
        contradiction
  . intro i
    exact always_run (hrequests i) {}

def acts (request : Request) (c : Call) : Bool :=
  match c with
  | .saveNode _ | .saveJob _ | .saveEvent _ _ _ => !isTick request
  | .saveWorker _ => !isTick request && !isRegistration request
  | _ => false

structure OneSettlement (requests : ι → Request) (pool : Pool signature Err Unit Audited Note ι) : Prop
    where
  once : ∀ i, (pool.notes i).effects.Nodup
  single : ∀ i j leaseId effect effect', (leaseId, effect) ∈ (pool.notes i).effects →
    (leaseId, effect') ∈ (pool.notes j).effects → i = j
  acting : ∀ i c k, pool.threads i = .call c k → acts (requests i) c →
    ∃ loss leaseId, (pool.notes i).loss = some loss
      ∧ loss.leaseId = some leaseId
      ∧ (∀ job, c = .saveJob job → job.id = loss.jobId)
      ∧ ∀ j ≠ i, ∀ effect, (leaseId, effect) ∉ (pool.notes j).effects

theorem keeps_of_acts {request : Request} {n : Note} {c : Call} (hsound : Sound request n)
    (hguard : keeps request n c) (hacts : acts request c)
    : ∃ loss, n.loss = some loss ∧ ∀ job, c = .saveJob job → job.id = loss.jobId := by
  cases c with
  | saveNode node =>
    simp only [acts, Bool.not_eq_eq_eq_not, Bool.not_true] at hacts
    simp only [keeps, hacts, Bool.false_eq_true, false_or] at hguard
    have ⟨loss, hloss, _⟩ := hguard
    exact ⟨loss, hloss, fun _ h => by contradiction⟩
  | saveJob job =>
    simp only [acts, Bool.not_eq_eq_eq_not, Bool.not_true] at hacts
    simp only [keeps, hacts, Bool.false_eq_true, false_or] at hguard
    have ⟨loss, hloss, _, hjob⟩ := hguard
    refine ⟨loss, hloss, ?_⟩
    intro job' hjob'
    injection hjob' with hjob'
    subst hjob'
    cases hreported : reportedJob request with
    | none =>
      rw [hreported] at hjob
      exact hjob
    | some jobId =>
      rw [hreported] at hjob
      exact hjob.trans (hsound.job loss hloss jobId hreported).symm
  | saveWorker worker =>
    simp only [acts, Bool.and_eq_true, Bool.not_eq_eq_eq_not, Bool.not_true] at hacts
    simp only [keeps, hacts.left, hacts.right, hsound.present hacts.left, Bool.false_eq_true,
      false_or] at hguard
    have ⟨loss, hloss⟩ := hguard
    exact ⟨loss, hloss, fun _ h => by contradiction⟩
  | saveEvent job tenant type =>
    simp only [acts, Bool.not_eq_eq_eq_not, Bool.not_true] at hacts
    simp only [keeps, hacts, Bool.false_eq_true, false_or] at hguard
    have ⟨loss, hloss⟩ := hguard
    exact ⟨loss, hloss, fun _ h => by contradiction⟩
  | _ => contradiction

theorem settled_once {db : DB} {pool : Pool signature Err Unit Audited Note ι} (hschema : Schema db)
    (hfresh : ∀ lease ∈ db.leases.rows, lease.id.value < db.nextId)
    (hrequests : ∀ i, contends (requests i))
    (hreaches : Reaches audited (findsLease requests) (pending requests (audit db) {}) pool)
    : OneSettlement requests pool := by
  have hholds := (holds_pending hschema hfresh hrequests).reaches hreaches
  have hinv : Settled requests pool.state pool.notes := hholds.inv
  refine ⟨?_, ?_, ?_⟩
  . intro i
    exact (hinv.sound i).once
  . intro i j leaseId effect effect' hi hj
    exact hinv.unique i j leaseId (.inr ⟨effect, hi⟩) (.inr ⟨effect', hj⟩)
  . intro i c k hthread hacts
    have ⟨loss, hloss, hjob⟩ := keeps_of_acts (hinv.sound i) (hholds.guard hthread) hacts
    have ⟨leaseId, hlease⟩ := (hinv.sound i).lease loss hloss
    refine ⟨loss, leaseId, hloss, hlease, hjob, ?_⟩
    intro j hj effect hmem
    exact hj (hinv.unique j i leaseId (.inr ⟨effect, hmem⟩) (.inl ⟨loss, hloss, hlease⟩))

def reportedTwice (_ : Fin 2) : Request :=
  .service (.report .complete ⟨3⟩ ⟨1⟩ ⟨0⟩ ⟨5⟩ (some 0))

def bothFindLease {ι : Type} (first second : ι) : List (ι × Env) :=
  List.replicate 5 (first, { now := 0 })
    ++ List.replicate 5 (second, { now := 0 })
    ++ List.replicate 6 (first, { now := 0 })
    ++ List.replicate 6 (second, { now := 0 })

theorem settled_twice
    : Reachable anyCall ⟨replay oneRunningJob DB.empty, []⟩
        ∧ (∀ i, contends (reportedTwice i))
        ∧ ∃ pool, Reaches audited anyTime
            (pending reportedTwice (audit (replay oneRunningJob DB.empty)) {}) pool
          ∧ ∀ i effect, (⟨5⟩, effect) ∈ (pool.notes i).effects := by
  refine ⟨reachable_oneRunningJob, fun _ => rfl, ?_⟩
  have ⟨pool, hreaches, heffects⟩ := exists_reaches_of_play (W := audited) (C := anyTime)
    (pending reportedTwice (audit (replay oneRunningJob DB.empty)) {}) (bothFindLease 0 1)
    (fun pool => ∀ i, (⟨5⟩, .nodeReleased) ∈ (pool.notes i).effects
      ∧ (⟨5⟩, .jobSaved) ∈ (pool.notes i).effects)
    (by decide +kernel)
  refine ⟨pool, hreaches, ?_⟩
  intro i effect
  cases effect with
  | nodeReleased => exact (heffects i).left
  | jobSaved => exact (heffects i).right

def firstFindsLease {ι : Type} (first second : ι) : List (ι × Env) :=
  List.replicate 2 (second, { now := 0 })
    ++ List.replicate 11 (first, { now := 0 })
    ++ List.replicate 1 (second, { now := 0 })

theorem settled_once_firstFindsLease
    : ∃ pool, Reaches audited (findsLease reportedTwice)
          (pending reportedTwice (audit (replay oneRunningJob DB.empty)) {}) pool
        ∧ (⟨5⟩, .jobSaved) ∈ (pool.notes 0).effects
        ∧ (pool.threads 1).isDone
        ∧ OneSettlement reportedTwice pool := by
  have ⟨pool, hreaches, hsettled, hdone⟩ := exists_reaches_of_play
    (W := audited) (C := findsLease reportedTwice)
    (pending reportedTwice (audit (replay oneRunningJob DB.empty)) {}) (firstFindsLease 0 1)
    (fun pool => (⟨5⟩, .jobSaved) ∈ (pool.notes 0).effects ∧ (pool.threads 1).isDone)
    (by decide +kernel)
  refine ⟨pool, hreaches, hsettled, hdone, ?_⟩
  apply settled_once (by decide +kernel) (by decide +kernel) (fun _ => rfl) hreaches

end Settlement

end AetherGrid
