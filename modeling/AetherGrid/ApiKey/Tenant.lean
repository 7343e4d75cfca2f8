import AetherGrid.Store.Tenant
import AetherGrid.ApiKey.Basic

/-!
This module contains what is confined to the keys of one tenant.
-/

namespace AetherGrid

namespace ApiKeys

abbrev postgres : Machine signature Store Env where
  exec := KeyCall.exec

def Store.restrict (p : TenantId → Bool) (s : Store) : Store where
  keys := s.keys.filter (fun key => p key.tenantId)
  tenants := s.tenants.filter p
  nextId := s.nextId

abbrev Store.only (T : TenantId) (s : Store) : Store :=
  s.restrict (· = T)

def Confined (T : TenantId) (s : Store) (c : KeyCall) : Prop :=
  match c with
  | .utcNow | .newId | .tokenUrlsafe => True
  | .getTenant tenant | .markUsed _ tenant | .getById _ tenant | .listIssuedBy _ tenant => tenant = T
  | .save key =>
    key.tenantId = T
      ∧ (∀ row, s.keys.get? key.id = some row → row.tenantId = T)
      ∧ (s.keys.get? key.id = none → ∀ row ∈ s.keys.rows, row.keyHash ≠ key.keyHash)
  | .getByHashAcrossTenants keyHash => ∀ row ∈ s.keys.rows, row.keyHash = keyHash → row.tenantId = T

namespace Store

variable {T : TenantId} {s : Store}

theorem get?_only (id : ApiKeyId) : (s.only T).keys.get? id = (s.keys.get? id).filter (·.tenantId = T) :=
  Table.get?_filter _ _ _

theorem getById_only (id : ApiKeyId)
    : PostgresApiKeyRepository.getById (s.only T) id T = PostgresApiKeyRepository.getById s id T := by
  unfold PostgresApiKeyRepository.getById
  rw [get?_only, filter_self]

theorem commit_map (π : Store → Store) (s : Store) (r : Except KeyErr Store)
    : commit (π s) (r.map π) = ((commit s r).1, π (commit s r).2) := by
  cases r <;> rfl

theorem only_upsert {key : ApiKey} (htenant : key.tenantId = T)
    (hold : ∀ row, s.keys.get? key.id = some row → row.tenantId = T)
    : ({ s.only T with keys := (s.only T).keys.upsert key } : Store)
        =
      Store.only T { s with keys := s.keys.upsert key } := by
  have hupsert : (s.keys.upsert key).filter (fun key => decide (key.tenantId = T))
      = (s.only T).keys.upsert key := by
    refine Table.filter_upsert_of ?_ ?_
    . exact decide_eq_true htenant
    . intro row hrow
      exact decide_eq_true (hold row hrow)
  rw [← hupsert]
  rfl

theorem save_only {key : ApiKey} (h : Confined T s (.save key))
    : PostgresApiKeyRepository.save (s.only T) key
        =
      (PostgresApiKeyRepository.save s key).map (Store.only T) := by
  have ⟨htenant, hown, hnew⟩ := h
  have hget : (s.only T).keys.get? key.id = s.keys.get? key.id := by
    rw [get?_only, filter_eq_self_of_forall]
    intro row hrow
    exact decide_eq_true (hown row hrow)
  unfold PostgresApiKeyRepository.save
  rw [hget]
  cases hrow : s.keys.get? key.id with
  | some row =>
    have hrowTenant : row.tenantId = T := hown row hrow
    have hid := Table.key_of_get? hrow
    have hown' : ∀ other, s.keys.get? row.id = some other → other.tenantId = T := by
      rw [hid]
      exact hown
    dsimp only
    rw [if_pos (hrowTenant.trans htenant.symm), if_pos (hrowTenant.trans htenant.symm)]
    exact congrArg Except.ok (only_upsert hrowTenant hown')
  | none =>
    have hhash : s.keys.rows.any (fun row => decide (row.keyHash = key.keyHash)) = false := by
      rw [List.any_eq_false]
      intro row hmem
      simpa using hnew hrow row hmem
    have hhash' : (s.only T).keys.rows.any (fun row => decide (row.keyHash = key.keyHash)) = false := by
      rw [List.any_eq_false] at hhash ⊢
      intro row hmem
      exact hhash row (List.mem_of_mem_filter hmem)
    have htenants : key.tenantId ∈ (s.only T).tenants ↔ key.tenantId ∈ s.tenants := by
      change key.tenantId ∈ s.tenants.filter _ ↔ _
      rw [List.mem_filter]
      exact and_iff_left (decide_eq_true htenant)
    have hissuer : PostgresApiKeyRepository.issuerSameTenant (s.only T) key
        = PostgresApiKeyRepository.issuerSameTenant s key := by
      unfold PostgresApiKeyRepository.issuerSameTenant
      rw [htenant]
      simp only [get?_only, any_filter_self]
    dsimp only
    rw [hhash, hhash', hissuer, only_upsert htenant hown]
    simp only [htenants]
    split
    . rfl
    . split
      . rfl
      . split <;> rfl

theorem markUsed_only (env : Env) (id : ApiKeyId)
    : PostgresApiKeyRepository.markUsed env (s.only T) id T
        =
      (PostgresApiKeyRepository.markUsed env s id T).map (Store.only T) := by
  unfold PostgresApiKeyRepository.markUsed
  rw [getById_only]
  cases hrow : PostgresApiKeyRepository.getById s id T with
  | none => rfl
  | some row =>
    unfold PostgresApiKeyRepository.getById at hrow
    rw [Option.filter_eq_some_iff, decide_eq_true_eq] at hrow
    have hown : ∀ other, s.keys.get? row.id = some other → other.tenantId = T := by
      intro other hother
      rw [Table.key_of_get? hrow.left, hrow.left] at hother
      injection hother with hother
      rw [← hother]
      exact hrow.right
    exact congrArg Except.ok (only_upsert hrow.right hown)

theorem exec_only {c : KeyCall} (hc : Confined T s c) (env : Env)
    : c.exec env (s.only T) = ((c.exec env s).1, (c.exec env s).2.only T) := by
  cases c with
  | utcNow | newId | tokenUrlsafe => rfl
  | getTenant tenant =>
    obtain rfl : tenant = T := hc
    refine Prod.ext ?_ rfl
    change decide (tenant ∈ s.tenants.filter _) = decide (tenant ∈ s.tenants)
    simp
  | save key =>
    have hsave := save_only hc
    unfold KeyCall.exec
    dsimp only
    rw [hsave, commit_map]
  | markUsed id tenant =>
    obtain rfl : tenant = T := hc
    have hmark : PostgresApiKeyRepository.markUsed env (s.only tenant) id tenant
        = (PostgresApiKeyRepository.markUsed env s id tenant).map (Store.only tenant) := markUsed_only env id
    unfold KeyCall.exec
    dsimp only
    rw [hmark, commit_map]
  | getById id tenant =>
    obtain rfl : tenant = T := hc
    exact Prod.ext (getById_only id) rfl
  | getByHashAcrossTenants keyHash =>
    refine Prod.ext ?_ rfl
    apply find?_filter_of_imp
    intro row hmem hrow
    exact decide_eq_true (hc row hmem (of_decide_eq_true hrow))
  | listIssuedBy issuer tenant =>
    obtain rfl : tenant = T := hc
    refine Prod.ext ?_ rfl
    change env.keyOrder.sort ((s.keys.rows.filter _).filter _) = env.keyOrder.sort (s.keys.rows.filter _)
    rw [List.filter_filter]
    congr
    funext key
    simp

def SameOthers (T : TenantId) (s s' : Store) : Prop :=
  s'.restrict (· ≠ T) = { s.restrict (· ≠ T) with nextId := s'.nextId }

theorem SameOthers.trans {s' s'' : Store} (h : SameOthers T s s') (h' : SameOthers T s' s'')
    : SameOthers T s s'' := by
  unfold SameOthers at *
  rw [h', h]

theorem sameOthers_upsert {key : ApiKey} (htenant : key.tenantId = T)
    (hold : ∀ row, s.keys.get? key.id = some row → row.tenantId = T)
    : SameOthers T s { s with keys := s.keys.upsert key } := by
  have hkeys : (s.keys.upsert key).filter (fun key => decide (key.tenantId ≠ T))
      = s.keys.filter (fun key => decide (key.tenantId ≠ T)) := by
    refine Table.filter_upsert_of_not ?_ ?_
    . simp [htenant]
    . intro row hrow
      simp [hold row hrow]
  unfold SameOthers Store.restrict
  dsimp only
  rw [hkeys]

theorem sameOthers_exec {c : KeyCall} (hc : Confined T s c) (env : Env)
    : SameOthers T s (c.exec env s).2 := by
  cases c with
  | save key =>
    have ⟨htenant, hown, _⟩ := hc
    change SameOthers T s (commit s (PostgresApiKeyRepository.save s key)).2
    unfold PostgresApiKeyRepository.save
    split
    . next row hrow =>
      split
      . refine sameOthers_upsert (hown row hrow) ?_
        dsimp only
        rw [Table.key_of_get? hrow]
        exact hown
      . rfl
    . split
      . rfl
      . split
        . rfl
        . split
          . rfl
          . exact sameOthers_upsert htenant hown
  | markUsed id tenant =>
    obtain rfl : tenant = T := hc
    change SameOthers tenant s (commit s (PostgresApiKeyRepository.markUsed env s id tenant)).2
    unfold PostgresApiKeyRepository.markUsed
    split
    . rfl
    . next row hrow =>
      unfold PostgresApiKeyRepository.getById at hrow
      rw [Option.filter_eq_some_iff, decide_eq_true_eq] at hrow
      refine sameOthers_upsert hrow.right ?_
      intro other hother
      dsimp only at hother
      rw [Table.key_of_get? hrow.left, hrow.left] at hother
      injection hother with hother
      rw [← hother]
      exact hrow.right
  | _ => rfl

end Store

end ApiKeys

end AetherGrid
