import AetherGrid.ApiKey.Basic
import AetherGrid.Prog.Pool

/-!
This module contains what holds of the keys while any number of requests is served at the same time.
-/

namespace AetherGrid

namespace ApiKeys

open Prog Pool

def identity (key : ApiKey) : ApiKey :=
  { key with revokedAt := none, lastUsedAt := none }

theorem congr_identity {α : Type} (f : ApiKey → α) (hf : ∀ key, f (identity key) = f key) {a b : ApiKey}
    (h : identity a = identity b) : f a = f b := by
  rw [← hf a, h, hf b]

structure Note where
  caller : Option ApiKey := none
  refused : Bool := false
  drawn : Option ApiKeyId := none
  target : Option ApiKey := none

def noted : Watched signature Store Env Note where
  exec := KeyCall.exec
  note c _ s n :=
    match c with
    | .getByHashAcrossTenants keyHash =>
      match PostgresApiKeyRepository.getByHashAcrossTenants s keyHash with
      | none => { n with refused := true }
      | some key => if key.revokedAt.isSome then { n with refused := true } else { n with caller := some key }
    | .newId => { n with drawn := some ⟨s.nextId⟩ }
    | .getById id tenant => { n with target := PostgresApiKeyRepository.getById s id tenant }
    | .save _ => { n with drawn := none }
    | _ => n

def MayRevoke (caller key : ApiKey) : Prop :=
  caller.tenantId = key.tenantId ∧ (keysManage ∈ caller.scopes ∨ key.issuedBy = some caller.id)

structure Creates (n : Note) (key : ApiKey) : Prop where
  drawn : n.drawn = some key.id
  scopes : key.scopes = []

def Revokes (request : Request) (n : Note) (key : ApiKey) : Prop :=
  ∃ rawKey caller target now, request = .revoke rawKey key.id ∧ n.caller = some caller
    ∧ n.target = some target ∧ key = { target with revokedAt := some now } ∧ MayRevoke caller target

section guard

variable (hashSecret : String → String)

def guard (request : Request) (n : Note) (c : KeyCall) : Prop :=
  n.refused = false
    ∧ match c with
      | .getByHashAcrossTenants keyHash => keyHash = hashSecret request.rawKey
      | .save key => Creates n key ∨ Revokes request n key
      | _ => True

end guard

def Keeps (s s' : Store) : Prop :=
  ∀ id key, s.keys.get? id = some key →
    ∃ key', s'.keys.get? id = some key' ∧ identity key' = identity key
      ∧ (key.revokedAt.isSome = true → key'.revokedAt.isSome = true)

theorem Keeps.refl (s : Store) : Keeps s s := by
  intro id key hkey
  exact ⟨key, hkey, rfl, fun h => h⟩

theorem Keeps.trans {s s' s'' : Store} (h : Keeps s s') (h' : Keeps s' s'') : Keeps s s'' := by
  intro id key hkey
  have ⟨key', hkey', hsame, hrevoked⟩ := h id key hkey
  have ⟨key'', hkey'', hsame', hrevoked'⟩ := h' id key' hkey'
  exact ⟨key'', hkey'', hsame'.trans hsame, fun h => hrevoked' (hrevoked h)⟩

structure Created (s : Store) (n : Note) (key : ApiKey) : Prop where
  drawn : n.drawn = some key.id
  absent : s.keys.get? key.id = none
  scopes : key.scopes = []
  issuer : PostgresApiKeyRepository.issuerSameTenant s key = true
  hash : ∀ other ∈ s.keys.rows, other.keyHash ≠ key.keyHash

def Stems (n : Note) (s s' : Store) : Prop :=
  ∀ id key', s'.keys.get? id = some key' →
    (∃ key, s.keys.get? id = some key ∧ identity key = identity key') ∨ Created s n key'

theorem Stems.of_keys_eq {n : Note} {s s' : Store} (h : s'.keys = s.keys) : Stems n s s' := by
  intro id key' hkey'
  rw [h] at hkey'
  exact .inl ⟨key', hkey', rfl⟩

theorem changes_upsert {s : Store} {n : Note} {key key' : ApiKey} (hkey : s.keys.get? key.id = some key)
    (hsame : identity key' = identity key)
    (hrevoked : key.revokedAt.isSome = true → key'.revokedAt.isSome = true)
    : Keeps s { s with keys := s.keys.upsert key' } ∧ Stems n s { s with keys := s.keys.upsert key' } := by
  have hid : key'.id = key.id := congr_identity ApiKey.id (fun _ => rfl) hsame
  refine ⟨?_, ?_⟩
  . intro id other hother
    dsimp only
    rw [Table.get?_upsert]
    split
    . next heq =>
      rw [← heq, hid, hkey] at hother
      injection hother with hother
      rw [← hother]
      exact ⟨key', rfl, hsame, hrevoked⟩
    . exact ⟨other, hother, rfl, fun h => h⟩
  . intro id other hother
    dsimp only at hother
    rw [Table.get?_upsert] at hother
    split at hother
    . next heq =>
      injection hother with hother
      rw [← heq, hid, ← hother]
      exact .inl ⟨key, hkey, hsame.symm⟩
    . exact .inl ⟨other, hother, rfl⟩

theorem changes_insert {s : Store} {n : Note} {key : ApiKey} (hcreated : Created s n key)
    : Keeps s { s with keys := s.keys.upsert key } ∧ Stems n s { s with keys := s.keys.upsert key } := by
  refine ⟨?_, ?_⟩
  . intro id other hother
    dsimp only
    rw [Table.get?_upsert]
    split
    . next heq =>
      rw [← heq, hcreated.absent] at hother
      contradiction
    . exact ⟨other, hother, rfl, fun h => h⟩
  . intro id other hother
    dsimp only at hother
    rw [Table.get?_upsert] at hother
    split at hother
    . injection hother with hother
      rw [← hother]
      exact .inr hcreated
    . exact .inl ⟨other, hother, rfl⟩

structure Knows (hashSecret : String → String) (request : Request) (s : Store) (n : Note) : Prop where
  caller : ∀ caller, n.caller = some caller →
    caller.keyHash = hashSecret request.rawKey
      ∧ ∃ key, s.keys.get? caller.id = some key ∧ identity key = identity caller
  target : ∀ target, n.target = some target →
    ∃ key, s.keys.get? target.id = some key ∧ identity key = identity target
  drawn : ∀ id, n.drawn = some id → s.keys.get? id = none ∧ id.value < s.nextId

theorem getByHashAcrossTenants_eq_some {s : Store} {keyHash : String} {key : ApiKey}
    (h : PostgresApiKeyRepository.getByHashAcrossTenants s keyHash = some key)
    : s.keys.get? key.id = some key ∧ key.keyHash = keyHash := by
  unfold PostgresApiKeyRepository.getByHashAcrossTenants at h
  refine ⟨s.keys.get?_key_of_mem (List.mem_of_find?_eq_some h), ?_⟩
  simpa using List.find?_some h

section changes

variable {hashSecret : String → String} {request : Request} {s s' : Store} {n : Note} {env : Env}

theorem save_of_creates {key : ApiKey} (hcreates : Creates n key) (habsent : s.keys.get? key.id = none)
    (h : PostgresApiKeyRepository.save s key = .ok s')
    : Created s n key ∧ s' = { s with keys := s.keys.upsert key } := by
  unfold PostgresApiKeyRepository.save at h
  rw [habsent] at h
  dsimp only at h
  split at h
  . contradiction
  . next hhash =>
    split at h
    . contradiction
    . split at h
      . contradiction
      . next hissuer =>
        injection h with h
        rw [Bool.not_eq_true, Bool.not_eq_false'] at hissuer
        refine ⟨⟨hcreates.drawn, habsent, hcreates.scopes, hissuer, ?_⟩, h.symm⟩
        intro other hother heq
        refine hhash (List.any_eq_true.mpr ⟨other, hother, decide_eq_true heq⟩)

theorem save_of_stored {key row : ApiKey} (hrow : s.keys.get? key.id = some row)
    (htenant : row.tenantId = key.tenantId)
    : PostgresApiKeyRepository.save s key
        = .ok { s with
            keys := s.keys.upsert
              { row with
                revokedAt := key.revokedAt, lastUsedAt := key.lastUsedAt, scopes := key.scopes } } := by
  unfold PostgresApiKeyRepository.save
  rw [hrow]
  dsimp only
  rw [if_pos htenant]

theorem save_of_revokes {key : ApiKey} (hrevokes : Revokes request n key)
    (hknows : Knows hashSecret request s n)
    : ∃ row row', s.keys.get? row.id = some row ∧ row.id = key.id ∧ identity row = identity key
        ∧ identity row' = identity row ∧ row'.revokedAt.isSome = true
        ∧ PostgresApiKeyRepository.save s key = .ok { s with keys := s.keys.upsert row' } := by
  have ⟨rawKey, caller, target, now, _, _, htarget, hkey, _⟩ := hrevokes
  have ⟨row, hrow, hsame⟩ := hknows.target target htarget
  have hid : row.id = key.id := by
    rw [hkey]
    exact Table.key_of_get? hrow
  have hsame' : identity row = identity key := by
    rw [hkey]
    exact hsame
  have hrow' : s.keys.get? key.id = some row := by
    rw [hkey]
    exact hrow
  have hsave := save_of_stored hrow' (congr_identity ApiKey.tenantId (fun _ => rfl) hsame')
  rw [← hid] at hrow'
  refine ⟨row, _, hrow', hid, hsame', ?_, ?_, hsave⟩
  . unfold identity
    dsimp only
    rw [← congr_identity ApiKey.scopes (fun _ => rfl) hsame']
  . rw [hkey]
    rfl

theorem changes_save {key : ApiKey} (hguard : Creates n key ∨ Revokes request n key)
    (hknows : Knows hashSecret request s n) (h : PostgresApiKeyRepository.save s key = .ok s')
    : Keeps s s' ∧ Stems n s s' := by
  cases hguard with
  | inl hcreates =>
    have ⟨hcreated, hs'⟩ := save_of_creates hcreates (hknows.drawn key.id hcreates.drawn).left h
    rw [hs']
    exact changes_insert hcreated
  | inr hrevokes =>
    have ⟨row, row', hrow, _, _, hsame, hrevoked, hsave⟩ := save_of_revokes hrevokes hknows
    rw [hsave] at h
    injection h with h
    rw [← h]
    exact changes_upsert hrow hsame (fun _ => hrevoked)

theorem markUsed_eq_ok {id : ApiKeyId} {tenant : TenantId}
    (h : PostgresApiKeyRepository.markUsed env s id tenant = .ok s')
    : ∃ row, s.keys.get? row.id = some row
        ∧ s' = { s with keys := s.keys.upsert { row with lastUsedAt := some env.now } } := by
  unfold PostgresApiKeyRepository.markUsed at h
  split at h
  . contradiction
  . next row hread =>
    have hrow := (Option.filter_eq_some_iff.mp hread).left
    injection h with h
    refine ⟨row, ?_, h.symm⟩
    rw [Table.key_of_get? hrow]
    exact hrow

theorem changes_markUsed {id : ApiKeyId} {tenant : TenantId}
    (h : PostgresApiKeyRepository.markUsed env s id tenant = .ok s') : Keeps s s' ∧ Stems n s s' := by
  have ⟨row, hrow, hs'⟩ := markUsed_eq_ok h
  rw [hs']
  exact changes_upsert hrow rfl (fun h => h)

theorem changes_commit {r : Except KeyErr Store} (h : ∀ s', r = .ok s' → Keeps s s' ∧ Stems n s s')
    : Keeps s (commit s r).2 ∧ Stems n s (commit s r).2 := by
  cases r with
  | ok s' => exact h s' rfl
  | error e => exact ⟨.refl s, .of_keys_eq rfl⟩

theorem changes_exec (env : Env) {c : KeyCall} (hguard : guard hashSecret request n c)
    (hknows : Knows hashSecret request s n)
    : Keeps s (c.exec env s).2 ∧ Stems n s (c.exec env s).2 := by
  cases c with
  | save key => exact changes_commit (fun s' h => changes_save hguard.right hknows h)
  | markUsed id tenant => exact changes_commit (fun s' h => changes_markUsed h)
  | newId => exact ⟨Keeps.refl s, .of_keys_eq rfl⟩
  | _ => exact ⟨.refl s, .of_keys_eq rfl⟩

theorem nextId_exec (c : KeyCall) (env : Env) (s : Store) : s.nextId ≤ (c.exec env s).2.nextId := by
  have hcommit : ∀ r : Except KeyErr Store, (∀ s', r = .ok s' → s'.nextId = s.nextId) →
      s.nextId ≤ (commit s r).2.nextId := by
    intro r hr
    cases r with
    | ok s' => exact Nat.le_of_eq (hr s' rfl).symm
    | error e => exact Nat.le_refl _
  cases c with
  | newId => exact Nat.le_succ _
  | save key =>
    apply hcommit
    intro s' h
    unfold PostgresApiKeyRepository.save at h
    split at h
    . split at h
      . injection h with h
        rw [← h]
      . contradiction
    . split at h
      . contradiction
      . split at h
        . contradiction
        . split at h
          . contradiction
          . injection h with h
            rw [← h]
  | markUsed id tenant =>
    apply hcommit
    intro s' h
    unfold PostgresApiKeyRepository.markUsed at h
    split at h
    . contradiction
    . injection h with h
      rw [← h]
  | _ => exact Nat.le_refl _

end changes

structure Consistent (origin s : Store) : Prop where
  issuer : ∀ id key, s.keys.get? id = some key →
    PostgresApiKeyRepository.issuerSameTenant s key = true
  hash : ∀ id id' key key', s.keys.get? id = some key → s.keys.get? id' = some key' →
    key.keyHash = key'.keyHash → id = id'
  fresh : ∀ id key, s.keys.get? id = some key → id.value < s.nextId
  created : ∀ id key, s.keys.get? id = some key → origin.keys.get? id = none → key.scopes = []

section consistent

variable {origin s s' : Store} {n : Note}

theorem getByHashAcrossTenants_of_stored (h : Consistent origin s) {id : ApiKeyId} {key : ApiKey}
    (hkey : s.keys.get? id = some key)
    : PostgresApiKeyRepository.getByHashAcrossTenants s key.keyHash = some key := by
  cases hread : PostgresApiKeyRepository.getByHashAcrossTenants s key.keyHash with
  | none =>
    unfold PostgresApiKeyRepository.getByHashAcrossTenants at hread
    rw [List.find?_eq_none] at hread
    exact absurd (decide_eq_true rfl) (hread key (Table.mem_of_get? hkey))
  | some other =>
    have ⟨hother, hhash⟩ := getByHashAcrossTenants_eq_some hread
    have hid := h.hash _ id other key hother hkey hhash
    rw [hid, hkey] at hother
    exact hother.symm

theorem issuerSameTenant_of_keeps (hkeeps : Keeps s s') {key key' : ApiKey}
    (hsame : identity key = identity key')
    (h : PostgresApiKeyRepository.issuerSameTenant s key = true)
    : PostgresApiKeyRepository.issuerSameTenant s' key' = true := by
  unfold PostgresApiKeyRepository.issuerSameTenant at h ⊢
  rw [Option.all_eq_true] at h ⊢
  intro id hid
  rw [← congr_identity ApiKey.issuedBy (fun _ => rfl) hsame] at hid
  have hissuer := h id hid
  rw [Option.any_eq_true] at hissuer ⊢
  have ⟨issuer, hget, htenant⟩ := hissuer
  have ⟨issuer', hget', hsame', _⟩ := hkeeps id issuer hget
  refine ⟨issuer', hget', decide_eq_true ?_⟩
  rw [congr_identity ApiKey.tenantId (fun _ => rfl) hsame', of_decide_eq_true htenant]
  exact congr_identity ApiKey.tenantId (fun _ => rfl) hsame

theorem Consistent.step (h : Consistent origin s) (hkeeps : Keeps s s') (hstems : Stems n s s')
    (hnext : s.nextId ≤ s'.nextId) (hdrawn : ∀ id, n.drawn = some id → id.value < s.nextId)
    : Consistent origin s' where
  issuer id key' hkey' := by
    cases hstems id key' hkey' with
    | inl hold =>
      have ⟨key, hkey, hsame⟩ := hold
      exact issuerSameTenant_of_keeps hkeeps hsame (h.issuer id key hkey)
    | inr hcreated => exact issuerSameTenant_of_keeps hkeeps rfl hcreated.issuer
  hash id id' a b ha hb heq := by
    cases hstems id a ha with
    | inl hold =>
      have ⟨a', ha', hsame⟩ := hold
      rw [← congr_identity ApiKey.keyHash (fun _ => rfl) hsame] at heq
      cases hstems id' b hb with
      | inl hold' =>
        have ⟨b', hb', hsame'⟩ := hold'
        rw [← congr_identity ApiKey.keyHash (fun _ => rfl) hsame'] at heq
        exact h.hash id id' a' b' ha' hb' heq
      | inr hcreated => exact absurd heq (hcreated.hash a' (Table.mem_of_get? ha'))
    | inr hcreated =>
      cases hstems id' b hb with
      | inl hold' =>
        have ⟨b', hb', hsame'⟩ := hold'
        rw [← congr_identity ApiKey.keyHash (fun _ => rfl) hsame'] at heq
        exact absurd heq.symm (hcreated.hash b' (Table.mem_of_get? hb'))
      | inr hcreated' =>
        have hid := hcreated.drawn.symm.trans hcreated'.drawn
        rw [Table.key_of_get? ha, Table.key_of_get? hb] at hid
        injection hid
  fresh id key' hkey' := by
    cases hstems id key' hkey' with
    | inl hold =>
      have ⟨key, hkey, _⟩ := hold
      exact Nat.lt_of_lt_of_le (h.fresh id key hkey) hnext
    | inr hcreated =>
      have hlt := hdrawn key'.id hcreated.drawn
      rw [Table.key_of_get? hkey'] at hlt
      exact Nat.lt_of_lt_of_le hlt hnext
  created id key' hkey' horigin := by
    cases hstems id key' hkey' with
    | inl hold =>
      have ⟨key, hkey, hsame⟩ := hold
      rw [← congr_identity ApiKey.scopes (fun _ => rfl) hsame]
      exact h.created id key hkey horigin
    | inr hcreated => exact hcreated.scopes

end consistent

section protocol

variable {hashSecret : String → String} {ι : Type} {requests : ι → Request} {origin s s' : Store}
variable {notes : ι → Note} {request : Request} {n : Note} {c : KeyCall} {env : Env} {i : ι}

theorem Knows.keep (h : Knows hashSecret request s n) (hkeeps : Keeps s s') (hnext : s.nextId ≤ s'.nextId)
    (habsent : ∀ id, n.drawn = some id → s'.keys.get? id = none) : Knows hashSecret request s' n where
  caller caller hcaller := by
    have ⟨hhash, key, hkey, hsame⟩ := h.caller caller hcaller
    have ⟨key', hkey', hsame', _⟩ := hkeeps _ key hkey
    exact ⟨hhash, key', hkey', hsame'.trans hsame⟩
  target target htarget := by
    have ⟨key, hkey, hsame⟩ := h.target target htarget
    have ⟨key', hkey', hsame', _⟩ := hkeeps _ key hkey
    exact ⟨key', hkey', hsame'.trans hsame⟩
  drawn id hid := ⟨habsent id hid, Nat.lt_of_lt_of_le (h.drawn id hid).right hnext⟩

theorem Stems.absent (h : Stems n s s') {id : ApiKeyId} (habsent : s.keys.get? id = none)
    (hdrawn : n.drawn ≠ some id) : s'.keys.get? id = none := by
  cases hget : s'.keys.get? id with
  | none => rfl
  | some key =>
    cases h id key hget with
    | inl hold =>
      have ⟨key, hkey, _⟩ := hold
      rw [habsent] at hkey
      contradiction
    | inr hcreated =>
      have hid := hcreated.drawn
      rw [Table.key_of_get? hget] at hid
      exact absurd hid hdrawn

variable (hashSecret requests origin)

structure Inv (s : Store) (notes : ι → Note) : Prop where
  consistent : Consistent origin s
  knows : ∀ i, Knows hashSecret (requests i) s (notes i)
  apart : ∀ i j id, (notes i).drawn = some id → (notes j).drawn = some id → i = j

variable {hashSecret requests origin}

theorem knows_note (h : Inv hashSecret requests origin s notes)
    (hguard : guard hashSecret (requests i) (notes i) c)
    : Knows hashSecret (requests i) (c.exec env s).2 (noted.note c env s (notes i)) := by
  have hself := h.knows i
  cases c with
  | getByHashAcrossTenants keyHash =>
    dsimp only [KeyCall.exec, noted]
    cases hread : PostgresApiKeyRepository.getByHashAcrossTenants s keyHash with
    | none => exact ⟨hself.caller, hself.target, hself.drawn⟩
    | some key =>
      dsimp only
      split
      . exact ⟨hself.caller, hself.target, hself.drawn⟩
      . refine ⟨?_, hself.target, hself.drawn⟩
        intro caller hcaller
        injection hcaller with hcaller
        have ⟨hstored, hhash⟩ := getByHashAcrossTenants_eq_some hread
        rw [← hcaller]
        exact ⟨hhash.trans hguard.right, key, hstored, rfl⟩
  | newId =>
    refine ⟨hself.caller, hself.target, ?_⟩
    intro id hid
    injection hid with hid
    rw [← hid]
    refine ⟨?_, Nat.lt_succ_self _⟩
    cases hget : s.keys.get? ⟨s.nextId⟩ with
    | none => exact hget
    | some key => exact absurd (h.consistent.fresh _ key hget) (Nat.lt_irrefl _)
  | getById id tenant =>
    refine ⟨hself.caller, ?_, hself.drawn⟩
    intro target htarget
    have hstored := (Option.filter_eq_some_iff.mp htarget).left
    have hid := Table.key_of_get? hstored
    rw [← hid] at hstored
    exact ⟨target, hstored, rfl⟩
  | save key =>
    have ⟨hkeeps, _⟩ := changes_exec env hguard hself
    have hknows : Knows hashSecret (requests i) s { notes i with drawn := none } :=
      ⟨hself.caller, hself.target, nofun⟩
    exact hknows.keep hkeeps (nextId_exec _ env s) nofun
  | markUsed id tenant =>
    have ⟨hkeeps, hstems⟩ : Keeps s ((KeyCall.markUsed id tenant).exec env s).2
        ∧ Stems {} s ((KeyCall.markUsed id tenant).exec env s).2 :=
      changes_commit (fun s' h => changes_markUsed h)
    apply hself.keep hkeeps (nextId_exec (.markUsed id tenant) env s)
    intro id hid
    exact hstems.absent (hself.drawn id hid).left nofun
  | utcNow => exact hself
  | tokenUrlsafe => exact hself
  | getTenant tenant => exact hself
  | listIssuedBy issuer tenant => exact hself

theorem drawn_note (h : Inv hashSecret requests origin s notes) {id : ApiKeyId}
    (hid : (noted.note c env s (notes i)).drawn = some id)
    : (notes i).drawn = some id ∨ ∀ j, (notes j).drawn ≠ some id := by
  cases c with
  | newId =>
    right
    intro j hj
    injection hid with hid
    have hlt := ((h.knows j).drawn id hj).right
    rw [← hid] at hlt
    exact Nat.lt_irrefl _ hlt
  | getByHashAcrossTenants keyHash =>
    left
    dsimp only [noted] at hid
    split at hid
    . exact hid
    . split at hid
      . exact hid
      . exact hid
  | save key => contradiction
  | _ => exact .inl hid

variable [DecidableEq ι]

theorem Inv.step (h : Inv hashSecret requests origin s notes)
    (hguard : guard hashSecret (requests i) (notes i) c)
    : Inv hashSecret requests origin (c.exec env s).2
        (Function.update notes i (noted.note c env s (notes i))) := by
  have ⟨hkeeps, hstems⟩ := changes_exec env hguard (h.knows i)
  have hnext := nextId_exec c env s
  refine ⟨?_, ?_, ?_⟩
  . apply h.consistent.step hkeeps hstems hnext
    intro id hid
    exact ((h.knows i).drawn id hid).right
  . intro j
    by_cases hj : j = i
    . subst hj
      rw [Function.update_self]
      exact knows_note h hguard
    . rw [Function.update_of_ne hj]
      apply (h.knows j).keep hkeeps hnext
      intro id hid
      apply hstems.absent ((h.knows j).drawn id hid).left
      intro hi
      exact hj (h.apart j i id hid hi)
  . have hnew : ∀ j id, j ≠ i → (noted.note c env s (notes i)).drawn = some id →
        (notes j).drawn ≠ some id := by
      intro j id hj hid hother
      cases drawn_note h hid with
      | inl hold => exact hj (h.apart j i id hother hold)
      | inr hnobody => exact hnobody j hother
    intro j k id hj hk
    by_cases hji : j = i
    . by_cases hki : k = i
      . rw [hji, hki]
      . rw [hji, Function.update_self] at hj
        rw [Function.update_of_ne hki] at hk
        exact absurd hk (hnew k id hki hj)
    . rw [Function.update_of_ne hji] at hj
      by_cases hki : k = i
      . rw [hki, Function.update_self] at hk
        exact absurd hj (hnew j id hji hk)
      . rw [Function.update_of_ne hki] at hk
        exact h.apart j k id hj hk

def anyTime : Store → (ι → Note) → ι → KeyCall → Prop :=
  fun _ _ _ _ => True

instance (s : Store) (notes : ι → Note) (i : ι) (c : KeyCall) : Decidable (anyTime s notes i c) :=
  inferInstanceAs (Decidable True)

variable (hashSecret requests origin)

def protocol : Protocol noted (anyTime (ι := ι)) where
  inv := Inv hashSecret requests origin
  met _ := True
  guard i := guard hashSecret (requests i)
  hmet _ _ _ _ := trivial
  hstep _ _ _ _ _ h hguard _ := h.step hguard

variable {hashSecret requests origin}

section rules

variable {α : Type}

theorem wp_save {key : ApiKey} {Q : Except KeyErr Unit → Note → Prop} (hrefused : n.refused = false)
    (hguard : Creates n key ∨ Revokes request n key) (hQ : ∀ r, Q r { n with drawn := none })
    : wp noted.view (fun _ => True) (guard hashSecret request) (ApiKeyRepository.save key) Q n := by
  refine ⟨⟨hrefused, hguard⟩, ?_⟩
  intro x _
  rw [wp_ofExcept]
  exact hQ _

def Ends (r : Except KeyErr α) (n : Note) : Prop :=
  n.refused = true → r = .error (.invalidApiKey "invalid or revoked credential")

theorem ends_of_not_refused {r : Except KeyErr α} (h : n.refused = false) : Ends r n := by
  intro hrefused
  rw [h] at hrefused
  contradiction

theorem wp_authenticate (rawKey : String) (hraw : request.rawKey = rawKey) (hrefused : n.refused = false)
    {Q : Except KeyErr ApiKey → Note → Prop} (herror : ∀ e n', n'.refused = false → Q (.error e) n')
    (hdenied : ∀ n', n'.refused = true → Q (.error (.invalidApiKey "invalid or revoked credential")) n')
    (hok : ∀ caller, Q (.ok caller) { n with caller := some caller })
    : wp noted.view (fun _ => True) (guard hashSecret request) (authenticate hashSecret rawKey) Q n := by
  unfold authenticate
  split
  . exact herror _ _ hrefused
  . apply Watched.wp_view_perform_bind ⟨hrefused, congrArg hashSecret hraw.symm⟩
    intro s env _ r n' hr hn'
    dsimp only [noted] at hn'
    rw [show PostgresApiKeyRepository.getByHashAcrossTenants s (hashSecret rawKey) = r from hr] at hn'
    cases r with
    | none =>
      apply hdenied
      rw [← hn']
    | some key =>
      dsimp only at hn' ⊢
      split
      . next hrevoked =>
        rw [if_pos hrevoked] at hn'
        apply hdenied
        rw [← hn']
      . next hactive =>
        rw [if_neg hactive] at hn'
        subst hn'
        rw [wp_bind]
        refine ⟨⟨hrefused, trivial⟩, ?_⟩
        intro x _
        rw [wp_ofExcept]
        cases (noted.view.exec (.markUsed key.id key.tenantId) x { n with caller := some key }).1 with
        | error e => exact herror _ _ hrefused
        | ok _ => exact hok key

theorem authorizeKeyRevocation_eq_ok {caller key : ApiKey} {u : Unit}
    (h : authorizeKeyRevocation caller.scopes caller.id key.issuedBy = .ok u)
    : keysManage ∈ caller.scopes ∨ key.issuedBy = some caller.id := by
  unfold authorizeKeyRevocation at h
  split at h
  . next hmanages => exact .inl hmanages
  . split at h
    . next hissued => exact .inr hissued
    . contradiction

theorem getById_eq_some {s : Store} {id : ApiKeyId} {tenant : TenantId} {key : ApiKey}
    (h : PostgresApiKeyRepository.getById s id tenant = some key)
    : s.keys.get? id = some key ∧ key.id = id ∧ key.tenantId = tenant := by
  unfold PostgresApiKeyRepository.getById at h
  rw [Option.filter_eq_some_iff] at h
  exact ⟨h.left, Table.key_of_get? h.left, of_decide_eq_true h.right⟩

theorem wp_revokeApiKey {rawKey : String} {id : ApiKeyId} {caller : ApiKey}
    (hrequest : request = .revoke rawKey id) (hrefused : n.refused = false)
    (hcaller : n.caller = some caller) {Q : Except KeyErr Unit → Note → Prop}
    (hQ : ∀ r n', n'.refused = false → Q r n')
    : wp noted.view (fun _ => True) (guard hashSecret request) (revokeApiKey id caller) Q n := by
  unfold revokeApiKey
  apply Watched.wp_view_perform_bind ⟨hrefused, trivial⟩
  intro s env _ r n' hr hn'
  have hread : PostgresApiKeyRepository.getById s id caller.tenantId = r := hr
  have hnote : n' = { n with target := r } := by
    rw [← hn', ← hread]
    rfl
  subst hnote
  cases r with
  | none => exact hQ _ _ hrefused
  | some key =>
    have ⟨_, hid, htenant⟩ := getById_eq_some hread
    dsimp only
    cases hauthorized : authorizeKeyRevocation caller.scopes caller.id key.issuedBy with
    | error e => exact hQ _ _ hrefused
    | ok u =>
      rw [wp_bind, wp_ofExcept]
      dsimp only
      split
      . exact hQ _ _ hrefused
      . apply Watched.wp_view_read ⟨hrefused, trivial⟩ (fun _ _ => rfl)
        intro _ _ _ now _
        apply wp_save
        . exact hrefused
        . right
          refine ⟨rawKey, caller, key, now, ?_, hcaller, rfl, rfl, htenant.symm,
            authorizeKeyRevocation_eq_ok hauthorized⟩
          rw [hrequest]
          dsimp only
          rw [hid]
        . intro r
          exact hQ _ _ hrefused

theorem wp_postApiKeys {label : String} {caller : ApiKey} (hrefused : n.refused = false)
    {Q : Except KeyErr IssuedApiKey → Note → Prop} (hQ : ∀ r n', n'.refused = false → Q r n')
    : wp noted.view (fun _ => True) (guard hashSecret request) (postApiKeys hashSecret caller label) Q
        n := by
  have hscopes : validateScopes [] = .ok [] := by
    unfold validateScopes
    rw [List.filter_nil, List.mergeSort_nil]
  unfold postApiKeys
  cases authorizeKeyManagement caller.scopes with
  | error e => exact hQ _ _ hrefused
  | ok u =>
    rw [wp_bind, wp_ofExcept]
    dsimp only
    unfold createApiKey issueChild issue
    dsimp only
    rw [wp_bind]
    split
    . exact hQ _ _ hrefused
    . rw [hscopes, wp_bind, wp_ofExcept]
      dsimp only
      apply Watched.wp_view_read ⟨hrefused, trivial⟩ (fun _ _ => rfl)
      intro _ _ _ rawKey _
      apply Watched.wp_view_perform_bind ⟨hrefused, trivial⟩
      intro s env _ id n' hid hn'
      subst hid hn'
      apply Watched.wp_view_read ⟨hrefused, trivial⟩ (fun _ _ => rfl)
      intro _ _ _ now _
      rw [wp_pure]
      dsimp only
      rw [wp_bind]
      apply wp_save
      . exact hrefused
      . exact .inl ⟨rfl, rfl⟩
      . intro r
        cases r with
        | error e => exact hQ _ _ hrefused
        | ok _ => exact hQ _ _ hrefused

theorem wp_listIssuedApiKeys {issuerId : ApiKeyId} {caller : ApiKey} (hrefused : n.refused = false)
    {Q : Except KeyErr (List ApiKey) → Note → Prop} (hQ : ∀ r n', n'.refused = false → Q r n')
    : wp noted.view (fun _ => True) (guard hashSecret request) (listIssuedApiKeys issuerId caller) Q
        n := by
  unfold listIssuedApiKeys
  apply Watched.wp_view_perform_bind ⟨hrefused, trivial⟩
  intro s env _ r n' _ hn'
  subst hn'
  cases r with
  | none => exact hQ _ _ hrefused
  | some issuer =>
    dsimp only
    cases authorizeKeyView caller.scopes caller.id issuer.id with
    | error e => exact hQ _ _ hrefused
    | ok u =>
      rw [wp_bind, wp_ofExcept]
      apply Watched.wp_view_read ⟨hrefused, trivial⟩ (fun _ _ => rfl)
      intro _ _ _ issued _
      exact hQ _ _ hrefused

theorem wp_run (request : Request)
    : wp noted.view (fun _ => True) (guard hashSecret request) (request.run hashSecret)
        (fun r n' => Ends r n') {} := by
  unfold Request.run
  rw [wp_bind]
  apply wp_authenticate request.rawKey rfl rfl
  . intro e n' hrefused
    exact ends_of_not_refused hrefused
  . intro n' _ _
    rfl
  . intro caller
    dsimp only
    unfold Request.serve
    split
    . exact ends_of_not_refused rfl
    . rw [wp_map]
      exact wp_postApiKeys rfl (fun _ _ h => ends_of_not_refused h)
    . rw [wp_map]
      exact wp_revokeApiKey rfl rfl rfl (fun _ _ h => ends_of_not_refused h)
    . rw [wp_map]
      exact wp_listIssuedApiKeys rfl (fun _ _ h => ends_of_not_refused h)

end rules

section runs

variable (hashSecret requests)

def start (s : Store) : Pool signature KeyErr Response Store Note ι where
  state := s
  threads i := (requests i).run hashSecret
  notes _ := {}

variable {hashSecret requests}

theorem holds_start (hconsistent : Consistent origin origin)
    : (protocol hashSecret requests origin).Holds (fun _ r n => Ends r n)
        (start hashSecret requests origin) := by
  refine ⟨⟨hconsistent, ?_, nofun⟩, ?_⟩
  . intro i
    exact ⟨nofun, nofun, nofun⟩
  . intro i
    exact wp_run (requests i)

variable {pool pool' : Pool signature KeyErr Response Store Note ι}

theorem keeps_reaches
    (hholds : (protocol hashSecret requests origin).Holds (fun _ r n => Ends r n) pool)
    (h : Reaches noted anyTime pool pool') : Keeps pool.state pool'.state := by
  induction h with
  | refl => exact .refl _
  | @tail pool1 pool2 hreaches hstep ih =>
    have hholds1 := hholds.reaches hreaches
    have ⟨i, hstep⟩ := hstep
    cases hstep with
    | @call c k env hthread _ =>
      exact ih.trans (changes_exec env (hholds1.guard hthread) (hholds1.inv.knows i)).left

theorem turned_down
    (hholds : (protocol hashSecret requests origin).Holds (fun _ r n => Ends r n) pool)
    {keyHash : String} {k : Option ApiKey → KeyService Response}
    (hthread : pool.threads i = .call (.getByHashAcrossTenants keyHash) k) {id : ApiKeyId} {key : ApiKey}
    (hkey : pool.state.keys.get? id = some key) (hhash : key.keyHash = keyHash)
    (hrevoked : key.revokedAt.isSome = true) (hstep : Pool.Step noted anyTime i pool pool')
    : pool'.threads i = .raise (.invalidApiKey "invalid or revoked credential") := by
  have hholds' := hholds.step hstep
  have hrefused : (pool'.notes i).refused = true := by
    cases hstep with
    | @call c k' env hthread' _ =>
      rw [hthread] at hthread'
      injection hthread' with hc
      subst hc
      dsimp only [advance]
      rw [Function.update_self]
      dsimp only [noted]
      have hread := getByHashAcrossTenants_of_stored hholds.inv.consistent hkey
      rw [hhash] at hread
      rw [hread]
      dsimp only
      rw [if_pos hrevoked]
  cases hthread' : pool'.threads i with
  | ret a =>
    have := hholds'.result hthread' hrefused
    contradiction
  | raise e =>
    have := hholds'.error hthread' hrefused
    injection this with this
    rw [this]
  | call c k' =>
    have hguard : guard hashSecret (requests i) (pool'.notes i) c := hholds'.guard hthread'
    rw [hguard.left] at hrefused
    contradiction

theorem revokes_of_exec (hguard : guard hashSecret request n c) (hknows : Knows hashSecret request s n)
    {id : ApiKeyId} {key key' : ApiKey} (hkey : s.keys.get? id = some key)
    (hactive : key.revokedAt.isSome = false) (hkey' : (c.exec env s).2.keys.get? id = some key')
    (hrevoked : key'.revokedAt.isSome = true)
    : ∃ saved, Revokes request n saved ∧ saved.id = id := by
  have hunchanged : ¬s.keys.get? id = some key' := by
    intro hsame
    rw [hkey] at hsame
    injection hsame with hsame
    rw [← hsame, hactive] at hrevoked
    contradiction
  cases c with
  | save saved =>
    dsimp only [KeyCall.exec] at hkey'
    cases hsave : PostgresApiKeyRepository.save s saved with
    | error e =>
      rw [hsave] at hkey'
      contradiction
    | ok s' =>
      rw [hsave] at hkey'
      cases hguard.right with
      | inl hcreates =>
        obtain ⟨hcreated, hs'⟩ := save_of_creates hcreates (hknows.drawn _ hcreates.drawn).left hsave
        rw [hs'] at hkey'
        dsimp only [commit] at hkey'
        rw [Table.get?_upsert] at hkey'
        split at hkey'
        . next heq =>
          rw [← heq, hcreated.absent] at hkey
          contradiction
        . contradiction
      | inr hrevokes =>
        refine ⟨saved, hrevokes, ?_⟩
        by_contra hne
        obtain ⟨row, row', _, hid, _, hsame, _, hsave'⟩ := save_of_revokes hrevokes hknows
        have hid' : row'.id ≠ id := by
          rw [congr_identity ApiKey.id (fun _ => rfl) hsame, hid]
          exact hne
        rw [hsave] at hsave'
        injection hsave' with hs'
        rw [hs'] at hkey'
        dsimp only [commit] at hkey'
        rw [Table.get?_upsert_of_ne _ hid'] at hkey'
        contradiction
  | markUsed id' tenant =>
    dsimp only [KeyCall.exec] at hkey'
    cases hmark : PostgresApiKeyRepository.markUsed env s id' tenant with
    | error e =>
      rw [hmark] at hkey'
      contradiction
    | ok s' =>
      obtain ⟨row, hrow, hs'⟩ := markUsed_eq_ok hmark
      rw [hmark, hs'] at hkey'
      dsimp only [commit] at hkey'
      rw [Table.get?_upsert] at hkey'
      split at hkey'
      . next heq =>
        have hrow' : row.id = id := heq
        rw [hrow', hkey] at hrow
        injection hrow with hrow
        injection hkey' with hkey'
        rw [← hkey', ← hrow, hactive] at hrevoked
        contradiction
      . contradiction
  | _ => contradiction

theorem revoked_by_caller
    (hholds : (protocol hashSecret requests origin).Holds (fun _ r n => Ends r n) pool)
    (hstep : Pool.Step noted anyTime i pool pool') {id : ApiKeyId} {key key' : ApiKey}
    (hkey : pool.state.keys.get? id = some key) (hactive : key.revokedAt.isSome = false)
    (hkey' : pool'.state.keys.get? id = some key') (hrevoked : key'.revokedAt.isSome = true)
    : ∃ rawKey caller, requests i = .revoke rawKey id
        ∧ pool.state.keys.get? caller.id = some caller
        ∧ caller.keyHash = hashSecret rawKey
        ∧ MayRevoke caller key := by
  cases hstep with
  | @call c k env hthread _ =>
    have hknows := hholds.inv.knows i
    have ⟨saved, hrevokes, hid⟩ :=
      revokes_of_exec (hholds.guard hthread) hknows hkey hactive hkey' hrevoked
    have ⟨rawKey, caller, target, now, hrequest, hcaller, htarget, hsaved, hmay⟩ := hrevokes
    have ⟨hhash, row, hrow, hsame⟩ := hknows.caller caller hcaller
    have ⟨key1, hkey1, hsame1⟩ := hknows.target target htarget
    -- the key that was loaded is the one that is stored, as far as the decision goes
    have htargetId : target.id = id := by
      rw [← hid, hsaved]
    rw [htargetId, hkey] at hkey1
    injection hkey1 with hkey1
    rw [← hkey1] at hsame1
    have hrowId := Table.key_of_get? hrow
    rw [hid] at hrequest
    refine ⟨rawKey, row, hrequest, ?_, ?_, ?_, ?_⟩
    . rw [hrowId]
      exact hrow
    . rw [congr_identity ApiKey.keyHash (fun _ => rfl) hsame, hhash, hrequest]
      rfl
    . rw [congr_identity ApiKey.tenantId (fun _ => rfl) hsame,
        congr_identity ApiKey.tenantId (fun _ => rfl) hsame1]
      exact hmay.left
    . rw [congr_identity ApiKey.scopes (fun _ => rfl) hsame, hrowId,
        congr_identity ApiKey.issuedBy (fun _ => rfl) hsame1]
      exact hmay.right

theorem revocation_permanent (hconsistent : Consistent origin origin)
    (hreaches : Reaches noted anyTime (start hashSecret requests origin) pool)
    : (∀ pool', Reaches noted anyTime pool pool' → ∀ id key, pool.state.keys.get? id = some key →
          ∃ key', pool'.state.keys.get? id = some key' ∧ key'.tenantId = key.tenantId
            ∧ key'.keyHash = key.keyHash ∧ key'.issuedBy = key.issuedBy
            ∧ (key.revokedAt.isSome = true → key'.revokedAt.isSome = true))
        ∧ (∀ i pool' id key k, pool.state.keys.get? id = some key → key.revokedAt.isSome = true →
          pool.threads i = .call (.getByHashAcrossTenants key.keyHash) k →
          Pool.Step noted anyTime i pool pool' →
          pool'.threads i = .raise (.invalidApiKey "invalid or revoked credential"))
        ∧ (∀ id key issuerId, pool.state.keys.get? id = some key → key.issuedBy = some issuerId →
          ∃ issuer, pool.state.keys.get? issuerId = some issuer ∧ issuer.tenantId = key.tenantId)
        ∧ (∀ id key, pool.state.keys.get? id = some key → origin.keys.get? id = none → key.scopes = [])
        ∧ (∀ i pool' id key key', Pool.Step noted anyTime i pool pool' →
          pool.state.keys.get? id = some key → key.revokedAt.isSome = false →
          pool'.state.keys.get? id = some key' → key'.revokedAt.isSome = true →
          ∃ rawKey caller, requests i = .revoke rawKey id
            ∧ pool.state.keys.get? caller.id = some caller
            ∧ caller.keyHash = hashSecret rawKey
            ∧ MayRevoke caller key) := by
  have hpool := (holds_start hconsistent).reaches hreaches
  refine ⟨?_, ?_, ?_, hpool.inv.consistent.created, ?_⟩
  . intro pool' hlater id key hkey
    have ⟨key', hkey', hsame, hrevoked⟩ := keeps_reaches hpool hlater id key hkey
    exact ⟨key', hkey', congr_identity ApiKey.tenantId (fun _ => rfl) hsame,
      congr_identity ApiKey.keyHash (fun _ => rfl) hsame,
      congr_identity ApiKey.issuedBy (fun _ => rfl) hsame, hrevoked⟩
  . intro i pool' id key k hkey hrevoked hthread hstep
    exact turned_down hpool hthread hkey rfl hrevoked hstep
  . intro id key issuerId hkey hissued
    have hissuer := hpool.inv.consistent.issuer id key hkey
    unfold PostgresApiKeyRepository.issuerSameTenant at hissuer
    rw [hissued, Option.all_some, Option.any_eq_true] at hissuer
    have ⟨issuer, hget, htenant⟩ := hissuer
    exact ⟨issuer, hget, of_decide_eq_true htenant⟩
  . intro i pool' id key key' hstep hkey hactive hkey' hrevoked
    exact revoked_by_caller hpool hstep hkey hactive hkey' hrevoked

end runs

end protocol

def manager : ApiKey :=
  { id := ⟨0⟩, keyHash := "m", label := "manager", createdAt := 0, tenantId := ⟨0⟩, scopes := [keysManage] }

def oneManager : Store where
  keys := Table.empty.upsert manager
  tenants := [⟨0⟩]
  nextId := 1

theorem consistent_oneManager : Consistent oneManager oneManager := by
  have hkey : ∀ id key, oneManager.keys.get? id = some key → key = manager ∧ id = ⟨0⟩ := by
    intro id key hget
    have hmem : key = manager := List.mem_singleton.mp (Table.mem_of_get? hget)
    have hid := Table.key_of_get? hget
    rw [hmem] at hid
    exact ⟨hmem, hid.symm⟩
  refine ⟨?_, ?_, ?_, ?_⟩
  . intro id key hget
    rw [(hkey id key hget).left]
    rfl
  . intro id id' key key' hget hget' _
    rw [(hkey id key hget).right, (hkey id' key' hget').right]
  . intro id key hget
    rw [(hkey id key hget).right]
    decide
  . intro id key hget habsent
    rw [hget] at habsent
    contradiction

def issueRevokeUse (i : Fin 3) : Request :=
  match i with
  | 0 => .postApiKeys "m" "agent"
  | 1 => .revoke "m" ⟨1⟩
  | 2 => .authenticate "s"

def inTurn : List (Fin 3 × Env) :=
  List.replicate 6 (0, { now := 1, secret := "s" }) ++ List.replicate 5 (1, { now := 2 })

def lookedUp (p : KeyService Response) : Option String :=
  match p with
  | .call (.getByHashAcrossTenants keyHash) _ => some keyHash
  | _ => none

theorem eq_call_of_lookedUp {p : KeyService Response} {keyHash : String} (h : lookedUp p = some keyHash)
    : ∃ k, p = .call (.getByHashAcrossTenants keyHash) k := by
  unfold lookedUp at h
  split at h
  . injection h with h
    rw [h]
    exact ⟨_, rfl⟩
  . contradiction

theorem revocation_permanent_inTurn
    : ∃ pool pool', Reaches noted anyTime (start id issueRevokeUse oneManager) pool
        ∧ Pool.Step noted anyTime 2 pool pool'
        ∧ (∃ key, pool.state.keys.get? ⟨1⟩ = some key ∧ key.revokedAt = some 2 ∧ key.scopes = [])
        ∧ pool'.threads 2 = .raise (.invalidApiKey "invalid or revoked credential") := by
  have ⟨pool, hreaches, hkey, hlookup⟩ := exists_reaches_of_play (W := noted) (C := anyTime)
    (start id issueRevokeUse oneManager) inTurn
    (fun pool => (pool.state.keys.get? ⟨1⟩).any (fun key => key.revokedAt = some 2 ∧ key.keyHash = "s")
      ∧ lookedUp (pool.threads 2) = some "s")
    (by decide +kernel)
  rw [Option.any_eq_true] at hkey
  have ⟨key, hget, hfacts⟩ := hkey
  have ⟨hrevoked, hhash⟩ := of_decide_eq_true hfacts
  have ⟨k, hthread⟩ := eq_call_of_lookedUp hlookup
  have ⟨_, hturnedDown, _, hcreated, _⟩ := revocation_permanent consistent_oneManager hreaches
  rw [← hhash] at hthread
  have hstep : Pool.Step noted anyTime 2 pool
      (pool.advance noted 2 (.getByHashAcrossTenants key.keyHash) k { now := 3 }) :=
    .call _ hthread trivial
  refine ⟨pool, _, hreaches, hstep, ⟨key, hget, hrevoked, hcreated ⟨1⟩ key hget rfl⟩, ?_⟩
  apply hturnedDown 2 _ ⟨1⟩ key k hget _ hthread hstep
  rw [hrevoked]
  rfl

end ApiKeys

end AetherGrid
