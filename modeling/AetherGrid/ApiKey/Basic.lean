import AetherGrid.Prog.Basic
import AetherGrid.Store.Basic

/-!
This module contains API keys: the entity, the table on Postgres and the services that authenticate,
issue, revoke and list keys.
-/

namespace AetherGrid

structure ApiKeyId where
  value : Nat
  deriving DecidableEq, Repr

structure ApiKey where
  id : ApiKeyId
  keyHash : String
  label : String
  createdAt : Time
  tenantId : TenantId
  revokedAt : Option Time := none
  lastUsedAt : Option Time := none
  scopes : List String := []
  issuedBy : Option ApiKeyId := none
  deriving DecidableEq, Repr

namespace ApiKeys

inductive KeyErr where
  | invalidApiKey (message : String)
  | apiKeyNotFound (id : ApiKeyId)
  | apiKeyTenantConflict (message : String)
  | scopeDenied (scope : String)
  | unknownApiKeyScope (scope : String)
  | tenantNotFound (tenant : TenantId)
  | valueError (message : String)
  | uniqueViolation (index : String)
  | foreignKeyViolation (constraint : String)
  deriving DecidableEq, Repr

def jobsExecute : String := "jobs:execute"

def keysManage : String := "keys:manage"

def knownScopes : List String := [jobsExecute, keysManage]

def validateScopes (scopes : List String) : Except KeyErr (List String) :=
  match (scopes.filter (fun scope => !knownScopes.contains scope)).mergeSort with
  | [] => .ok scopes
  | scope :: _ => .error (.unknownApiKeyScope scope)

def authorizeKeyManagement (scopes : List String) : Except KeyErr Unit :=
  if keysManage ∉ scopes then .error (.scopeDenied keysManage) else .ok ()

def authorizeKeyRevocation (callerScopes : List String) (callerId : ApiKeyId)
    (targetIssuedBy : Option ApiKeyId) : Except KeyErr Unit :=
  if keysManage ∈ callerScopes then
    .ok ()
  else if targetIssuedBy = some callerId then
    .ok ()
  else
    .error (.scopeDenied keysManage)

def authorizeKeyView (callerScopes : List String) (callerId requestedIssuerId : ApiKeyId)
    : Except KeyErr Unit :=
  if keysManage ∈ callerScopes then
    .ok ()
  else if callerId = requestedIssuerId then
    .ok ()
  else
    .error (.scopeDenied keysManage)

def isSpace (c : Char) : Bool :=
  let n := c.toNat
  (9 ≤ n && n ≤ 13) || (28 ≤ n && n ≤ 32) || n = 0x85 || n = 0xa0 || n = 0x1680
    || (0x2000 ≤ n && n ≤ 0x200a) || n = 0x2028 || n = 0x2029 || n = 0x202f || n = 0x205f || n = 0x3000

def strip (s : String) : String :=
  String.ofList (((s.toList.dropWhile isSpace).reverse.dropWhile isSpace).reverse)

structure Store where
  keys : Table ApiKeyId ApiKey ApiKey.id
  tenants : List TenantId
  nextId : Nat

structure Env where
  now : Time
  -- what `secrets.token_urlsafe` comes up with
  secret : String := ""
  keyOrder : RowOrder ApiKey := .stored ApiKey

namespace PostgresApiKeyRepository

def issuerSameTenant (s : Store) (key : ApiKey) : Bool :=
  key.issuedBy.all (fun issuer => (s.keys.get? issuer).any (·.tenantId = key.tenantId))

def save (s : Store) (key : ApiKey) : Except KeyErr Store :=
  match s.keys.get? key.id with
  | some row =>
    if row.tenantId = key.tenantId then
      let row :=
        { row with revokedAt := key.revokedAt, lastUsedAt := key.lastUsedAt, scopes := key.scopes }
      .ok { s with keys := s.keys.upsert row }
    else
      .error (.apiKeyTenantConflict
        ("api key " ++ toString key.id.value ++ " belongs to another tenant"))
  | none =>
    if s.keys.rows.any (·.keyHash = key.keyHash) then
      .error (.uniqueViolation "idx_api_keys_key_hash")
    else if key.tenantId ∉ s.tenants then
      .error (.foreignKeyViolation "api_keys_tenant_id_fkey")
    else if !issuerSameTenant s key then
      .error (.foreignKeyViolation "api_keys_issuer_same_tenant")
    else
      .ok { s with keys := s.keys.upsert key }

def getById (s : Store) (id : ApiKeyId) (tenant : TenantId) : Option ApiKey :=
  (s.keys.get? id).filter (·.tenantId = tenant)

def getByHashAcrossTenants (s : Store) (keyHash : String) : Option ApiKey :=
  s.keys.rows.find? (·.keyHash = keyHash)

def markUsed (env : Env) (s : Store) (id : ApiKeyId) (tenant : TenantId) : Except KeyErr Store :=
  match getById s id tenant with
  | none => .error (.apiKeyNotFound id)
  | some row => .ok { s with keys := s.keys.upsert { row with lastUsedAt := some env.now } }

def listIssuedBy (env : Env) (s : Store) (issuer : ApiKeyId) (tenant : TenantId) : List ApiKey :=
  env.keyOrder.sort (s.keys.rows.filter (fun key => key.issuedBy = some issuer ∧ key.tenantId = tenant))

end PostgresApiKeyRepository

inductive KeyCall where
  | utcNow
  | newId
  | tokenUrlsafe
  | getTenant (tenant : TenantId)
  | save (key : ApiKey)
  | markUsed (id : ApiKeyId) (tenant : TenantId)
  | getById (id : ApiKeyId) (tenant : TenantId)
  | getByHashAcrossTenants (keyHash : String)
  | listIssuedBy (issuer : ApiKeyId) (tenant : TenantId)

abbrev KeyCall.Res (c : KeyCall) : Type :=
  match c with
  | .utcNow => Time
  | .newId => ApiKeyId
  | .tokenUrlsafe => String
  | .getTenant _ => Bool
  | .save _ => Except KeyErr Unit
  | .markUsed _ _ => Except KeyErr Unit
  | .getById _ _ => Option ApiKey
  | .getByHashAcrossTenants _ => Option ApiKey
  | .listIssuedBy _ _ => List ApiKey

abbrev signature : Signature where
  Call := KeyCall
  Res := KeyCall.Res

def commit (s : Store) (r : Except KeyErr Store) : Except KeyErr Unit × Store :=
  match r with
  | .ok s' => (.ok (), s')
  | .error e => (.error e, s)

def KeyCall.exec (c : KeyCall) (env : Env) (s : Store) : c.Res × Store :=
  match c with
  | .utcNow => (env.now, s)
  | .newId => (⟨s.nextId⟩, { s with nextId := s.nextId + 1 })
  | .tokenUrlsafe => (env.secret, s)
  | .getTenant tenant => (tenant ∈ s.tenants, s)
  | .save key => commit s (PostgresApiKeyRepository.save s key)
  | .markUsed id tenant => commit s (PostgresApiKeyRepository.markUsed env s id tenant)
  | .getById id tenant => (PostgresApiKeyRepository.getById s id tenant, s)
  | .getByHashAcrossTenants keyHash => (PostgresApiKeyRepository.getByHashAcrossTenants s keyHash, s)
  | .listIssuedBy issuer tenant => (PostgresApiKeyRepository.listIssuedBy env s issuer tenant, s)

abbrev KeyService := Prog signature KeyErr

namespace ApiKeyRepository

@[simp]
def getById (id : ApiKeyId) (tenant : TenantId) : KeyService (Option ApiKey) :=
  Prog.perform (S := signature) (.getById id tenant)

@[simp]
def getByHashAcrossTenants (keyHash : String) : KeyService (Option ApiKey) :=
  Prog.perform (S := signature) (.getByHashAcrossTenants keyHash)

@[simp]
def listIssuedBy (issuer : ApiKeyId) (tenant : TenantId) : KeyService (List ApiKey) :=
  Prog.perform (S := signature) (.listIssuedBy issuer tenant)

def save (key : ApiKey) : KeyService Unit :=
  .call (S := signature) (.save key) Prog.ofExcept

def markUsed (id : ApiKeyId) (tenant : TenantId) : KeyService Unit :=
  .call (S := signature) (.markUsed id tenant) Prog.ofExcept

end ApiKeyRepository

@[simp]
def utcNow : KeyService Time := Prog.perform (S := signature) .utcNow

@[simp]
def newId : KeyService ApiKeyId := Prog.perform (S := signature) .newId

@[simp]
def tokenUrlsafe : KeyService String := Prog.perform (S := signature) .tokenUrlsafe

@[simp]
def tenantExists (tenant : TenantId) : KeyService Bool :=
  Prog.perform (S := signature) (.getTenant tenant)

section services

variable (hashSecret : String → String)

def issue (label : String) (tenantId : TenantId) (scopes : List String) (issuedBy : Option ApiKeyId)
    : KeyService (ApiKey × String) := do
  if (strip label).isEmpty then
    .raise (.valueError "label must be a non-empty, human-readable identifier for the caller")
  else
    let scopes ← Prog.ofExcept (validateScopes scopes)
    let rawKey ← tokenUrlsafe
    let id ← newId
    let now ← utcNow
    let key : ApiKey :=
      { id
        keyHash := hashSecret rawKey
        label := strip label
        createdAt := now
        tenantId
        scopes
        issuedBy }
    return (key, rawKey)

def issueChild (issuer : ApiKey) (label : String) (scopes : List String := [])
    : KeyService (ApiKey × String) :=
  issue hashSecret label issuer.tenantId scopes (some issuer.id)

def authenticate (rawKey : String) : KeyService ApiKey := do
  if rawKey.isEmpty then
    .raise (.invalidApiKey "no credential presented")
  else
    match ← ApiKeyRepository.getByHashAcrossTenants (hashSecret rawKey) with
    | none => .raise (.invalidApiKey "invalid or revoked credential")
    | some key =>
      if key.revokedAt.isSome then
        .raise (.invalidApiKey "invalid or revoked credential")
      else
        ApiKeyRepository.markUsed key.id key.tenantId
        return key

structure IssuedApiKey where
  id : ApiKeyId
  label : String
  plaintextKey : String
  scopes : List String

def createApiKey (label : String) (scopes : List String := []) (issuer : Option ApiKey := none)
    (tenantId : Option TenantId := none) : KeyService IssuedApiKey := do
  let (key, rawKey) ←
    match issuer, tenantId with
    | some issuer, none => issueChild hashSecret issuer label scopes
    | none, some tenantId => do
      if ← tenantExists tenantId then
        issue hashSecret label tenantId scopes none
      else
        .raise (.tenantNotFound tenantId)
    | _, _ => .raise (.valueError "exactly one of issuer and tenant_id is required")
  ApiKeyRepository.save key
  return ⟨key.id, key.label, rawKey, key.scopes⟩

def revokeApiKey (id : ApiKeyId) (caller : ApiKey) : KeyService Unit := do
  match ← ApiKeyRepository.getById id caller.tenantId with
  | none => .raise (.apiKeyNotFound id)
  | some key =>
    Prog.ofExcept (authorizeKeyRevocation caller.scopes caller.id key.issuedBy)
    if key.revokedAt.isSome then
      return
    else
      let now ← utcNow
      ApiKeyRepository.save { key with revokedAt := some now }

def maxIssuedKeysReturned : Nat := 100

def listIssuedApiKeys (issuerId : ApiKeyId) (caller : ApiKey) : KeyService (List ApiKey) := do
  match ← ApiKeyRepository.getById issuerId caller.tenantId with
  | none => .raise (.apiKeyNotFound issuerId)
  | some issuer =>
    Prog.ofExcept (authorizeKeyView caller.scopes caller.id issuer.id)
    let issued ← ApiKeyRepository.listIssuedBy issuerId caller.tenantId
    return issued.take maxIssuedKeysReturned

inductive Request where
  | authenticate (rawKey : String)
  | postApiKeys (rawKey : String) (label : String)
  | revoke (rawKey : String) (id : ApiKeyId)
  | listIssued (rawKey : String) (issuerId : ApiKeyId)

def Request.rawKey (request : Request) : String :=
  match request with
  | .authenticate rawKey | .postApiKeys rawKey _ | .revoke rawKey _ | .listIssued rawKey _ => rawKey

def postApiKeys (caller : ApiKey) (label : String) : KeyService IssuedApiKey := do
  Prog.ofExcept (authorizeKeyManagement caller.scopes)
  createApiKey hashSecret label [] (some caller)

inductive Response where
  | authenticated (caller : ApiKey)
  | created (issued : IssuedApiKey)
  | revoked
  | issued (keys : List ApiKey)

def Request.serve (request : Request) (caller : ApiKey) : KeyService Response :=
  match request with
  | .authenticate _ => return .authenticated caller
  | .postApiKeys _ label => .created <$> ApiKeys.postApiKeys hashSecret caller label
  | .revoke _ id => (fun _ => .revoked) <$> revokeApiKey id caller
  | .listIssued _ issuerId => .issued <$> listIssuedApiKeys issuerId caller

def Request.run (request : Request) : KeyService Response := do
  let caller ← ApiKeys.authenticate hashSecret request.rawKey
  request.serve hashSecret caller

end services

end ApiKeys

end AetherGrid
