import AetherGrid.Http.Confinement

/-!
This module contains what tenants may rely on: a request does for its caller what it would do if there
were no other tenant, and nothing to the rows of the others.
-/

namespace AetherGrid

open Prog

namespace ApiKeys

structure Store.Used (s s' : Store) : Prop where
  nextId : s'.nextId = s.nextId
  rows : ∀ row ∈ s'.keys.rows, ∃ old ∈ s.keys.rows, old.id = row.id ∧ old.keyHash = row.keyHash

theorem Store.Used.refl (s : Store) : Store.Used s s :=
  ⟨rfl, fun row hrow => ⟨row, hrow, rfl, rfl⟩⟩

variable {T : TenantId} {s : Store} {H : Env → Prop} {hashSecret : String → String} {caller : ApiKey}

/--
Every call `program` makes from `s` on is within the tenant, and what it returns satisfies `Q`.
-/
abbrev KeepsWithin {α : Type} (T : TenantId) (H : Env → Prop) (program : KeyService α) (s : Store)
    (Q : α → Store → Prop) : Prop :=
  Prog.Keeps postgres H (Confined T) program s Q

theorem Store.used_markUsed (env : Env) (id : ApiKeyId) (tenant : TenantId)
    : Store.Used s (KeyCall.exec (.markUsed id tenant) env s).2 := by
  change Store.Used s (commit s (PostgresApiKeyRepository.markUsed env s id tenant)).2
  unfold PostgresApiKeyRepository.markUsed
  split
  . exact .refl s
  . next key hkey =>
    unfold PostgresApiKeyRepository.getById at hkey
    rw [Option.filter_eq_some_iff] at hkey
    refine ⟨rfl, ?_⟩
    intro row hrow
    rcases (Table.mem_upsert _ _ _).mp hrow with heq | ⟨hmem, _⟩
    . rw [heq]
      exact ⟨key, Table.mem_of_get? hkey.left, rfl, rfl⟩
    . exact ⟨row, hmem, rfl, rfl⟩

namespace KeepsWithin

theorem getByHashAcrossTenants {keyHash : String}
    (howner : ∀ row ∈ s.keys.rows, row.keyHash = keyHash → row.tenantId = T)
    : KeepsWithin T H (ApiKeyRepository.getByHashAcrossTenants keyHash) s
      (fun found s' => s' = s ∧ ∀ key, found = some key → key.tenantId = T) := by
  refine .perform howner fun env _ => ⟨rfl, ?_⟩
  intro key hkey
  have hkey : s.keys.rows.find? (·.keyHash = keyHash) = some key := hkey
  exact howner key (List.mem_of_find?_eq_some hkey) (by simpa using List.find?_some hkey)

theorem getById {id : ApiKeyId}
    : KeepsWithin T H (ApiKeyRepository.getById id T) s
      (fun found s' => s' = s ∧ ∀ key, found = some key →
        key.tenantId = T ∧ s.keys.get? key.id = some key) := by
  refine .perform rfl fun env _ => ⟨rfl, ?_⟩
  intro key hkey
  have hkey : (s.keys.get? id).filter (·.tenantId = T) = some key := hkey
  rw [Option.filter_eq_some_iff, decide_eq_true_eq] at hkey
  rw [Table.key_of_get? hkey.left]
  exact ⟨hkey.right, hkey.left⟩

theorem save {key : ApiKey} (hc : Confined T s (.save key))
    : KeepsWithin T H (ApiKeyRepository.save key) s (fun _ _ => True) := by
  unfold ApiKeyRepository.save
  exact .call hc fun _ _ _ => trivial

theorem markUsed {id : ApiKeyId} {tenant : TenantId} (htenant : tenant = T)
    : KeepsWithin T H (ApiKeyRepository.markUsed id tenant) s (fun _ s' => Store.Used s s') := by
  unfold ApiKeyRepository.markUsed
  exact .call htenant fun env _ _ => Store.used_markUsed env _ _

end KeepsWithin

theorem keeps_authenticate {rawKey : String}
    (howner : ∀ row ∈ s.keys.rows, row.keyHash = hashSecret rawKey → row.tenantId = T)
    : KeepsWithin T H (authenticate hashSecret rawKey) s
      (fun caller s' => caller.tenantId = T ∧ Store.Used s s') := by
  unfold authenticate
  split
  . exact .raise
  . refine .bind (KeepsWithin.getByHashAcrossTenants howner) ?_
    intro found s1 ⟨hs1, hfound⟩
    subst hs1
    cases found with
    | none => exact .raise
    | some key =>
      have htenant := hfound key rfl
      dsimp only
      split
      . exact .raise
      . refine .bind (KeepsWithin.markUsed htenant) ?_
        intro _ s2 hused
        exact .pure ⟨htenant, hused⟩

theorem keeps_issue (label : String) (scopes : List String) (issuedBy : Option ApiKeyId)
    : KeepsWithin T H (issue hashSecret label T scopes issuedBy) s
      (fun issued s' => issued.1.tenantId = T ∧ issued.1.id = ⟨s.nextId⟩
        ∧ (∃ env, H env ∧ issued.1.keyHash = hashSecret env.secret) ∧ s'.keys = s.keys) := by
  have hscopes : KeepsWithin T H (Prog.ofExcept (validateScopes scopes)) s (fun _ s' => s' = s) :=
    .ofExcept fun _ _ => rfl
  have hsecret : KeepsWithin T H tokenUrlsafe s
      (fun rawKey s' => s' = s ∧ ∃ env, H env ∧ rawKey = env.secret) :=
    .perform trivial fun env henv => ⟨rfl, env, henv, rfl⟩
  have hid : KeepsWithin T H newId s (fun id s' => id = ⟨s.nextId⟩ ∧ s'.keys = s.keys) :=
    .perform trivial fun _ _ => ⟨rfl, rfl⟩
  unfold issue
  split
  . exact .raise
  . refine .bind hscopes ?_
    intro scopes s1 hs1
    subst hs1
    refine .bind hsecret ?_
    intro rawKey s2 ⟨hs2, env, henv, hrawKey⟩
    subst hs2
    refine .bind hid ?_
    intro id s3 ⟨hid, hs3⟩
    have hnow : KeepsWithin T H utcNow s3 (fun _ s' => s' = s3) := .perform trivial fun _ _ => rfl
    refine .bind hnow ?_
    intro now s4 hs4
    subst hs4
    exact .pure ⟨rfl, hid, ⟨env, henv, congrArg hashSecret hrawKey⟩, hs3⟩

theorem keeps_createApiKey (label : String) (hcaller : caller.tenantId = T)
    (hids : ∀ row ∈ s.keys.rows, row.id.value < s.nextId)
    (hsecret : ∀ env, H env → ∀ row ∈ s.keys.rows, row.keyHash ≠ hashSecret env.secret)
    : KeepsWithin T H (createApiKey hashSecret label [] (some caller)) s (fun _ _ => True) := by
  unfold createApiKey issueChild
  dsimp only
  rw [hcaller]
  refine .bind (keeps_issue label [] (some caller.id)) ?_
  intro issued s1 ⟨htenant, hid, ⟨env, henv, hhash⟩, hkeys⟩
  have hnew : s1.keys.get? issued.1.id = none := by
    rw [hkeys, Option.eq_none_iff_forall_ne_some]
    exact Http.get?_fresh (fun id => id.value) hids (congrArg ApiKeyId.value hid)
  have hconfined : Confined T s1 (.save issued.1) := by
    refine ⟨htenant, ?_, ?_⟩
    . rw [hnew]
      exact nofun
    . intro _ row hrow
      rw [hkeys] at hrow
      rw [hhash]
      exact hsecret env henv row hrow
  refine .bind (KeepsWithin.save hconfined) ?_
  intro _ _ _
  exact .pure trivial

theorem keeps_revokeApiKey {id : ApiKeyId} (hcaller : caller.tenantId = T)
    : KeepsWithin T H (revokeApiKey id caller) s (fun _ _ => True) := by
  unfold revokeApiKey
  rw [hcaller]
  refine .bind KeepsWithin.getById ?_
  intro found s1 ⟨hs1, hfound⟩
  subst hs1
  cases found with
  | none => exact .raise
  | some key =>
    have ⟨htenant, hget⟩ := hfound key rfl
    have hauthorize : KeepsWithin T H (Prog.ofExcept (authorizeKeyRevocation caller.scopes caller.id key.issuedBy))
        s1 (fun _ s' => s' = s1) :=
      .ofExcept fun _ _ => rfl
    refine .bind hauthorize ?_
    intro _ s2 hs2
    subst hs2
    split
    . exact .pure trivial
    . have hnow : KeepsWithin T H utcNow s2 (fun _ s' => s' = s2) := .perform trivial fun _ _ => rfl
      refine .bind hnow ?_
      intro now s3 hs3
      subst hs3
      refine KeepsWithin.save ⟨htenant, ?_, ?_⟩
      . intro row hrow
        have := hget.symm.trans hrow
        injection this with this
        rw [← this]
        exact htenant
      . intro hnone
        have := hget.symm.trans hnone
        contradiction

theorem keeps_listIssuedApiKeys {id : ApiKeyId} (hcaller : caller.tenantId = T)
    : KeepsWithin T H (listIssuedApiKeys id caller) s (fun _ _ => True) := by
  unfold listIssuedApiKeys
  rw [hcaller]
  refine .bind KeepsWithin.getById ?_
  intro found s1 _
  cases found with
  | none => exact .raise
  | some issuer =>
    have hauthorize : KeepsWithin T H (Prog.ofExcept (authorizeKeyView caller.scopes caller.id issuer.id)) s1
        (fun _ _ => True) :=
      .ofExcept fun _ _ => trivial
    have hissued : ∀ s', KeepsWithin T H (ApiKeyRepository.listIssuedBy id T) s' (fun _ _ => True) :=
      fun _ => .perform rfl fun _ _ => trivial
    refine .bind hauthorize ?_
    intro _ s2 _
    refine .bind (hissued s2) ?_
    intro _ _ _
    exact .pure trivial

section runs

variable {α : Type} {program : KeyService α} {Q : α → Store → Prop} {clock : Nat → Env}

theorem evalAlong_only (hclock : ∀ n, H (clock n)) (h : KeepsWithin T H program s Q)
    : evalAlong postgres (fun _ => true) clock program (s.only T)
        =
      ((evalAlong postgres (fun _ => true) clock program s).1,
        (evalAlong postgres (fun _ => true) clock program s).2.only T) :=
  evalAlong_project (Store.only T) (fun _ => True) (fun _ _ _ _ _ _ => trivial)
    (fun _ _ env _ hc _ => Store.exec_only hc env) hclock h.wp trivial

theorem sameOthers_evalAlong (hclock : ∀ n, H (clock n)) (h : KeepsWithin T H program s Q)
    : Store.SameOthers T s (evalAlong postgres (fun _ => true) clock program s).2 := by
  have hkeep := wp_keep (Store.SameOthers T s)
    (fun _ _ env hsame hc _ => hsame.trans (Store.sameOthers_exec hc env)) h.wp rfl
  exact (evalAlong_of_wp hclock hkeep).right

end runs

end ApiKeys

namespace Http

variable {T : TenantId}

section runs

variable {α : Type} {program : Service α} {Q : α → DB → Prop} {clock : Nat → Env} {db : DB}

theorem evalAlong_only (hclock : ∀ n, ownOrder T (clock n)) (hschema : Schema db)
    (h : Keeps T program db Q)
    : evalAlong postgres (fun _ => true) clock program (db.only T)
        =
      ((evalAlong postgres (fun _ => true) clock program db).1,
        (evalAlong postgres (fun _ => true) clock program db).2.only T) :=
  evalAlong_project (H := ownOrder T) (DB.only T) Schema (fun _ c env hs _ _ => hs.exec c env)
    (fun _ _ _ hs hc henv => DB.exec_only hs hc henv) hclock h.wp hschema

theorem sameOthers_evalAlong (hclock : ∀ n, ownOrder T (clock n)) (hschema : Schema db)
    (h : Keeps T program db Q)
    : DB.SameOthers T db (evalAlong postgres (fun _ => true) clock program db).2 := by
  have hkeep := wp_keep (fun db' => Schema db' ∧ DB.SameOthers T db db')
    (fun _ c env hs hc _ => ⟨hs.left.exec c env, hs.right.trans (DB.sameOthers_exec hs.left hc env)⟩)
    h.wp ⟨hschema, rfl⟩
  exact (evalAlong_of_wp hclock hkeep).right.right

end runs

def Stores.only (T : TenantId) (s : Stores) : Stores where
  db := s.db.only T
  keys := s.keys.only T

structure Stores.SameOthers (T : TenantId) (s s' : Stores) : Prop where
  db : DB.SameOthers T s.db s'.db
  keys : ApiKeys.Store.SameOthers T s.keys s'.keys

structure Stores.Valid (s : Stores) : Prop where
  schema : Schema s.db
  fresh : Fresh s.db
  keyHash : ∀ key ∈ s.keys.keys.rows, ∀ key' ∈ s.keys.keys.rows, key.keyHash = key'.keyHash → key = key'
  keyId : ∀ key ∈ s.keys.keys.rows, key.id.value < s.keys.nextId

def NewSecret (hashSecret : String → String) (s : Stores) (env : ApiKeys.Env) : Prop :=
  ∀ key ∈ s.keys.keys.rows, key.keyHash ≠ hashSecret env.secret

def Handler.KeepsKeys (T : TenantId) (H : ApiKeys.Env → Prop) (handler : Handler)
    (keys : ApiKeys.Store) : Prop :=
  match handler with
  | .service _ | .query _ => True
  | .keyService program =>
    ApiKeys.KeepsWithin T H program keys (fun _ _ => True)

section handlers

variable {uuid : String → Option Nat} {str : Nat → String} {hashSecret : String → String}
  {H : ApiKeys.Env → Prop} {clock : Clock} {s : Stores}

theorem keeps_catching {program : ApiKeys.KeyService Response}
    {keys : ApiKeys.Store} (h : ApiKeys.KeepsWithin T H program keys (fun _ _ => True))
    : ApiKeys.KeepsWithin T H (program.catching ApiKeys.keyFailure) keys (fun _ _ => True) := by
  refine .catching h ?_
  intro e keys'
  unfold ApiKeys.keyFailure
  split
  . exact .pure trivial
  . exact .pure trivial
  . exact .raise

theorem Route.keepsKeys {caller : ApiKey} (hcaller : caller.tenantId = T)
    {keys : ApiKeys.Store} (hids : ∀ key ∈ keys.keys.rows, key.id.value < keys.nextId)
    (hsecret : ∀ env, H env → ∀ key ∈ keys.keys.rows, key.keyHash ≠ hashSecret env.secret) (route : Route)
    : (route.handler uuid str hashSecret caller).KeepsKeys T H keys := by
  cases route with
  | createApiKey label =>
    unfold Route.handler Handler.KeepsKeys ApiKeys.createApiKey
    dsimp only
    split
    . exact .pure trivial
    . next label _ =>
      split
      . exact .pure trivial
      . refine .bind (ApiKeys.keeps_createApiKey label hcaller hids hsecret) ?_
        intro _ _ _
        exact .pure trivial
  | revokeApiKey apiKeyId =>
    unfold Route.handler Handler.KeepsKeys ApiKeys.revokeApiKey
    dsimp only
    split
    . exact .pure trivial
    . exact keeps_catching ((ApiKeys.keeps_revokeApiKey hcaller).map fun _ _ _ => trivial)
  | listIssuedApiKeys apiKeyId =>
    unfold Route.handler Handler.KeepsKeys ApiKeys.listIssuedApiKeys
    dsimp only
    split
    . exact .pure trivial
    . exact keeps_catching ((ApiKeys.keeps_listIssuedApiKeys hcaller).map fun _ _ _ => trivial)
  | _ => trivial

theorem Handler.run_only {handler : Handler} (hkeeps : handler.KeepsTo T s.db)
    (hkeepsKeys : handler.KeepsKeys T H s.keys) (hclock : ∀ n, H (clock.keys n))
    (hlocal : ∀ n, (clock.store n).workerOrder.Local (·.tenantId = T)) (hschema : Schema s.db)
    : handler.run clock (s.only T) = ((handler.run clock s).1, (handler.run clock s).2.only T) := by
  cases handler with
  | service program =>
    have hrun := evalAlong_only hlocal hschema hkeeps
    unfold Handler.run
    dsimp only [Stores.only]
    rw [hrun]
  | query answer =>
    unfold Handler.run
    dsimp only [Stores.only]
    rw [hkeeps clock.query]
  | keyService program =>
    have hrun := ApiKeys.evalAlong_only hclock hkeepsKeys
    unfold Handler.run
    dsimp only [Stores.only]
    rw [hrun]

theorem Handler.sameOthers_run {handler : Handler} (hkeeps : handler.KeepsTo T s.db)
    (hkeepsKeys : handler.KeepsKeys T H s.keys) (hclock : ∀ n, H (clock.keys n))
    (hlocal : ∀ n, (clock.store n).workerOrder.Local (·.tenantId = T)) (hschema : Schema s.db)
    : s.SameOthers T (handler.run clock s).2 := by
  cases handler with
  | service program => exact ⟨sameOthers_evalAlong hlocal hschema hkeeps, rfl⟩
  | query answer => exact ⟨rfl, rfl⟩
  | keyService program => exact ⟨rfl, ApiKeys.sameOthers_evalAlong hclock hkeepsKeys⟩

end handlers

structure Comes (hashSecret : String → String) (request : Request) (clock : Clock) (T : TenantId)
    (s : Stores) : Prop where
  valid : s.Valid
  owner : ∀ key ∈ s.keys.keys.rows, key.keyHash = hashSecret request.rawKey → key.tenantId = T
  secrets : ∀ n, NewSecret hashSecret s (clock.keys n)
  rowOrder : ∀ n, (clock.store n).workerOrder.Local (·.tenantId = T)

section serve

variable (uuid : String → Option Nat) (str : Nat → String) {hashSecret : String → String}
  {request : Request} {clock : Clock} {s : Stores}

theorem Comes.keepsKeys (h : Comes hashSecret request clock T s) {keys : ApiKeys.Store}
    (hused : s.keys.Used keys) {caller : ApiKey} (hcaller : caller.tenantId = T) (route : Route)
    : (route.handler uuid str hashSecret caller).KeepsKeys T (NewSecret hashSecret s) keys := by
  refine route.keepsKeys hcaller ?_ ?_
  . intro key hkey
    have ⟨old, hold, hid, _⟩ := hused.rows key hkey
    rw [hused.nextId, ← hid]
    exact h.valid.keyId old hold
  . intro env henv key hkey
    have ⟨old, hold, _, hhash⟩ := hused.rows key hkey
    rw [← hhash]
    exact henv old hold

abbrev authenticated (hashSecret : String → String) (request : Request) (clock : Clock)
    (keys : ApiKeys.Store) : Except ApiKeys.KeyErr ApiKey × ApiKeys.Store :=
  evalAlong ApiKeys.postgres (fun _ => true) clock.authentication
    (ApiKeys.authenticate hashSecret request.rawKey) keys

namespace Comes

theorem keeps_authenticate (h : Comes hashSecret request clock T s)
    : ApiKeys.KeepsWithin T (fun _ => True)
        (ApiKeys.authenticate hashSecret request.rawKey) s.keys
        (fun caller keys => caller.tenantId = T ∧ s.keys.Used keys) :=
  ApiKeys.keeps_authenticate h.owner

theorem authenticated_only (h : Comes hashSecret request clock T s)
    : authenticated hashSecret request clock (s.keys.only T)
        =
      ((authenticated hashSecret request clock s.keys).1,
        (authenticated hashSecret request clock s.keys).2.only T) :=
  ApiKeys.evalAlong_only (fun _ => trivial) h.keeps_authenticate

theorem authenticated_ok (h : Comes hashSecret request clock T s) {caller : ApiKey}
    (hcaller : (authenticated hashSecret request clock s.keys).1 = .ok caller)
    : caller.tenantId = T ∧ s.keys.Used (authenticated hashSecret request clock s.keys).2 :=
  evalAlong_of_wp (fun _ => trivial) h.keeps_authenticate.wp caller hcaller

theorem serve_only (h : Comes hashSecret request clock T s)
    : serve uuid str hashSecret request clock (s.only T)
        =
      ((serve uuid str hashSecret request clock s).1,
        (serve uuid str hashSecret request clock s).2.only T) := by
  have hauthenticated := h.authenticated_only
  unfold authenticated at hauthenticated
  unfold serve
  dsimp only [Stores.only]
  rw [hauthenticated]
  dsimp only
  split
  . rfl
  . rfl
  . next caller hok =>
    have ⟨hcaller, hused⟩ := h.authenticated_ok hok
    split
    . rfl
    . exact Handler.run_only (s := ⟨s.db, (authenticated hashSecret request clock s.keys).2⟩)
        (request.route.keepsTo hcaller h.valid.schema h.valid.fresh)
        (h.keepsKeys uuid str hused hcaller request.route) h.secrets h.rowOrder h.valid.schema

theorem sameOthers_serve (h : Comes hashSecret request clock T s)
    : s.SameOthers T (serve uuid str hashSecret request clock s).2 := by
  have hsame : ApiKeys.Store.SameOthers T s.keys
      (authenticated hashSecret request clock s.keys).2 :=
    ApiKeys.sameOthers_evalAlong (fun _ => trivial) h.keeps_authenticate
  unfold serve
  dsimp only
  split
  . exact ⟨rfl, hsame⟩
  . exact ⟨rfl, hsame⟩
  . next caller hok =>
    have ⟨hcaller, hused⟩ := h.authenticated_ok hok
    split
    . exact ⟨rfl, hsame⟩
    . have hroute := Handler.sameOthers_run (s := ⟨s.db, (authenticated hashSecret request clock s.keys).2⟩)
        (request.route.keepsTo hcaller h.valid.schema h.valid.fresh)
        (h.keepsKeys uuid str hused hcaller request.route) h.secrets h.rowOrder h.valid.schema
      exact ⟨hroute.db, hsame.trans hroute.keys⟩

end Comes

theorem tenant_isolation (hashSecret : String → String) (request : Request) (clock : Clock)
    {s s' : Stores} {caller : ApiKey} (hvalid : s.Valid) (hvalid' : s'.Valid)
    (hcaller : caller ∈ s.keys.keys.rows) (hkey : caller.keyHash = hashSecret request.rawKey)
    (hsecrets : ∀ n, NewSecret hashSecret s (clock.keys n))
    (hsecrets' : ∀ n, NewSecret hashSecret s' (clock.keys n))
    -- a query names its tenant, so the rows of the tenant come in an order of their own
    (hlocal : ∀ n, (clock.store n).workerOrder.Local (·.tenantId = caller.tenantId))
    (hagree : s.only caller.tenantId = s'.only caller.tenantId)
    : let run := serve uuid str hashSecret request clock
      (run s).1 = (run s').1
        ∧ (run s).2.only caller.tenantId = (run s').2.only caller.tenantId
        ∧ s.SameOthers caller.tenantId (run s).2
        ∧ s'.SameOthers caller.tenantId (run s').2
        ∧ (run s).1 = (run (s.only caller.tenantId)).1 := by
  have hcaller' : caller ∈ s'.keys.keys.rows := by
    have hmem : caller ∈ (s.only caller.tenantId).keys.keys.rows :=
      List.mem_filter.mpr ⟨hcaller, decide_eq_true rfl⟩
    rw [hagree] at hmem
    exact List.mem_of_mem_filter hmem
  have howner : ∀ key ∈ s.keys.keys.rows, key.keyHash = hashSecret request.rawKey →
      key.tenantId = caller.tenantId := by
    intro key hmem hhash
    rw [hvalid.keyHash key hmem caller hcaller (hhash.trans hkey.symm)]
  have howner' : ∀ key ∈ s'.keys.keys.rows, key.keyHash = hashSecret request.rawKey →
      key.tenantId = caller.tenantId := by
    intro key hmem hhash
    rw [hvalid'.keyHash key hmem caller hcaller' (hhash.trans hkey.symm)]
  have h : Comes hashSecret request clock caller.tenantId s := ⟨hvalid, howner, hsecrets, hlocal⟩
  have h' : Comes hashSecret request clock caller.tenantId s' := ⟨hvalid', howner', hsecrets', hlocal⟩
  have honly := h.serve_only uuid str
  have honly' := h'.serve_only uuid str
  rw [hagree, honly', Prod.mk.injEq] at honly
  have hthere : (serve uuid str hashSecret request clock s).1
      = (serve uuid str hashSecret request clock (s.only caller.tenantId)).1 := by
    rw [h.serve_only]
  exact ⟨honly.left.symm, honly.right.symm, h.sameOthers_serve uuid str, h'.sameOthers_serve uuid str,
    hthere⟩

end serve

def nodeOf (id : Nat) (tenantId : TenantId) : Node where
  id := ⟨id⟩
  capacity := ⟨4, 1024, 0⟩
  tenantId
  name := "swift-falcon-3f2a"
  lastSeenAt := 0
  available := ⟨4, 1024, 0⟩
  havailable := by decide

def keyOf (id : Nat) (tenantId : TenantId) (keyHash : String) : ApiKey where
  id := ⟨id⟩
  keyHash
  label := "agent"
  createdAt := 0
  tenantId

def twoTenants : Stores where
  db :=
    { DB.empty with
      nodes := (DB.empty.nodes.upsert (nodeOf 0 ⟨0⟩)).upsert (nodeOf 1 ⟨1⟩)
      nextId := 2 }
  keys :=
    { keys := (Table.empty.upsert (keyOf 0 ⟨0⟩ "zero")).upsert (keyOf 1 ⟨1⟩ "one")
      tenants := [⟨0⟩, ⟨1⟩]
      nextId := 2 }

def stoppedClock : Clock where
  authentication := fun _ => { now := 7 }
  store := fun _ => { now := 7 }
  query := { now := 7 }
  keys := fun _ => { now := 7, secret := "two" }

theorem tenant_isolation_neighbour
    : let run := serve (fun _ => some 1) toString id ⟨"zero", .drainNode "1"⟩ stoppedClock
      (run twoTenants).1 = .failure 404 (.exception (.nodeNotFound ⟨1⟩))
        ∧ (run twoTenants).1 = (run (twoTenants.only ⟨0⟩)).1
        ∧ twoTenants.SameOthers ⟨0⟩ (run twoTenants).2 := by
  have hvalid : twoTenants.Valid :=
    ⟨by decide, ⟨by decide, by decide, by decide⟩, by decide, by decide⟩
  have hvalid' : (twoTenants.only ⟨0⟩).Valid :=
    ⟨by decide, ⟨by decide, by decide, by decide⟩, by decide, by decide⟩
  have hcaller : keyOf 0 ⟨0⟩ "zero" ∈ twoTenants.keys.keys.rows := by decide
  have hsecret : NewSecret id twoTenants (stoppedClock.keys 0) := by
    unfold NewSecret
    decide
  have hsecret' : NewSecret id (twoTenants.only ⟨0⟩) (stoppedClock.keys 0) := by
    unfold NewSecret
    decide
  have h := tenant_isolation (fun _ => some 1) toString id ⟨"zero", .drainNode "1"⟩ stoppedClock
    hvalid hvalid' hcaller rfl (fun _ => hsecret) (fun _ => hsecret') (fun _ => RowOrder.local_stored _) rfl
  exact ⟨by decide, h.left, h.right.right.left⟩

end Http

end AetherGrid
