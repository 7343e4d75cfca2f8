import AetherGrid.ResilientClient.Request

/-!
This module contains the access token of the resilient client.
-/

namespace AetherGrid

namespace ResilientClient

structure Client where
  breaker : CircuitBreaker
  token : Option String := none
  tokenExpiry : ℚ := 0
  -- the moment the token was issued and the lifetime it came with, which the client does not keep
  tokenEndsAt : ℚ := 0

inductive TokenReply where
  | failed (exc : String)
  | payload (accessToken : Option String) (expiresIn : Option ℚ)

def getAccessToken (oauth : OAuth2Config) (now : ℚ) (reply : TokenReply) (client : Client)
    : Except RequestError String × Client :=
  let cached := client.token.filter (fun token => token ≠ "" ∧ now < client.tokenExpiry)
  match cached with
  | some token => (.ok token, client)
  | none =>
    match reply with
    | .failed exc => (.error (.authError ("Failed to acquire OAuth2 token: " ++ exc)), client)
    | .payload accessToken expiresIn =>
      match accessToken.filter (· ≠ "") with
      | none => (.error (.authError "Token endpoint response missing 'access_token'"), client)
      | some token =>
        let expiresIn := expiresIn.getD 300
        let client :=
          { client with
            token := some token
            tokenExpiry := now + max (expiresIn - oauth.expirySkewS) 0
            tokenEndsAt := now + expiresIn }
        (.ok token, client)

structure ClientCall where
  now : ℚ
  method : String
  path : String
  idempotencyKey : Option String := none
  tokenReply : TokenReply
  inputs : Nat → Attempt

structure Sent where
  sentAt : ℚ
  token : Option String
  tokenEndsAt : Option ℚ
  deriving DecidableEq

def Exchange.sendTimes (exchange : Exchange) (startedAt : ℚ) : List ℚ :=
  (List.range exchange.sent.length).map (fun k => startedAt + (exchange.pauses.take k).sum)

def BreakerCall.run (now : ℚ) (breaker : CircuitBreaker) (call : BreakerCall) : CircuitBreaker :=
  match call with
  | .onSuccess => breaker.onSuccess
  | .onFailure => breaker.onFailure now now

def Client.send (platform : Platform) (config : ResilientClientConfig) (call : ClientCall)
    (token : Option String) (tokenEndsAt : Option ℚ) (client : Client) : Result × List Sent × Client :=
  let exchange := exchange platform config.retry call.method call.path call.idempotencyKey call.inputs
  let endedAt := call.now + exchange.pauses.sum
  (exchange.result,
    (exchange.sendTimes call.now).map (fun sentAt => { sentAt, token, tokenEndsAt }),
    { client with breaker := exchange.told.foldl (BreakerCall.run endedAt) client.breaker })

def Client.request (platform : Platform) (config : ResilientClientConfig) (call : ClientCall)
    (client : Client) : Result × List Sent × Client :=
  match client.breaker.beforeCall call.now with
  | (.error exc, breaker) => (.raised (.circuitOpenError exc), [], { client with breaker })
  | (.ok _, breaker) =>
    let client := { client with breaker }
    match config.oauth2 with
    | none => client.send platform config call none none
    | some oauth =>
      match getAccessToken oauth call.now call.tokenReply client with
      | (.error exc, client) => (.raised exc, [], client)
      | (.ok token, client) => client.send platform config call (some token) (some client.tokenEndsAt)

def Client.run (platform : Platform) (config : ResilientClientConfig) (calls : List ClientCall)
    (client : Client) : List Sent × Client :=
  match calls with
  | [] => ([], client)
  | call :: calls =>
    let (_, sent, client) := client.request platform config call
    let (rest, client) := client.run platform config calls
    (sent ++ rest, client)

def Sent.Live (sent : Sent) : Prop :=
  ∃ tokenEndsAt, sent.tokenEndsAt = some tokenEndsAt ∧ sent.sentAt < tokenEndsAt

def requestedPause (cfg : RetryConfig) (attempt : Nat) (input : Attempt) : ℚ :=
  match input.retryAfterS cfg with
  | .ok (some delay) => delay
  | _ => backoffDelay cfg attempt input.draw

def ClientCall.requestedPauses (cfg : RetryConfig) (call : ClientCall) (retries : Nat) : List ℚ :=
  (List.range' 1 retries).map (fun attempt => requestedPause cfg attempt (call.inputs attempt))

def ClientCall.PausesWithin (platform : Platform) (cfg : RetryConfig) (bound : ℚ) (call : ClientCall) : Prop :=
  ∀ retries, retries < cfg.maxAttempts →
    (∀ attempt, 1 ≤ attempt → attempt ≤ retries →
      Replayable cfg (isReplaySafe platform cfg call.method call.idempotencyKey) (call.inputs attempt).outcome) →
    (call.requestedPauses cfg retries).sum ≤ bound

def ClientCall.Lasting (oauth : OAuth2Config) (call : ClientCall) : Prop :=
  ∀ accessToken expiresIn, call.tokenReply = .payload accessToken expiresIn →
    oauth.expirySkewS < expiresIn.getD 300

variable {platform : Platform} {cfg : RetryConfig} {attempt : Nat} {input : Attempt}

theorem sleep_ok {delay paused : ℚ} (h : sleep delay = .ok paused) : paused = delay := by
  unfold sleep at h
  split at h
  . contradiction
  . split at h
    . contradiction
    . injection h with h
      exact h.symm

theorem pause_ok {paused : ℚ} (h : pause cfg attempt input = .ok paused)
    : paused = requestedPause cfg attempt input := by
  unfold pause at h
  unfold requestedPause
  cases hheader : input.retryAfterS cfg with
  | error exc =>
    rw [hheader] at h
    contradiction
  | ok retryAfterS =>
    simp only [hheader] at h
    cases retryAfterS with
    | some delay => exact sleep_ok h
    | none =>
      by_cases hconverts : Converts cfg attempt
      . rw [sleepBeforeRetry_of_converts hconverts] at h
        exact sleep_ok h
      . rw [sleepBeforeRetry_of_not_converts hconverts] at h
        contradiction

theorem EndsAfter.take_pauses {method path : String} {replaySafe : Bool} {inputs : Nat → Attempt}
    {retries k : Nat} {exchange : Exchange}
    (h : EndsAfter cfg method path replaySafe inputs 1 retries exchange) (hk : k ≤ retries)
    : exchange.pauses.take k
        =
      (List.range' 1 k).map (fun attempt => requestedPause cfg attempt (inputs attempt)) := by
  apply List.ext_getElem?
  intro n
  by_cases hn : n < k
  . have ⟨paused, hpaused, hretry⟩ := h.paused n (by omega)
    rw [List.getElem?_take_of_lt hn, hpaused, List.getElem?_map, List.getElem?_range' hn,
      pause_ok (attemptOnce_retry hretry).right.right]
    simp
  . rw [List.getElem?_eq_none (by simp; omega), List.getElem?_eq_none (by simpa using hn)]

theorem sendTimes_le {call : ClientCall} {bound : ℚ} (hvalid : cfg.Valid)
    (h : call.PausesWithin platform cfg bound)
    : ∀ sentAt ∈ (exchange platform cfg call.method call.path call.idempotencyKey call.inputs).sendTimes call.now,
        sentAt ≤ call.now + bound := by
  intro sentAt hsent
  have ⟨retries, hle, hends⟩ := exchange_endsAfter platform hvalid call.method call.path call.idempotencyKey
    call.inputs
  simp only [Exchange.sendTimes, List.mem_map, List.mem_range, hends.length_sent] at hsent
  have ⟨k, hk, hsentAt⟩ := hsent
  rw [← hsentAt, add_le_add_iff_left, hends.take_pauses (by omega)]
  refine h k (by omega) ?_
  intro attempt hfirst hlast
  have := hends.replayable (k := attempt - 1) (by omega)
  rwa [Nat.add_sub_cancel' hfirst] at this

def Client.Skewed (oauth : OAuth2Config) (client : Client) : Prop :=
  client.token.isSome → client.tokenExpiry + oauth.expirySkewS = client.tokenEndsAt

theorem getAccessToken_cases (oauth : OAuth2Config) (now : ℚ) (reply : TokenReply) (client : Client)
    : (∃ exc, getAccessToken oauth now reply client = (.error exc, client))
      ∨ (∃ token, client.token = some token ∧ now < client.tokenExpiry
          ∧ getAccessToken oauth now reply client = (.ok token, client))
      ∨ ∃ token accessToken expiresIn, reply = .payload accessToken expiresIn
          ∧ getAccessToken oauth now reply client
            = (.ok token,
                { client with
                  token := some token
                  tokenExpiry := now + max (expiresIn.getD 300 - oauth.expirySkewS) 0
                  tokenEndsAt := now + expiresIn.getD 300 }) := by
  simp only [getAccessToken]
  split
  . next token hcached =>
    rw [Option.filter_eq_some_iff] at hcached
    simp only [decide_eq_true_eq] at hcached
    exact .inr (.inl ⟨token, hcached.left, hcached.right.right, rfl⟩)
  . cases reply with
    | failed exc => exact .inl ⟨_, rfl⟩
    | payload accessToken expiresIn =>
      simp only
      split
      . exact .inl ⟨_, rfl⟩
      . next token _ => exact .inr (.inr ⟨token, accessToken, expiresIn, rfl, rfl⟩)

theorem Client.Skewed.send {config : ResilientClientConfig} {oauth : OAuth2Config} {call : ClientCall}
    {client : Client} {token : String} (hvalid : config.retry.Valid)
    (hpauses : call.PausesWithin platform config.retry oauth.expirySkewS)
    (h : client.Skewed oauth) (hends : call.now + oauth.expirySkewS < client.tokenEndsAt)
    : (client.send platform config call (some token) (some client.tokenEndsAt)).2.2.Skewed oauth
      ∧ ∀ sent ∈ (client.send platform config call (some token) (some client.tokenEndsAt)).2.1, sent.Live := by
  refine ⟨h, ?_⟩
  intro sent hsent
  simp only [Client.send, List.mem_map] at hsent
  have ⟨sentAt, hmem, heq⟩ := hsent
  rw [← heq]
  refine ⟨client.tokenEndsAt, rfl, ?_⟩
  have := sendTimes_le hvalid hpauses sentAt hmem
  simp only
  linarith

theorem Client.Skewed.request {config : ResilientClientConfig} {oauth : OAuth2Config} {call : ClientCall}
    {client : Client} (hvalid : config.retry.Valid)
    (hoauth : config.oauth2 = some oauth) (hlasting : call.Lasting oauth)
    (hpauses : call.PausesWithin platform config.retry oauth.expirySkewS) (h : client.Skewed oauth)
    : (client.request platform config call).2.2.Skewed oauth
      ∧ ∀ sent ∈ (client.request platform config call).2.1, sent.Live := by
  unfold Client.request
  split
  . exact ⟨h, nofun⟩
  . next breaker _ =>
    simp only [hoauth]
    have hskewed : { client with breaker }.Skewed oauth := h
    rcases getAccessToken_cases oauth call.now call.tokenReply { client with breaker } with
      ⟨exc, heq⟩ | ⟨token, htoken, hnow, heq⟩ | ⟨token, accessToken, expiresIn, hreply, heq⟩
    . simp only [heq]
      exact ⟨h, nofun⟩
    . simp only [heq]
      have hexpiry := hskewed (Option.isSome_of_mem htoken)
      refine Client.Skewed.send hvalid hpauses hskewed ?_
      rw [← hexpiry]
      exact add_lt_add_left hnow _
    . simp only [heq]
      have hlifetime := hlasting accessToken expiresIn hreply
      have hmax : max (expiresIn.getD 300 - oauth.expirySkewS) 0
          = expiresIn.getD 300 - oauth.expirySkewS :=
        max_eq_left (by linarith)
      refine Client.Skewed.send hvalid hpauses ?_ ?_
      . intro _
        simp only [hmax]
        ring
      . simp only
        linarith

theorem attempts_carry_live_token {platform : Platform} {config : ResilientClientConfig}
    {oauth : OAuth2Config} {calls : List ClientCall} {breaker : CircuitBreaker}
    (hvalid : validateConfig platform config = [])
    (hoauth : config.oauth2 = some oauth) (hlasting : ∀ call ∈ calls, call.Lasting oauth)
    (hpauses : ∀ call ∈ calls, call.PausesWithin platform config.retry oauth.expirySkewS)
    : ∀ sent ∈ (Client.run platform config calls { breaker }).1, sent.Live := by
  have hvalid := valid_of_validateConfig hvalid
  have hskewed : Client.Skewed oauth { breaker } := nofun
  generalize ({ breaker } : Client) = client at hskewed
  induction calls generalizing client with
  | nil => nofun
  | cons call calls ih =>
    rw [List.forall_mem_cons] at hlasting hpauses
    have ⟨hnext, hlive⟩ := hskewed.request hvalid hoauth hlasting.left hpauses.left
    simp only [Client.run, List.mem_append]
    rintro sent (hnow | hlater)
    . exact hlive sent hnow
    . exact ih hlasting.right hpauses.right _ hnext sent hlater

def partnerOAuth2 : OAuth2Config where
  tokenUrl := "https://partner/token"
  clientId := "aethergrid"
  clientSecret := "secret"

def oauth2Partner : ResilientClientConfig where
  baseUrl := "https://partner"
  oauth2 := some partnerOAuth2

def askedToWait (retryAfterS : ℚ) : ClientCall where
  now := 0
  method := "GET"
  path := "/status"
  tokenReply := .payload (some "token") (some 40)
  inputs := fun attempt =>
    if attempt = 1 then
      { outcome := .response { statusCode := 429, retryAfter := .seconds retryAfterS } }
    else
      { outcome := .response { statusCode := 200 } }

theorem attempts_carry_live_token_twenty
    : ((Client.run barePlatform oauth2Partner [askedToWait 20] { breaker := {} }).1.map Sent.sentAt = [0, 20])
      ∧ ∀ sent ∈ (Client.run barePlatform oauth2Partner [askedToWait 20] { breaker := {} }).1, sent.Live := by
  refine ⟨by decide +kernel, ?_⟩
  have hvalid : validateConfig barePlatform oauth2Partner = [] := by decide +kernel
  refine attempts_carry_live_token hvalid rfl ?_ ?_
  . intro call hcall accessToken expiresIn hreply
    rw [List.mem_singleton] at hcall
    rw [hcall] at hreply
    injection hreply with _ hexpiresIn
    rw [← hexpiresIn]
    decide +kernel
  . intro call hcall retries _ hreplayable
    rw [List.mem_singleton] at hcall
    rw [hcall] at hreplayable ⊢
    have hretries : retries ≤ 1 := by
      by_contra hmore
      have hsecond := hreplayable 2 (by omega) (by omega)
      exact absurd hsecond.left (by decide)
    interval_cases retries <;> decide +kernel

theorem stale_after_retryAfter
    : validateConfig barePlatform oauth2Partner = []
      ∧ ¬ ∀ sent ∈ (Client.run barePlatform oauth2Partner [askedToWait 60] { breaker := {} }).1, sent.Live := by
  refine ⟨by decide +kernel, ?_⟩
  intro hlive
  have hstale : { sentAt := 60, token := some "token", tokenEndsAt := some 40 }
      ∈ (Client.run barePlatform oauth2Partner [askedToWait 60] { breaker := {} }).1 := by
    decide +kernel
  have ⟨tokenEndsAt, hends, hlater⟩ := hlive _ hstale
  injection hends with hends
  rw [← hends] at hlater
  exact absurd hlater (by decide +kernel)

end ResilientClient

end AetherGrid
