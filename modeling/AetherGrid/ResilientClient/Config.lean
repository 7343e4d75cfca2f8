import AetherGrid.ResilientClient.Breaker

/-!
This module contains the configuration of the resilient client and the checks its constructor makes.
-/

namespace AetherGrid

namespace ResilientClient

-- Python accepts an `int` where the configuration declares a `float`
inductive Number where
  | int (value : Int)
  | float (value : ℚ)
  deriving DecidableEq

def Number.value (number : Number) : ℚ :=
  match number with
  | .int value => value
  | .float value => value

structure RetryConfig where
  maxAttempts : Nat := 4
  baseDelayS : Number := .float (1 / 2)
  maxDelayS : Number := .float 8
  jitterS : Number := .float (1 / 4)
  retryableStatuses : List Nat := [429, 500, 502, 503, 504]
  retryableMethods : List String := ["GET", "HEAD", "OPTIONS", "PUT", "DELETE"]
  maxRetryAfterS : ℚ := 60

structure MTLSConfig where
  certPath : String
  keyPath : String
  caBundlePath : Option String := none

structure OAuth2Config where
  tokenUrl : String
  clientId : String
  clientSecret : String
  scope : Option String := none
  expirySkewS : ℚ := 30

structure ResilientClientConfig where
  baseUrl : String
  timeoutS : ℚ := 10
  mtls : Option MTLSConfig := none
  oauth2 : Option OAuth2Config := none
  retry : RetryConfig := {}
  circuitBreaker : CircuitBreaker := {}
  idempotencyHeader : String := "Idempotency-Key"

structure Platform where
  str : ℚ → String
  upper : String → String
  repr : String → String
  isFile : String → Bool

def complaint (problem : Bool) (message : String) : List String :=
  if problem then [message] else []

def startsWith (text start : String) : Bool :=
  start.toList <+: text.toList

def contains (text part : String) : Bool :=
  part.toList <:+: text.toList

variable (platform : Platform)

def MTLSConfig.complaints (mtls : MTLSConfig) : List String :=
  complaint (!platform.isFile mtls.certPath)
    ("mtls.cert_path not found: " ++ platform.repr mtls.certPath)
  ++ complaint (!platform.isFile mtls.keyPath)
    ("mtls.key_path not found: " ++ platform.repr mtls.keyPath)
  ++ match mtls.caBundlePath with
    | some path =>
      complaint (path ≠ "" && !platform.isFile path)
        ("mtls.ca_bundle_path not found: " ++ platform.repr path)
    | none => []

def OAuth2Config.complaints (oauth2 : OAuth2Config) : List String :=
  complaint (oauth2.tokenUrl = "") "oauth2.token_url is required"
  ++ complaint (oauth2.clientId = "") "oauth2.client_id is required"
  ++ complaint (oauth2.clientSecret = "") "oauth2.client_secret is required"

def RetryConfig.complaints (retry : RetryConfig) : List String :=
  complaint (retry.maxAttempts < 1)
    ("retry.max_attempts must be >= 1, got: " ++ toString retry.maxAttempts)
  ++ complaint (retry.baseDelayS.value ≤ 0)
    ("retry.base_delay_s must be positive, got: " ++ platform.str retry.baseDelayS.value)
  ++ complaint (retry.maxDelayS.value < retry.baseDelayS.value)
    ("retry.max_delay_s must be >= retry.base_delay_s, got: max_delay_s="
      ++ platform.str retry.maxDelayS.value ++ ", base_delay_s=" ++ platform.str retry.baseDelayS.value)

def CircuitBreaker.complaints (breaker : CircuitBreaker) : List String :=
  complaint (breaker.failureThreshold < 1)
    ("circuit_breaker.failure_threshold must be >= 1, got: " ++ toString breaker.failureThreshold)
  ++ complaint (breaker.resetTimeoutS ≤ 0)
    ("circuit_breaker.reset_timeout_s must be positive, got: "
      ++ platform.str breaker.resetTimeoutS)

def validateConfig (config : ResilientClientConfig) : List String :=
  (if config.baseUrl = "" then
    ["base_url is required"]
  else
    complaint
      (!(startsWith config.baseUrl "https://" || contains config.baseUrl "localhost"
        || contains config.baseUrl "127.0.0.1"))
      ("base_url should use https:// for a production endpoint, got: "
        ++ platform.repr config.baseUrl))
  ++ complaint (config.timeoutS ≤ 0) ("timeout_s must be positive, got: " ++ platform.str config.timeoutS)
  ++ (config.mtls.map (·.complaints platform)).getD []
  ++ (config.oauth2.map (·.complaints)).getD []
  ++ complaint (config.idempotencyHeader.toList.all Char.isWhitespace)
    "idempotency_header must not be empty"
  ++ config.retry.complaints platform
  ++ config.circuitBreaker.complaints platform

variable {platform}

@[simp]
theorem complaint_eq_nil {problem : Bool} {message : String}
    : complaint problem message = [] ↔ problem = false := by
  cases problem <;> simp [complaint]

structure RetryConfig.Valid (retry : RetryConfig) : Prop where
  maxAttempts : 1 ≤ retry.maxAttempts
  baseDelayS : 0 < retry.baseDelayS.value
  maxDelayS : retry.baseDelayS.value ≤ retry.maxDelayS.value

theorem valid_of_validateConfig {config : ResilientClientConfig}
    (h : validateConfig platform config = []) : config.retry.Valid := by
  simp only [validateConfig, RetryConfig.complaints, List.append_eq_nil_iff, complaint_eq_nil,
    decide_eq_false_iff_not, not_lt, not_le] at h
  have ⟨⟨_, ⟨hattempts, hbase⟩, hmax⟩, _⟩ := h
  exact ⟨hattempts, hbase, hmax⟩

end ResilientClient

end AetherGrid
