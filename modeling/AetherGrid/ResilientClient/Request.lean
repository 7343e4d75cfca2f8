import AetherGrid.ResilientClient.Config

/-!
This module contains `ResilientAPIClient._request`: the loop over the attempts, which of them are followed
by another one, and what the circuit breaker and the caller are told in the end.
-/

namespace AetherGrid

namespace ResilientClient

inductive TransportError where
  | connectError
  | connectTimeout
  | poolTimeout
  | readTimeout
  | writeTimeout
  | readError
  | writeError
  | closeError
  | localProtocolError
  | remoteProtocolError
  | proxyError
  | unsupportedProtocol
  deriving DecidableEq, Repr

def TransportError.requestNeverSent (exc : TransportError) : Bool :=
  match exc with
  | .connectError | .connectTimeout | .poolTimeout => true
  | _ => false

/--
The header `Retry-After` as Python reads it.
-/
inductive RetryAfter where
  | absent
  | seconds (value : ℚ)
  | nan
  | infinity
  | negativeInfinity
  | date (ahead : ℚ)
  | dateOutOfRange
  | unparseable
  deriving DecidableEq

structure Response where
  statusCode : Nat
  retryAfter : RetryAfter := .absent
  text : String := ""
  json : Option String := none
  deriving DecidableEq

inductive Outcome where
  | transportError (exc : TransportError)
  | response (resp : Response)
  deriving DecidableEq

structure Attempt where
  outcome : Outcome
  draw : ℚ := 0
  hdraw : 0 ≤ draw ∧ draw ≤ 1 := by norm_num

inductive PyError where
  | valueError (message : String)
  | overflowError (message : String)
  | jsonDecodeError
  deriving DecidableEq

inductive RequestError where
  | circuitOpenError (exc : CircuitOpenError)
  | authError (message : String)
  | clientError (message : String) (statusCode : Nat) (responseBody : Option String)
  | rateLimitError (message : String) (retryAfterS : Option ℚ)
  | serverError (message : String) (statusCode : Nat) (outcomeUnknown : Bool)
  | retryExhaustedError (message : String) (lastException : Option TransportError)
    (outcomeUnknown : Bool)
  | python (exc : PyError)
  deriving DecidableEq

inductive BreakerCall where
  | onSuccess
  | onFailure
  deriving DecidableEq

inductive Result where
  | returned (value : Option String)
  | raised (exc : RequestError)
  | fellOut (lastTransportExc : Option TransportError)
  deriving DecidableEq

def notReplayedNote : String :=
  "; not retried because the request may have been processed and this call is not safe to replay "
    ++ "(pass idempotency_key if the partner supports it)"

def parseRetryAfter (header : RetryAfter) (maxRetryAfterS : ℚ) : Except PyError (Option ℚ) :=
  match header with
  | .absent | .unparseable => .ok none
  | .seconds value | .date value => .ok (some (max 0 (min value maxRetryAfterS)))
  -- `min` and `max` return their first argument when it is compared with a NaN
  | .nan | .negativeInfinity => .ok (some 0)
  | .infinity => .ok (some (max 0 maxRetryAfterS))
  | .dateOutOfRange => .error (.overflowError "days must have magnitude <= 999999999")

namespace Number

def toFloat (number : Number) : Except PyError ℚ :=
  match number with
  | .float value => .ok value
  | .int value =>
    if |Double.round value| < 2 ^ 1024 then
      .ok (Double.round value)
    else
      .error (.overflowError "int too large to convert to float")

def mul (a b : Number) : Except PyError Number :=
  match a, b with
  | .int a, .int b => .ok (.int (a * b))
  | a, b => do
    let x ← a.toFloat
    let y ← b.toFloat
    return .float (Double.round (x * y))

def add (a b : Number) : Except PyError Number :=
  match a, b with
  | .int a, .int b => .ok (.int (a + b))
  | a, b => do
    let x ← a.toFloat
    let y ← b.toFloat
    return .float (Double.round (x + y))

protected def min (a b : Number) : Number :=
  if b.value < a.value then b else a

end Number

def sleep (delay : ℚ) : Except PyError ℚ :=
  if delay < 0 then
    .error (.valueError "sleep length must be non-negative")
  else if 2 ^ 63 ≤ Double.round (delay * 10 ^ 9) then
    .error (.overflowError "timestamp too large to convert to C PyTime_t")
  else
    .ok delay

-- `random.uniform(0, b)`, for which `random.random()` draws a number
def uniform (b : Number) (draw : ℚ) : Except PyError Number :=
  b.mul (.float draw)

def sleepBeforeRetry (cfg : RetryConfig) (attempt : Nat) (retryAfterS : Option ℚ) (draw : ℚ)
    : Except PyError ℚ := do
  match retryAfterS with
  | some delay => sleep delay
  | none =>
    let grown ← cfg.baseDelayS.mul (.int (2 ^ (attempt - 1)))
    let delay := grown.min cfg.maxDelayS
    let jitter ← uniform cfg.jitterS draw
    let delay ← delay.add jitter
    sleep delay.value

def Attempt.retryAfterS (cfg : RetryConfig) (input : Attempt) : Except PyError (Option ℚ) :=
  match input.outcome with
  | .transportError _ => .ok none
  | .response resp => parseRetryAfter resp.retryAfter cfg.maxRetryAfterS

def pause (cfg : RetryConfig) (attempt : Nat) (input : Attempt) : Except PyError ℚ :=
  match input.retryAfterS cfg with
  | .error exc => .error exc
  | .ok retryAfterS => sleepBeforeRetry cfg attempt retryAfterS input.draw

inductive Verdict where
  | finish (told : List BreakerCall) (result : Result)
  | retry (paused : ℚ)
  deriving DecidableEq

def pauseAndRetry (cfg : RetryConfig) (attempt : Nat) (input : Attempt) : Verdict :=
  match pause cfg attempt input with
  | .error exc => .finish [] (.raised (.python exc))
  | .ok paused => .retry paused

def Response.value (resp : Response) : Result :=
  if resp.text = "" then
    .returned none
  else
    match resp.json with
    | some value => .returned (some value)
    | none => .raised (.python .jsonDecodeError)

section

variable (cfg : RetryConfig) (method path : String) (replaySafe : Bool)

def attemptOnce (attempt : Nat) (input : Attempt) : Verdict :=
  let isLastAttempt : Bool := attempt = cfg.maxAttempts
  match input.outcome with
  | .transportError exc =>
    let mayHaveBeenProcessed := !exc.requestNeverSent
    let outcomeUnknown := mayHaveBeenProcessed && !replaySafe
    if isLastAttempt || outcomeUnknown then
      .finish [.onFailure] <| .raised <| .retryExhaustedError
        (method ++ " " ++ path ++ " failed after " ++ toString attempt
          ++ " attempt(s) due to transport errors" ++ (if outcomeUnknown then notReplayedNote else ""))
        (some exc) outcomeUnknown
    else
      pauseAndRetry cfg attempt input
  | .response resp =>
    if resp.statusCode < 400 then
      .finish [.onSuccess] resp.value
    else if resp.statusCode ∉ cfg.retryableStatuses then
      let body := if resp.text ≠ "" then some (String.ofList (resp.text.toList.take 500)) else none
      .finish [] <| .raised <| .clientError
        (method ++ " " ++ path ++ " returned non-retryable status " ++ toString resp.statusCode)
        resp.statusCode body
    else
      let isRateLimited : Bool := resp.statusCode = 429
      let outcomeUnknown := !isRateLimited && !replaySafe
      if isLastAttempt || outcomeUnknown then
        if isRateLimited then
          match parseRetryAfter resp.retryAfter cfg.maxRetryAfterS with
          | .error exc => .finish [.onFailure] (.raised (.python exc))
          | .ok retryAfter =>
            .finish [.onFailure] <| .raised <| .rateLimitError
              (method ++ " " ++ path ++ " still rate limited after " ++ toString attempt ++ " attempt(s)")
              retryAfter
        else
          .finish [.onFailure] <| .raised <| .serverError
            (method ++ " " ++ path ++ " failed after " ++ toString attempt ++ " attempt(s) with status "
              ++ toString resp.statusCode ++ (if outcomeUnknown then notReplayedNote else ""))
            resp.statusCode outcomeUnknown
      else
        pauseAndRetry cfg attempt input

structure Exchange where
  sent : List Outcome
  pauses : List ℚ
  told : List BreakerCall
  result : Result
  deriving DecidableEq

variable (inputs : Nat → Attempt)

def attemptAll (lastTransportExc : Option TransportError) (attempts : List Nat) : Exchange :=
  match attempts with
  | [] => { sent := [], pauses := [], told := [], result := .fellOut lastTransportExc }
  | attempt :: attempts =>
    let outcome := (inputs attempt).outcome
    let lastTransportExc :=
      match outcome with
      | .transportError exc => some exc
      | .response _ => lastTransportExc
    match attemptOnce cfg method path replaySafe attempt (inputs attempt) with
    | .finish told result => { sent := [outcome], pauses := [], told, result }
    | .retry paused =>
      let rest := attemptAll lastTransportExc attempts
      { rest with sent := outcome :: rest.sent, pauses := paused :: rest.pauses }

end

def isReplaySafe (platform : Platform) (cfg : RetryConfig) (method : String)
    (idempotencyKey : Option String) : Bool :=
  idempotencyKey.isSome || platform.upper method ∈ cfg.retryableMethods.map platform.upper

def exchange (platform : Platform) (cfg : RetryConfig) (method path : String) (idempotencyKey : Option String)
    (inputs : Nat → Attempt) : Exchange :=
  attemptAll cfg method path (isReplaySafe platform cfg method idempotencyKey) inputs none
    (List.range' 1 cfg.maxAttempts)

def Replayable (cfg : RetryConfig) (replaySafe : Bool) (outcome : Outcome) : Prop :=
  match outcome with
  | .transportError exc => exc.requestNeverSent ∨ replaySafe
  | .response resp =>
    400 ≤ resp.statusCode ∧ resp.statusCode ∈ cfg.retryableStatuses
      ∧ (resp.statusCode = 429 ∨ replaySafe)

def Ambiguous (cfg : RetryConfig) (outcome : Outcome) : Prop :=
  match outcome with
  | .transportError exc => ¬ exc.requestNeverSent
  | .response resp =>
    400 ≤ resp.statusCode ∧ resp.statusCode ∈ cfg.retryableStatuses ∧ resp.statusCode ≠ 429

def ToldOnce (told : List BreakerCall) (result : Result) : Prop :=
  match result with
  | .raised (.clientError _ _ _) => told = []
  | _ => told = [.onSuccess] ∨ told = [.onFailure]

def Flags (unknown : Prop) (result : Result) : Prop :=
  match result with
  | .raised (.serverError _ _ outcomeUnknown) | .raised (.retryExhaustedError _ _ outcomeUnknown) =>
    outcomeUnknown ↔ unknown
  | _ => True

def grownDelay (cfg : RetryConfig) (attempt : Nat) : Number :=
  match cfg.baseDelayS with
  | .int base => .int (base * 2 ^ (attempt - 1))
  | .float base => .float (Double.round (base * 2 ^ (attempt - 1)))

def Number.asFloat (number : Number) : ℚ :=
  match number with
  | .int value => Double.round value
  | .float value => value

def backoffDelay (cfg : RetryConfig) (attempt : Nat) (draw : ℚ) : ℚ :=
  Double.round (((grownDelay cfg attempt).min cfg.maxDelayS).asFloat
    + Double.round (cfg.jitterS.asFloat * draw))

def Number.Convertible (number : Number) : Prop :=
  match number with
  | .int value => |Double.round value| < 2 ^ 1024
  | .float _ => True

def Number.isInt (number : Number) : Bool :=
  match number with
  | .int _ => true
  | .float _ => false

-- where the backoff computes with floats, every int in it is converted
structure Converts (cfg : RetryConfig) (attempt : Nat) : Prop where
  power : cfg.baseDelayS.isInt ∨ attempt ≤ 1024
  jitter : cfg.jitterS.Convertible
  delay : ((grownDelay cfg attempt).min cfg.maxDelayS).Convertible

variable {cfg : RetryConfig} {method path : String} {replaySafe : Bool} {inputs : Nat → Attempt}
  {attempt : Nat} {input : Attempt} {paused : ℚ} {told : List BreakerCall} {result : Result}

namespace Number

variable {number a b : Number}

theorem toFloat_of_convertible (h : number.Convertible) : number.toFloat = .ok number.asFloat := by
  cases number with
  | int value => exact if_pos h
  | float value => rfl

theorem toFloat_of_not_convertible (h : ¬number.Convertible)
    : number.toFloat = .error (.overflowError "int too large to convert to float") := by
  cases number with
  | int value => exact if_neg h
  | float value => exact absurd trivial h

theorem mul_float (number : Number) (x : ℚ)
    : number.mul (.float x) = number.toFloat.map (fun y => .float (Double.round (y * x))) := by
  cases number with
  | int value =>
    simp only [mul]
    cases (int value).toFloat <;> rfl
  | float value => rfl

theorem add_float (number : Number) (x : ℚ)
    : number.add (.float x) = number.toFloat.map (fun y => .float (Double.round (y + x))) := by
  cases number with
  | int value =>
    simp only [add]
    cases (int value).toFloat <;> rfl
  | float value => rfl

theorem convertible_two_pow (k : Nat) : (int (2 ^ k)).Convertible ↔ k < 1024 := by
  have hround : Double.round ((2 ^ k : Int) : ℚ) = 2 ^ k := by
    push_cast
    exact Double.round_two_pow k
  simp only [Convertible, hround]
  rw [abs_of_pos (by positivity)]
  exact pow_lt_pow_iff_right₀ (by norm_num)

end Number

theorem mul_two_pow (cfg : RetryConfig) (attempt : Nat)
    : cfg.baseDelayS.mul (.int (2 ^ (attempt - 1)))
        =
      if cfg.baseDelayS.isInt ∨ attempt ≤ 1024 then
        .ok (grownDelay cfg attempt)
      else
        .error (.overflowError "int too large to convert to float") := by
  have hpow := Number.convertible_two_pow (attempt - 1)
  unfold grownDelay
  cases cfg.baseDelayS with
  | int base => rfl
  | float base =>
    simp only [Number.isInt, Bool.false_eq_true, false_or, Number.mul]
    split
    . next hattempt =>
      have hround : Double.round ((2 ^ (attempt - 1) : Int) : ℚ) = 2 ^ (attempt - 1) := by
        push_cast
        exact Double.round_two_pow _
      rw [Number.toFloat_of_convertible (hpow.mpr (by omega))]
      simp only [Number.asFloat, hround]
      rfl
    . next hattempt =>
      have hlarge : ¬(Number.int (2 ^ (attempt - 1))).Convertible := by
        rw [hpow]
        omega
      rw [Number.toFloat_of_not_convertible hlarge]
      rfl

theorem sleepBeforeRetry_of_converts (h : Converts cfg attempt) (draw : ℚ)
    : sleepBeforeRetry cfg attempt none draw = sleep (backoffDelay cfg attempt draw) := by
  simp only [sleepBeforeRetry, uniform, mul_two_pow, if_pos h.power, Number.mul_float,
    Number.toFloat_of_convertible h.jitter, bind, Except.bind, Except.map, Number.add_float,
    Number.toFloat_of_convertible h.delay]
  rfl

theorem sleepBeforeRetry_of_not_converts (h : ¬Converts cfg attempt) (draw : ℚ)
    : sleepBeforeRetry cfg attempt none draw
        = .error (.overflowError "int too large to convert to float") := by
  simp only [sleepBeforeRetry, uniform, mul_two_pow]
  by_cases hpower : cfg.baseDelayS.isInt ∨ attempt ≤ 1024
  . rw [if_pos hpower]
    by_cases hjitter : cfg.jitterS.Convertible
    . have hdelay : ¬((grownDelay cfg attempt).min cfg.maxDelayS).Convertible :=
        fun hdelay => h ⟨hpower, hjitter, hdelay⟩
      simp only [Number.mul_float, Number.toFloat_of_convertible hjitter, bind, Except.bind, Except.map,
        Number.add_float, Number.toFloat_of_not_convertible hdelay]
    . simp only [Number.mul_float, Number.toFloat_of_not_convertible hjitter, bind, Except.bind, Except.map]
  . rw [if_neg hpower]
    rfl

theorem pauseAndRetry_retry (h : pauseAndRetry cfg attempt input = .retry paused)
    : pause cfg attempt input = .ok paused := by
  unfold pauseAndRetry at h
  split at h
  . contradiction
  . next hpause =>
    injection h with h
    rw [hpause, h]

structure Settled (cfg : RetryConfig) (replaySafe : Bool) (last : Outcome) (told : List BreakerCall)
    (result : Result) : Prop where
  ends : ∀ lastTransportExc, result ≠ .fellOut lastTransportExc
  told : ToldOnce told result
  outcomeUnknown : Flags (replaySafe = false ∧ Ambiguous cfg last) result

theorem Response.settled_value (resp : Response)
    : Settled cfg replaySafe (.response resp) [.onSuccess] resp.value := by
  unfold Response.value
  split
  . exact ⟨nofun, .inl rfl, trivial⟩
  . split
    . exact ⟨nofun, .inl rfl, trivial⟩
    . exact ⟨nofun, .inl rfl, trivial⟩

theorem settled_transportError {exc : TransportError} {message : String}
    : Settled cfg replaySafe (.transportError exc) [.onFailure]
        (.raised (.retryExhaustedError message (some exc) (!exc.requestNeverSent && !replaySafe))) := by
  refine ⟨nofun, .inr rfl, ?_⟩
  simp [Flags, Ambiguous, and_comm]

theorem settled_serverError {resp : Response} {message : String} (hstatus : 400 ≤ resp.statusCode)
    (hretryable : resp.statusCode ∈ cfg.retryableStatuses) (hlimited : resp.statusCode ≠ 429)
    : Settled cfg replaySafe (.response resp) [.onFailure]
        (.raised (.serverError message resp.statusCode (!decide (resp.statusCode = 429) && !replaySafe))) := by
  refine ⟨nofun, .inr rfl, ?_⟩
  simp [Flags, Ambiguous, hstatus, hretryable, hlimited]

theorem attemptOnce_cases (cfg : RetryConfig) (method path : String) (replaySafe : Bool) (attempt : Nat)
    (input : Attempt)
    : (attempt ≠ cfg.maxAttempts
        ∧ Replayable cfg replaySafe input.outcome
        ∧ attemptOnce cfg method path replaySafe attempt input = pauseAndRetry cfg attempt input)
      ∨ ∃ told result, Settled cfg replaySafe input.outcome told result
        ∧ attemptOnce cfg method path replaySafe attempt input = .finish told result := by
  unfold attemptOnce
  cases input.outcome with
  | transportError exc =>
    simp only
    split
    . exact .inr ⟨_, _, settled_transportError, rfl⟩
    . next hcontinue =>
      simp only [Bool.or_eq_true, decide_eq_true_eq, Bool.and_eq_true, Bool.not_eq_eq_eq_not,
        Bool.not_true, not_or, not_and, Bool.not_eq_false] at hcontinue
      refine .inl ⟨hcontinue.left, ?_, rfl⟩
      cases hnever : exc.requestNeverSent with
      | true => exact .inl hnever
      | false => exact .inr (hcontinue.right hnever)
  | response resp =>
    simp only
    split
    . exact .inr ⟨_, _, resp.settled_value, rfl⟩
    . next hstatus =>
      split
      . exact .inr ⟨[], .raised (.clientError _ _ _), ⟨nofun, rfl, trivial⟩, rfl⟩
      . next hretryable =>
        rw [not_lt] at hstatus
        rw [not_not] at hretryable
        split
        . split
          . split
            . exact .inr ⟨_, .raised (.python _), ⟨nofun, .inr rfl, trivial⟩, rfl⟩
            . exact .inr ⟨_, .raised (.rateLimitError _ _), ⟨nofun, .inr rfl, trivial⟩, rfl⟩
          . next hlimited =>
            rw [decide_eq_true_eq] at hlimited
            exact .inr ⟨_, _, settled_serverError hstatus hretryable hlimited, rfl⟩
        . next hcontinue =>
          simp only [Bool.or_eq_true, decide_eq_true_eq, Bool.and_eq_true, Bool.not_eq_eq_eq_not,
            Bool.not_true, not_or, not_and, Bool.not_eq_false, decide_eq_false_iff_not] at hcontinue
          refine .inl ⟨hcontinue.left, ⟨hstatus, hretryable, ?_⟩, rfl⟩
          by_cases hlimited : resp.statusCode = 429
          . exact .inl hlimited
          . exact .inr (hcontinue.right hlimited)

theorem attemptOnce_retry
    (h : attemptOnce cfg method path replaySafe attempt input = .retry paused)
    : Replayable cfg replaySafe input.outcome
        ∧ attempt ≠ cfg.maxAttempts
        ∧ pause cfg attempt input = .ok paused := by
  rcases attemptOnce_cases cfg method path replaySafe attempt input with
    ⟨hlast, hreplay, heq⟩ | ⟨told, result, _, heq⟩
  . rw [heq] at h
    exact ⟨hreplay, hlast, pauseAndRetry_retry h⟩
  . rw [heq] at h
    contradiction

structure EndsAfter (cfg : RetryConfig) (method path : String) (replaySafe : Bool)
    (inputs : Nat → Attempt) (first retries : Nat) (exchange : Exchange) : Prop where
  sent : exchange.sent = (List.range' first (retries + 1)).map (fun attempt => (inputs attempt).outcome)
  paused : ∀ k, k < retries → ∃ paused, exchange.pauses[k]? = some paused
    ∧ attemptOnce cfg method path replaySafe (first + k) (inputs (first + k)) = .retry paused
  pauses : exchange.pauses.length = retries
  finish : attemptOnce cfg method path replaySafe (first + retries) (inputs (first + retries))
    = .finish exchange.told exchange.result

theorem EndsAfter.of_finish {inputs : Nat → Attempt} {first : Nat}
    (h : attemptOnce cfg method path replaySafe first (inputs first) = .finish told result)
    : EndsAfter cfg method path replaySafe inputs first 0
        { sent := [(inputs first).outcome], pauses := [], told, result } where
  sent := rfl
  paused k hk := absurd hk (Nat.not_lt_zero k)
  pauses := rfl
  finish := h

theorem EndsAfter.of_retry {inputs : Nat → Attempt} {first retries : Nat} {paused : ℚ}
    {rest : Exchange} (h : attemptOnce cfg method path replaySafe first (inputs first) = .retry paused)
    (hrest : EndsAfter cfg method path replaySafe inputs (first + 1) retries rest)
    : EndsAfter cfg method path replaySafe inputs first (retries + 1)
        { rest with sent := (inputs first).outcome :: rest.sent, pauses := paused :: rest.pauses } := by
  have hshift : ∀ k, first + 1 + k = first + (k + 1) := by omega
  refine ⟨congrArg (List.cons _) hrest.sent, ?_, congrArg Nat.succ hrest.pauses, ?_⟩
  . intro k hk
    cases k with
    | zero => exact ⟨paused, rfl, h⟩
    | succ k =>
      obtain ⟨paused', hpaused, hretry⟩ := hrest.paused k (by omega)
      rw [hshift] at hretry
      exact ⟨paused', hpaused, hretry⟩
  . have hfinish := hrest.finish
    rw [hshift] at hfinish
    exact hfinish

theorem attemptAll_endsAfter (cfg : RetryConfig) (method path : String) (replaySafe : Bool)
    (inputs : Nat → Attempt) (lastTransportExc : Option TransportError) (attempt n : Nat)
    (hlast : attempt + n = cfg.maxAttempts)
    : ∃ retries ≤ n, EndsAfter cfg method path replaySafe inputs attempt retries
        (attemptAll cfg method path replaySafe inputs lastTransportExc (List.range' attempt (n + 1))) := by
  induction n generalizing attempt lastTransportExc with
  | zero =>
    rw [List.range'_succ]
    cases hverdict : attemptOnce cfg method path replaySafe attempt (inputs attempt) with
    | finish told result =>
      simp only [attemptAll, hverdict]
      exact ⟨0, le_refl 0, .of_finish hverdict⟩
    | retry paused => exact absurd hlast (attemptOnce_retry hverdict).right.left
  | succ n ih =>
    rw [List.range'_succ]
    cases hverdict : attemptOnce cfg method path replaySafe attempt (inputs attempt) with
    | finish told result =>
      simp only [attemptAll, hverdict]
      exact ⟨0, Nat.zero_le _, .of_finish hverdict⟩
    | retry paused =>
      simp only [attemptAll, hverdict]
      obtain ⟨retries, hle, hrest⟩ := ih _ (attempt + 1) (by omega)
      exact ⟨retries + 1, by omega, hrest.of_retry hverdict⟩

theorem exchange_endsAfter (platform : Platform) (hvalid : cfg.Valid) (method path : String)
    (idempotencyKey : Option String) (inputs : Nat → Attempt)
    : ∃ retries, retries < cfg.maxAttempts
        ∧ EndsAfter cfg method path (isReplaySafe platform cfg method idempotencyKey) inputs 1 retries
            (exchange platform cfg method path idempotencyKey inputs) := by
  have hattempts := hvalid.maxAttempts
  have ⟨retries, hle, hends⟩ := attemptAll_endsAfter cfg method path
    (isReplaySafe platform cfg method idempotencyKey) inputs none 1 (cfg.maxAttempts - 1) (by omega)
  rw [Nat.sub_add_cancel hattempts] at hends
  exact ⟨retries, by omega, hends⟩

namespace EndsAfter

variable {retries : Nat} {exchange : Exchange}

theorem length_sent (h : EndsAfter cfg method path replaySafe inputs 1 retries exchange)
    : exchange.sent.length = retries + 1 := by
  rw [h.sent, List.length_map, List.length_range']

theorem replayable (h : EndsAfter cfg method path replaySafe inputs 1 retries exchange) {k : Nat}
    (hk : k < retries) : Replayable cfg replaySafe (inputs (1 + k)).outcome := by
  have ⟨_, _, hretry⟩ := h.paused k hk
  exact (attemptOnce_retry hretry).left

end EndsAfter

def barePlatform : Platform where
  str := fun _ => ""
  upper := String.toUpper
  repr := fun text => text
  isFile := fun _ => false

end ResilientClient

end AetherGrid
