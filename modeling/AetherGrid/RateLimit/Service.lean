import AetherGrid.ApiKey.Basic
import AetherGrid.RateLimit.Bucket

/-!
This module contains the rate limiter: one token bucket per API key, created at the first request of the
key.
-/

namespace AetherGrid

namespace RateLimit

structure RateLimitExceededError where
  apiKeyId : ApiKeyId
  retryAfterSeconds : ℚ
  deriving DecidableEq

structure Limits where
  capacity : Int
  refillRatePerSecond : ℚ
  hcapacity : 0 < capacity
  hrate : 0 < refillRatePerSecond

def Limits.new (capacity : Int) (refillRatePerSecond : ℚ) : Except Err Limits :=
  if hcapacity : 0 < capacity then
    if hrate : 0 < refillRatePerSecond then
      .ok { capacity, refillRatePerSecond, hcapacity, hrate }
    else
      .error (.valueError "refill_rate_per_second must be positive.")
  else
    .error (.valueError "capacity must be a positive number of tokens.")

abbrev Buckets : Type :=
  ApiKeyId → Option (TokenBucket ℚ)

section

variable (limits : Limits)

def check (apiKeyId : ApiKeyId) (now : ℚ) : EStateM RateLimitExceededError Buckets Unit := do
  let bucket := ((← get) apiKeyId).getD ⟨limits.capacity, now⟩
  let elapsed := now - bucket.refilledAt
  let tokens := min (limits.capacity : ℚ) (bucket.tokens + elapsed * limits.refillRatePerSecond)
  modify fun buckets => Function.update buckets apiKeyId (some ⟨tokens, now⟩)
  if tokens < 1 then
    let tokensNeeded := 1 - tokens
    throw { apiKeyId, retryAfterSeconds := tokensNeeded / limits.refillRatePerSecond }
  modify fun buckets => Function.update buckets apiKeyId (some ⟨tokens - 1, now⟩)

def pyInt (q : ℚ) : Int :=
  if 0 ≤ q then ⌊q⌋ else ⌈q⌉

structure HttpException where
  statusCode : Nat
  detail : String
  retryAfter : Int
  deriving DecidableEq

def retryAfterHeader (exc : RateLimitExceededError) : Int :=
  pyInt exc.retryAfterSeconds + 1

def requireRateLimit (caller : ApiKeyId) (now : ℚ) : EStateM HttpException Buckets Unit :=
  EStateM.adaptExcept
    (fun exc =>
      { statusCode := 429, detail := "rate limit exceeded", retryAfter := retryAfterHeader exc })
    (check limits caller now)

structure Call where
  apiKeyId : ApiKeyId
  now : ℚ
  deriving DecidableEq

structure Served extends Call where
  refusal : Option RateLimitExceededError
  deriving DecidableEq

def serve (call : Call) (buckets : Buckets) : Buckets × Served :=
  match (check limits call.apiKeyId call.now).run buckets with
  | .ok _ buckets => (buckets, { call with refusal := none })
  | .error exc buckets => (buckets, { call with refusal := some exc })

def serveAll (calls : List Call) (buckets : Buckets) : Buckets × List Served :=
  match calls with
  | [] => (buckets, [])
  | call :: calls =>
    let (buckets, served) := serve limits call buckets
    let (buckets, rest) := serveAll calls buckets
    (buckets, served :: rest)

inductive Event where
  | read (thread : Nat) (apiKeyId : ApiKeyId) (now : ℚ)
  | lock (thread : Nat)

structure Threads where
  buckets : Buckets
  calls : Nat → Option Call

def idle : Threads where
  buckets := fun _ => none
  calls := fun _ => none

def Threads.step (s : Threads) (event : Event) : Threads × List Served :=
  match event with
  | .read thread apiKeyId now =>
    match s.calls thread with
    | none => ({ s with calls := Function.update s.calls thread (some { apiKeyId, now }) }, [])
    | some _ => (s, [])
  | .lock thread =>
    match s.calls thread with
    | none => (s, [])
    | some call =>
      let (buckets, served) := serve limits call s.buckets
      ({ buckets, calls := Function.update s.calls thread none }, [served])

def Threads.run (s : Threads) (events : List Event) : Threads × List Served :=
  match events with
  | [] => (s, [])
  | event :: events =>
    let (s, served) := s.step limits event
    let (s, rest) := s.run events
    (s, served ++ rest)

end

variable {limits : Limits} {buckets buckets' : Buckets} {key : ApiKeyId} {now : ℚ}

def Limits.bucket (limits : Limits) (bucket : Option (TokenBucket ℚ)) (now : ℚ) : TokenBucket ℚ :=
  bucket.getD (.full (limits.capacity : ℚ) now)

def Limits.take (limits : Limits) (bucket : Option (TokenBucket ℚ)) (now : ℚ) : TokenBucket ℚ :=
  (limits.bucket bucket now).take (limits.capacity : ℚ) limits.refillRatePerSecond now

def Limits.Accepts (limits : Limits) (bucket : Option (TokenBucket ℚ)) (now : ℚ) : Prop :=
  (limits.bucket bucket now).Accepts (limits.capacity : ℚ) limits.refillRatePerSecond now

instance (bucket : Option (TokenBucket ℚ)) : Decidable (limits.Accepts bucket now) :=
  inferInstanceAs <| Decidable <|
    (limits.bucket bucket now).Accepts (limits.capacity : ℚ) limits.refillRatePerSecond now

def Limits.refusal (limits : Limits) (key : ApiKeyId) (bucket : Option (TokenBucket ℚ)) (now : ℚ)
    : RateLimitExceededError where
  apiKeyId := key
  retryAfterSeconds := (1 - (limits.take bucket now).tokens) / limits.refillRatePerSecond

theorem Limits.one_le_capacity (limits : Limits) : 1 ≤ (limits.capacity : ℚ) := by
  exact_mod_cast limits.hcapacity

theorem check_run (limits : Limits) (key : ApiKeyId) (now : ℚ) (buckets : Buckets)
    : (check limits key now).run buckets
        =
      if limits.Accepts (buckets key) now then
        .ok () (Function.update buckets key (some (limits.take (buckets key) now)))
      else
        .error (limits.refusal key (buckets key) now)
          (Function.update buckets key (some (limits.take (buckets key) now))) := by
  unfold check
  simp only [EStateM.run, bind, EStateM.bind, get, getThe, MonadStateOf.get, EStateM.get, modify,
    modifyGet, MonadStateOf.modifyGet, EStateM.modifyGet]
  split
  . next hshort =>
    have haccepts : ¬ limits.Accepts (buckets key) now := not_le.mpr hshort
    rw [if_neg haccepts, Limits.refusal, Limits.take, TokenBucket.take_of_not_accepts haccepts]
    rfl
  . next hshort =>
    have haccepts : limits.Accepts (buckets key) now := not_lt.mp hshort
    rw [if_pos haccepts, Limits.take, TokenBucket.take_of_accepts haccepts]
    exact congrArg (EStateM.Result.ok ()) (Function.update_idem _ _ _)

theorem serve_eq (call : Call) (buckets : Buckets)
    : serve limits call buckets
        =
      (Function.update buckets call.apiKeyId
          (some (limits.take (buckets call.apiKeyId) call.now)),
        { call with
          refusal :=
            if limits.Accepts (buckets call.apiKeyId) call.now then
              none
            else
              some (limits.refusal call.apiKeyId (buckets call.apiKeyId) call.now) }) := by
  unfold serve
  rw [check_run]
  by_cases haccepts : limits.Accepts (buckets call.apiKeyId) call.now
  . simp only [if_pos haccepts]
  . simp only [if_neg haccepts]

def Limits.replay (limits : Limits) (key : ApiKeyId) (bucket : Option (TokenBucket ℚ))
    (readings : List ℚ) : List Served :=
  match readings with
  | [] => []
  | now :: readings =>
    { apiKeyId := key
      now
      refusal := if limits.Accepts bucket now then none else some (limits.refusal key bucket now) }
      :: limits.replay key (some (limits.take bucket now)) readings

def readingsOf (key : ApiKeyId) (served : List Served) : List ℚ :=
  (served.filter (·.apiKeyId = key)).map (·.now)

theorem filter_run_eq_replay (s : Threads) (events : List Event) (key : ApiKeyId)
    : (s.run limits events).2.filter (·.apiKeyId = key)
        =
      limits.replay key (s.buckets key) (readingsOf key (s.run limits events).2) := by
  unfold readingsOf
  induction events generalizing s with
  | nil => rfl
  | cons event events ih =>
    simp only [Threads.run]
    cases event with
    | read thread apiKeyId now =>
      simp only [Threads.step]
      split
      . exact ih _
      . exact ih _
    | lock thread =>
      simp only [Threads.step]
      split
      . exact ih _
      . next call _ =>
        rw [serve_eq]
        simp only [List.singleton_append]
        have hrest := ih
          { buckets := Function.update s.buckets call.apiKeyId
              (some (limits.take (s.buckets call.apiKeyId) call.now))
            calls := Function.update s.calls thread none }
        by_cases hkey : call.apiKeyId = key
        . subst hkey
          simp only [Function.update_self] at hrest
          rw [List.filter_cons_of_pos (by simp), List.map_cons, Limits.replay]
          exact congrArg (List.cons _) hrest
        . simp only [Function.update_of_ne (Ne.symm hkey)] at hrest
          rw [List.filter_cons_of_neg (by simpa using hkey)]
          exact hrest

theorem tokens_le_run (s : Threads) (events : List Event)
    (h : ∀ key, ∀ bucket ∈ s.buckets key, bucket.tokens ≤ limits.capacity)
    : ∀ key, ∀ bucket ∈ (s.run limits events).1.buckets key, bucket.tokens ≤ limits.capacity := by
  induction events generalizing s with
  | nil => exact h
  | cons event events ih =>
    simp only [Threads.run]
    apply ih
    cases event with
    | read thread apiKeyId now =>
      simp only [Threads.step]
      split <;> exact h
    | lock thread =>
      simp only [Threads.step]
      split
      . exact h
      . next call _ =>
        rw [serve_eq]
        intro key bucket hbucket
        by_cases hkey : key = call.apiKeyId
        . subst hkey
          simp only [Function.update_self, Option.mem_def, Option.some.injEq] at hbucket
          rw [← hbucket]
          exact TokenBucket.take_tokens_le _ _ _ _
        . simp only [Function.update_of_ne hkey] at hbucket
          exact h key bucket hbucket

theorem accepted_replay (limits : Limits) (key : ApiKeyId) (bucket : TokenBucket ℚ) (readings : List ℚ)
    : ((limits.replay key (some bucket) readings).filter (·.refusal.isNone)).map (·.now)
        =
      bucket.accepted (limits.capacity : ℚ) limits.refillRatePerSecond readings := by
  induction readings generalizing bucket with
  | nil => rfl
  | cons now readings ih =>
    simp only [Limits.replay, TokenBucket.accepted]
    by_cases haccepts : limits.Accepts (some bucket) now
    . have haccepts' : bucket.Accepts (limits.capacity : ℚ) limits.refillRatePerSecond now := haccepts
      rw [if_pos haccepts', List.filter_cons_of_pos (by simp [haccepts]), List.map_cons, ih]
      rfl
    . have haccepts' : ¬ bucket.Accepts (limits.capacity : ℚ) limits.refillRatePerSecond now := haccepts
      rw [if_neg haccepts', List.filter_cons_of_neg (by simp [haccepts]), ih]
      rfl

theorem replay_none (now : ℚ) (readings : List ℚ)
    : limits.replay key none (now :: readings)
        =
      limits.replay key (some (.full (limits.capacity : ℚ) now)) (now :: readings) :=
  rfl

theorem countP_replay_le {s t : ℚ} (hwindow : s ≤ t) (readings : List ℚ)
    : ((limits.replay key none readings).countP
          (fun call => call.refusal.isNone ∧ s ≤ call.now ∧ call.now ≤ t) : ℚ)
        ≤ limits.capacity + limits.refillRatePerSecond * (t - s) := by
  have hcapacity : 0 ≤ (limits.capacity : ℚ) := zero_le_one.trans limits.one_le_capacity
  cases readings with
  | nil =>
    have := mul_nonneg limits.hrate.le (sub_nonneg_of_le hwindow)
    simp only [Limits.replay, List.countP_nil, Nat.cast_zero]
    linarith
  | cons now readings =>
    have haccepted := accepted_replay limits key
      (.full (limits.capacity : ℚ) now) (now :: readings)
    have hcount : (limits.replay key none (now :: readings)).countP
          (fun call => call.refusal.isNone ∧ s ≤ call.now ∧ call.now ≤ t)
        = ((TokenBucket.full (limits.capacity : ℚ) now).accepted (limits.capacity : ℚ)
            limits.refillRatePerSecond (now :: readings)).countP (fun now => s ≤ now ∧ now ≤ t) := by
      rw [← haccepted, ← replay_none, List.countP_map, List.countP_filter]
      congr 1
      funext ⟨call, refusal⟩
      cases refusal <;> simp
    rw [hcount]
    exact TokenBucket.countP_accepted_le hcapacity limits.hrate.le hwindow

theorem token_bucket_bound (limits : Limits) (events : List Event) (key : ApiKeyId) {s t : ℚ}
    (hwindow : s ≤ t)
    : ((((idle.run limits events).2.filter (·.apiKeyId = key)).countP
          (fun call => call.refusal.isNone ∧ s ≤ call.now ∧ call.now ≤ t) : Nat) : ℚ)
        ≤ limits.capacity + limits.refillRatePerSecond * (t - s)
      ∧ (∀ bucket ∈ (idle.run limits events).1.buckets key, bucket.tokens ≤ limits.capacity)
      ∧ ∀ events', readingsOf key (idle.run limits events').2 = readingsOf key (idle.run limits events).2 →
          (idle.run limits events').2.filter (·.apiKeyId = key)
            =
          (idle.run limits events).2.filter (·.apiKeyId = key) := by
  refine ⟨?_, ?_, ?_⟩
  . rw [filter_run_eq_replay]
    exact countP_replay_le hwindow _
  . exact tokens_le_run idle events nofun key
  . intro events' hreadings
    rw [filter_run_eq_replay, filter_run_eq_replay, hreadings]

theorem token_bucket_bound_outOfOrder
    : (1 : ℚ) ≤ 2
      ∧ ((((idle.run ⟨2, 1, by decide, by decide⟩
            [.read 1 ⟨1⟩ 1, .read 2 ⟨1⟩ 2, .lock 2, .lock 1]).2.filter
              (·.apiKeyId = ⟨1⟩)).countP
            (fun call => call.refusal.isNone ∧ 1 ≤ call.now ∧ call.now ≤ 2) : Nat) : ℚ) ≤ 2 + 1 * (2 - 1) := by
  have h : (1 : ℚ) ≤ 2 := by norm_num
  exact ⟨h, (token_bucket_bound ⟨2, 1, by decide, by decide⟩
    [.read 1 ⟨1⟩ 1, .read 2 ⟨1⟩ 2, .lock 2, .lock 1] ⟨1⟩ h).left⟩

theorem check_error {exc : RateLimitExceededError}
    (h : (check limits key now).run buckets = .error exc buckets')
    : ¬ limits.Accepts (buckets key) now
        ∧ exc = limits.refusal key (buckets key) now
        ∧ buckets' = Function.update buckets key (some (limits.take (buckets key) now)) := by
  rw [check_run] at h
  split at h
  . contradiction
  . next haccepts =>
    injection h with hexc hbuckets
    exact ⟨haccepts, hexc.symm, hbuckets.symm⟩

theorem check_ok_iff
    : (∃ buckets', (check limits key now).run buckets = .ok () buckets')
        ↔
      limits.Accepts (buckets key) now := by
  rw [check_run]
  split
  . next haccepts => simpa using haccepts
  . next haccepts => simpa using haccepts

theorem serveAll_credit {calls : List Call} {bucket : TokenBucket ℚ} (hbucket : buckets key = some bucket)
    (hrefused : ∀ served ∈ (serveAll limits calls buckets).2, served.apiKeyId = key →
      served.refusal.isSome)
    : ∃ bucket', (serveAll limits calls buckets).1 key = some bucket'
        ∧ bucket'.credit limits.refillRatePerSecond = bucket.credit limits.refillRatePerSecond := by
  induction calls generalizing buckets bucket with
  | nil => exact ⟨bucket, hbucket, rfl⟩
  | cons call calls ih =>
    simp only [serveAll, serve_eq, List.mem_cons, forall_eq_or_imp] at hrefused ⊢
    have ⟨hfirst, hrest⟩ := hrefused
    by_cases hkey : call.apiKeyId = key
    . subst hkey
      rw [hbucket] at hfirst hrest ⊢
      have haccepts : ¬ limits.Accepts (some bucket) call.now := by
        intro haccepts
        simp [haccepts] at hfirst
      have ⟨bucket', hbucket', hcredit⟩ := ih (Function.update_self _ _ _) hrest
      refine ⟨bucket', hbucket', hcredit.trans ?_⟩
      exact TokenBucket.take_credit_of_not_accepts limits.one_le_capacity haccepts
    . refine ih ?_ hrest
      rw [Function.update_of_ne (Ne.symm hkey)]
      exact hbucket

theorem lt_retryAfterHeader (exc : RateLimitExceededError)
    : exc.retryAfterSeconds < retryAfterHeader exc := by
  unfold retryAfterHeader pyInt
  push_cast
  split
  . exact Int.lt_floor_add_one _
  . exact (Int.le_ceil _).trans_lt (lt_add_one _)

theorem retry_after_exact {u : ℚ} {exc : RateLimitExceededError} {later : List Call}
    (h : (check limits key u).run buckets = .error exc buckets')
    (hrefused : ∀ served ∈ (serveAll limits later buckets').2, served.apiKeyId = key →
      served.refusal.isSome)
    : (∀ v, (∃ final, (check limits key v).run (serveAll limits later buckets').1 = .ok () final)
          ↔
        u + exc.retryAfterSeconds ≤ v)
      ∧ (requireRateLimit limits key u).run buckets
          = .error ⟨429, "rate limit exceeded", retryAfterHeader exc⟩ buckets'
      ∧ ∀ v, u + retryAfterHeader exc ≤ v →
          ∃ final, (requireRateLimit limits key v).run (serveAll limits later buckets').1 = .ok () final := by
  obtain ⟨haccepts, hexc, hbuckets⟩ := check_error h
  have hbucket : buckets' key = some (limits.take (buckets key) u) := by
    rw [hbuckets]
    exact Function.update_self _ _ _
  obtain ⟨bucket, hfinal, hcredit⟩ := serveAll_credit hbucket hrefused
  have hexact : ∀ v, (∃ final, (check limits key v).run (serveAll limits later buckets').1 = .ok () final)
      ↔ u + exc.retryAfterSeconds ≤ v := by
    intro v
    have hrate := limits.hrate
    have htake : (limits.take (buckets key) u).refilledAt = u := by
      rw [Limits.take, TokenBucket.take_of_not_accepts haccepts]
      rfl
    rw [check_ok_iff, hfinal]
    refine (TokenBucket.accepts_iff limits.one_le_capacity).trans ?_
    simp only [Limits.bucket, Option.getD_some]
    rw [hcredit, hexc, ← le_sub_iff_add_le', Limits.refusal, div_le_iff₀ hrate, TokenBucket.credit, htake]
    constructor <;> intro <;> linarith
  refine ⟨hexact, ?_, ?_⟩
  . simp only [requireRateLimit, EStateM.run, EStateM.adaptExcept] at h ⊢
    rw [h]
  . intro v hv
    have := lt_retryAfterHeader exc
    obtain ⟨final, hok⟩ := (hexact v).mpr (by linarith)
    refine ⟨final, ?_⟩
    simp only [requireRateLimit, EStateM.run, EStateM.adaptExcept] at hok ⊢
    rw [hok]

def slowLimits : Limits :=
  ⟨1, 1 / 2, by decide, by norm_num⟩

theorem retry_after_exact_halfWay
    : ∃ exc buckets', (check slowLimits ⟨1⟩ 0).run (fun _ => some ⟨0, 0⟩) = .error exc buckets'
        ∧ (∀ served ∈ (serveAll slowLimits [⟨⟨1⟩, 1⟩, ⟨⟨2⟩, 2⟩] buckets').2, served.apiKeyId = ⟨1⟩ →
            served.refusal.isSome)
        ∧ ∀ v, (∃ final, (check slowLimits ⟨1⟩ v).run
                (serveAll slowLimits [⟨⟨1⟩, 1⟩, ⟨⟨2⟩, 2⟩] buckets').1 = .ok () final)
              ↔
            0 + exc.retryAfterSeconds ≤ v := by
  have hrun := check_run slowLimits ⟨1⟩ 0 (fun _ => some ⟨0, 0⟩)
  rw [if_neg (by decide +kernel)] at hrun
  refine ⟨_, _, hrun, ?_, (retry_after_exact hrun ?_).left⟩
  all_goals decide +kernel

end RateLimit

end AetherGrid
