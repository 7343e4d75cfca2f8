import AetherGrid.Cluster.Fencing

/-!
This module contains what an iteration of the execution loop leaves behind when it loses its lease to
somebody else.
-/

namespace AetherGrid

open Prog Pool

namespace DroppedOutcome

def isOutcome (type : EventType) : Bool :=
  match type with
  | .jobCompleted | .jobFailed | .jobCancelled => true
  | _ => false

def recordsOutcome (c : Call) : Bool :=
  match c with
  | .saveEvent _ _ type => isOutcome type
  | _ => false

def StillThere (db : DB) (lease : Lease) : Prop :=
  ∃ row ∈ db.leases.rows,
    row.id = lease.id ∧ row.workerId = lease.workerId ∧ row.jobId = lease.jobId
      ∧ row.tenantId = lease.tenantId

instance (db : DB) (lease : Lease) : Decidable (StillThere db lease) :=
  inferInstanceAs (Decidable (∃ row ∈ db.leases.rows, _))

structure Trail where
  lease : Option Lease := none
  recorded : Bool := false
  released : Bool := false
  saved : Bool := false
  interrupted : Bool := false

def Interrupts (db : DB) (n : Trail) (c : Call) : Prop :=
  (n.recorded = true ∨ recordsOutcome c = true) ∧ n.released = false
    ∧ ∃ lease ∈ n.lease, ¬StillThere db lease

instance (db : DB) (n : Trail) (c : Call) : Decidable (Interrupts db n c) :=
  inferInstanceAs (Decidable (_ ∧ _ ∧ ∃ lease ∈ n.lease, _))

def Trail.after (n : Trail) (db : DB) (c : Call) : Trail :=
  match c with
  | .getLeaseByWorker worker tenant =>
    { n with lease := n.lease.or (PostgresLeaseRepository.getByWorkerId db worker tenant) }
  | .saveEvent job tenant type =>
    let stored := (db.jobs.get? job).any (·.tenantId = tenant)
    { n with recorded := n.recorded || (isOutcome type && stored) }
  | .deleteLease job tenant =>
    let removed := n.lease.any (fun lease =>
      db.leases.rows.any (fun row => row.id = lease.id ∧ row.jobId = job ∧ row.tenantId = tenant))
    { n with released := n.released || removed }
  | .saveNode _ | .saveWorker _ => { n with saved := true }
  | .saveJob job => { n with saved := n.saved || !job.isRunning }
  | _ => n

def trailed : Watched signature DB Env Trail where
  exec := Call.exec
  note c _ db n := { n.after db c with interrupted := n.interrupted || Interrupts db n c }

def isExecution (request : Request) : Bool :=
  match request with
  | .execution _ _ _ => true
  | _ => false

variable {ι : Type}

def heldToTheEnd (requests : ι → Request) (db : DB) (trails : ι → Trail) (i : ι) (c : Call) : Prop :=
  isExecution (requests i) = true → ¬Interrupts db (trails i) c

instance (requests : ι → Request) (db : DB) (trails : ι → Trail) (i : ι) (c : Call)
    : Decidable (heldToTheEnd requests db trails i c) :=
  inferInstanceAs (Decidable (_ → ¬_))

def Settled (n : Trail) : Prop :=
  n.interrupted = true ∨ n.released = true

def Quiet (n : Trail) : Prop :=
  n.recorded = false ∧ n.saved = false

def Met (x : DB × Env) : Prop :=
  Schema x.1

abbrev anyCall : Trail → Call → Prop :=
  fun _ _ => True

section rules

variable {α : Type} {n : Trail} {c : Call} {db : DB} {lease : Lease}

theorem Trail.after_released (h : n.released = true) : (n.after db c).released = true := by
  unfold Trail.after
  cases c with
  | deleteLease job tenant =>
    dsimp only
    rw [h, Bool.true_or]
  | _ => exact h

theorem wp_settled (p : Service α) (h : Settled n)
    : wp trailed.view Met anyCall p (fun _ n' => Settled n') n := by
  have hwp : wp trailed.view Met anyCall p (fun _ _ => True) n :=
    wp_of_forall (fun _ _ => trivial) (fun _ _ => trivial) p n
  apply wp_mono (wp_keep Settled _ hwp h)
  . intro _ _ h
    exact h.right
  . intro n c x h _ _
    refine h.imp ?_ Trail.after_released
    intro hinterrupted
    dsimp only [Watched.view, trailed]
    rw [hinterrupted, Bool.true_or]

theorem note_eq_after (h : ¬Interrupts db n c) (env : Env)
    : trailed.note c env db n = n.after db c := by
  have hinterrupted : (n.after db c).interrupted = n.interrupted := by
    unfold Trail.after
    cases c <;> rfl
  dsimp only [trailed]
  rw [decide_eq_false h, Bool.or_false, ← hinterrupted]

theorem note_of_quiet (hrecorded : n.recorded = false) (hc : recordsOutcome c = false) (env : Env)
    : trailed.note c env db n = n.after db c := by
  apply note_eq_after
  intro ⟨hexposed, _⟩
  rw [hrecorded, hc] at hexposed
  cases hexposed <;> contradiction

theorem wp_exposed {f : c.Res → Service α} (hrecorded : n.recorded = true) (hlease : n.lease = some lease)
    (h : ∀ db env, Schema db → StillThere db lease →
      wp trailed.view Met anyCall (f (c.exec env db).1) (fun _ n' => Settled n') (n.after db c))
    : wp trailed.view Met anyCall (perform c >>= f) (fun _ n' => Settled n') n := by
  apply Watched.wp_view_perform_bind trivial
  intro db env hmet r n' hr hn'
  subst hr hn'
  by_cases hinterrupts : Interrupts db n c
  . apply wp_settled
    left
    dsimp only [trailed]
    rw [decide_eq_true hinterrupts, Bool.or_true]
  . rw [note_eq_after hinterrupts]
    cases hreleased : n.released with
    | true => exact wp_settled _ (.inr (Trail.after_released hreleased))
    | false =>
      apply h db env hmet
      by_contra hgone
      exact hinterrupts ⟨.inl hrecorded, hreleased, lease, hlease, hgone⟩

section there

theorem getByWorkerId_of_there (hschema : Schema db) (h : StillThere db lease)
    : ∃ row, PostgresLeaseRepository.getByWorkerId db lease.workerId lease.tenantId = some row
        ∧ row.id = lease.id ∧ row.jobId = lease.jobId := by
  have ⟨row, hrow, hid, hworker, hjob, htenant⟩ := h
  cases hget : PostgresLeaseRepository.getByWorkerId db lease.workerId lease.tenantId with
  | none =>
    unfold PostgresLeaseRepository.getByWorkerId at hget
    rw [List.find?_eq_none] at hget
    have := hget row hrow
    simp [hworker, htenant] at this
  | some other =>
    have ⟨hother, hworker', _⟩ := PostgresLeaseRepository.getByWorkerId_eq_some hget
    have heq := hschema.uniqueWorker other hother row hrow (hworker'.trans hworker.symm)
    subst heq
    exact ⟨other, rfl, hid, hjob⟩

theorem getWorker_of_there (hschema : Schema db) (h : StillThere db lease) (env : Env)
    : ∃ worker, PostgresWorkerRepository.getById env db lease.workerId lease.tenantId = some worker := by
  have ⟨row, hrow, _, hworker, _, htenant⟩ := h
  have ⟨stored, hstored, hsame⟩ := hschema.worker_of_lease hrow
  have ⟨worker, hentity⟩ : ∃ worker, PostgresWorkerRepository.toEntity env db stored = some worker :=
    PostgresWorkerRepository.toEntity_isSome hschema (Table.mem_of_get? hstored)
  have htenant' : decide (stored.tenantId = lease.tenantId) = true :=
    decide_eq_true (hsame.trans htenant)
  refine ⟨worker, ?_⟩
  unfold PostgresWorkerRepository.getById
  rw [← hworker, hstored, Option.filter_some, if_pos htenant']
  exact hentity

theorem getJob_of_there (hschema : Schema db) (h : StillThere db lease)
    : ∃ job, PostgresJobRepository.getById db lease.jobId lease.tenantId = some job := by
  have ⟨row, hrow, _, _, hjob, htenant⟩ := h
  have ⟨job, hstored, hsame⟩ := hschema.job_of_lease hrow
  rw [hjob] at hstored
  refine ⟨job, ?_⟩
  rw [← htenant, ← hsame]
  exact PostgresJobRepository.getById_of_get? hstored

end there

theorem wp_releaseLease (hrecorded : n.recorded = true) (hlease : n.lease = some lease)
    : wp trailed.view Met anyCall (releaseLease lease.workerId lease.id lease.tenantId)
        (fun _ n' => Settled n') n := by
  unfold releaseLease
  apply wp_exposed hrecorded hlease
  intro db env hschema hthere
  have hsame : n.after db (.getLeaseByWorker lease.workerId lease.tenantId) = n := by
    dsimp only [Trail.after]
    rw [hlease, Option.some_or, ← hlease]
  have ⟨row, hread, hid, hjob⟩ := getByWorkerId_of_there hschema hthere
  rw [hsame]
  dsimp only [Call.exec]
  rw [hread]
  dsimp only
  rw [if_neg (not_not.mpr hid), hjob]
  apply wp_exposed hrecorded hlease
  intro db env hschema hthere
  have ⟨worker, hworker⟩ := getWorker_of_there hschema hthere env
  dsimp only [Call.exec]
  rw [hworker]
  apply wp_exposed hrecorded hlease
  intro db env hschema hthere
  have ⟨job, hjob⟩ := getJob_of_there hschema hthere
  dsimp only [Call.exec]
  rw [hjob]
  apply wp_exposed hrecorded hlease
  intro db env hschema hthere
  apply wp_settled
  right
  have ⟨row, hrow, hid, _, hjob, htenant⟩ := hthere
  have hremoved : db.leases.rows.any (fun row =>
      row.id = lease.id ∧ row.jobId = lease.jobId ∧ row.tenantId = lease.tenantId) = true := by
    rw [List.any_eq_true]
    exact ⟨row, hrow, by simp [hid, hjob, htenant]⟩
  dsimp only [Trail.after]
  rw [hlease, Option.any_some, hremoved, Bool.or_true]

structure Underway (execution : Execution) (n : Trail) : Prop where
  quiet : Quiet n
  lease : ∃ lease, n.lease = some lease ∧ lease.id = execution.leaseId
    ∧ lease.workerId = execution.worker.id ∧ lease.tenantId = execution.tenantId

theorem wp_begin (workerId : WorkerId) (hquiet : Quiet n) (hlease : n.lease = none)
    : wp trailed.view Met anyCall (WorkerExecutionLoop.begin workerId)
        (fun r n' => Quiet n' ∧ ∀ execution, r = .ok (some execution) → Underway execution n') n := by
  have hnothing : ∀ n' (r : Except Err (Option Execution)), Quiet n' →
      (∀ execution, r ≠ .ok (some execution)) →
      Quiet n' ∧ ∀ execution, r = .ok (some execution) → Underway execution n' := by
    intro n' r hquiet hr
    exact ⟨hquiet, fun execution h => absurd h (hr execution)⟩
  unfold WorkerExecutionLoop.begin
  apply Watched.wp_view_read trivial (fun _ env => note_of_quiet hquiet.left rfl env)
  intro db env hmet r hr
  cases r with
  | none => exact hnothing _ _ hquiet (by simp)
  | some worker =>
    have ⟨_, hid⟩ := PostgresWorkerRepository.getByIdAcrossTenants_eq_some hmet hr
    dsimp only
    cases hrunning : worker.runningJob with
    | none => exact hnothing _ _ hquiet (by simp)
    | some job =>
      apply Watched.wp_view_perform_bind trivial
      intro db env hmet r n' hr hn'
      rw [note_of_quiet hquiet.left rfl] at hn'
      have hquiet' : Quiet n' := by
        rw [← hn']
        exact hquiet
      cases r with
      | none => exact hnothing _ _ hquiet' (by simp)
      | some lease =>
        have hread : PostgresLeaseRepository.getByWorkerId db workerId worker.tenantId = some lease := hr
        have ⟨_, hworker, htenant⟩ := PostgresLeaseRepository.getByWorkerId_eq_some hread
        have hcaptured : n'.lease = some lease := by
          rw [← hn']
          dsimp only [Trail.after]
          rw [hlease, hread]
          rfl
        dsimp only
        split
        . refine ⟨hquiet', ?_⟩
          intro execution h
          injection h with h
          injection h with h
          rw [← h]
          exact ⟨hquiet', lease, hcaptured, rfl, hworker.trans hid.symm, htenant⟩
        . apply Watched.wp_view_read trivial (fun _ env => note_of_quiet hquiet'.left rfl env)
          intro _ _ _ now _
          rw [wp_bind, wp_runCommand]
          cases hrun : (Worker.start now).run worker with
          | error e _ => exact hnothing _ _ hquiet' (by simp)
          | ok job' worker' =>
            have ⟨_, _, hstart, hworker'⟩ := Worker.onRunningJob_ok hrun
            have hisRunning : job'.isRunning = true := decide_eq_true (Job.start_moves hstart).status
            -- the job that is saved before the command runs leaves the trail as it is
            have hafter : ∀ db, n'.after db (.saveJob job') = n' := by
              intro db
              dsimp only [Trail.after]
              rw [hisRunning, Bool.not_true, Bool.or_false]
            dsimp only
            apply view_save trivial
            . intro db env
              rw [note_of_quiet hquiet'.left rfl, hafter]
            . intro r
              cases r with
              | error e => exact hnothing _ _ hquiet' (by simp)
              | ok _ =>
                refine ⟨hquiet', ?_⟩
                intro execution h
                injection h with h
                injection h with h
                rw [← h, hworker']
                exact ⟨hquiet', lease, hcaptured, rfl, hworker.trans hid.symm, htenant⟩

def GoesOn (r : Except Err Execution) (n : Trail) : Prop :=
  Quiet n ∧ ∀ execution, r = .ok execution → Underway execution n

theorem goesOn_of_underway {execution execution' : Execution} (h : Underway execution n)
    (hid : execution'.leaseId = execution.leaseId) (hworker : execution'.worker = execution.worker)
    (htenant : execution'.tenantId = execution.tenantId) : GoesOn (.ok execution') n := by
  refine ⟨h.quiet, ?_⟩
  intro other hother
  injection hother with hother
  have ⟨lease, hlease, hid', hworker', htenant'⟩ := h.lease
  rw [← hother]
  refine ⟨h.quiet, lease, hlease, hid'.trans hid.symm, ?_, htenant'.trans htenant.symm⟩
  rw [hworker', hworker]

theorem wp_renewLease {execution : Execution} (h : Underway execution n) {worker : WorkerId}
    {leaseId : LeaseId} {tenant : TenantId} {Q : Except Err Unit → Trail → Prop} (hQ : ∀ r, Q r n)
    : wp trailed.view Met anyCall (renewLease worker leaseId tenant) Q n := by
  have ⟨lease, hlease, _⟩ := h.lease
  unfold renewLease
  apply Watched.wp_view_read trivial
  . intro db env
    rw [note_of_quiet h.quiet.left rfl]
    dsimp only [Trail.after]
    rw [hlease, Option.some_or, ← hlease]
  . intro _ _ _ answer _
    cases answer with
    | none => exact hQ _
    | some lease =>
      dsimp only
      split
      . exact hQ _
      . refine ⟨trivial, ?_⟩
        intro x _
        have hsame : (trailed.view.exec (.renewLease lease.id defaultLeaseDuration tenant) x n).2 = n :=
          note_of_quiet h.quiet.left rfl x.2
        rw [wp_ofExcept, hsame]
        exact hQ _

theorem wp_keepLeaseAlive {execution : Execution} (h : Underway execution n)
    : wp trailed.view Met anyCall (WorkerExecutionLoop.keepLeaseAlive execution) GoesOn n := by
  apply WorkerExecutionLoop.wp_keepLeaseAlive_of (· = n) rfl
  . intro c n' hc hn'
    subst hn'
    refine ⟨trivial, fun x _ => ?_⟩
    cases c <;> first | exact note_of_quiet h.quiet.left rfl x.2 | contradiction
  . exact wp_renewLease h (fun _ => rfl)
  . intro execution' n' hn' hsame
    subst hn'
    exact goesOn_of_underway h hsame.leaseId hsame.worker hsame.tenantId

theorem wp_renewals (times : Nat) {execution : Execution} (h : Underway execution n)
    : wp trailed.view Met anyCall (WorkerExecutionLoop.renewals times execution) GoesOn n := by
  induction times generalizing n execution with
  | zero => exact goesOn_of_underway h rfl rfl rfl
  | succ times ih =>
    unfold WorkerExecutionLoop.renewals
    rw [wp_bind]
    apply wp_mono (wp_keepLeaseAlive h)
    intro r n' hgoesOn
    cases r with
    | error e =>
      refine ⟨hgoesOn.left, ?_⟩
      intro execution' h
      contradiction
    | ok execution' => exact ih (hgoesOn.right execution' rfl)

def Traceless (n : Trail) : Prop :=
  Settled n ∨ Quiet n

theorem wp_recordForJob {job : Job} {type : EventType} (hquiet : Quiet n)
    {Q : Except Err Unit → Trail → Prop} (herror : ∀ e n', Quiet n' → Q (.error e) n')
    (hok : ∀ n', (isOutcome type = true → n'.recorded = true) → n'.lease = n.lease → Q (.ok ()) n')
    : wp trailed.view Met anyCall (RecordJobEventsService.recordForJob job type) Q n := by
  refine ⟨trivial, ?_⟩
  intro ⟨db, env⟩ _
  rw [wp_ofExcept]
  dsimp only [Watched.view, trailed, Call.exec, PostgresEventRepository.save, commit, Trail.after]
  cases hstored : (db.jobs.get? job.id).any (·.tenantId = job.tenantId) with
  | true =>
    apply hok
    . intro htype
      dsimp only
      rw [htype, hquiet.left]
      rfl
    . rfl
  | false =>
    apply herror
    refine ⟨?_, hquiet.right⟩
    dsimp only
    rw [hquiet.left, Bool.and_false]
    rfl

theorem wp_recordOutcome {execution : Execution} {result : JobExecutionResult} {now : Time}
    (hquiet : Quiet n) {Q : Except Err (Job × Worker) → Trail → Prop}
    (herror : ∀ e n', Quiet n' → Q (.error e) n')
    (hok : ∀ job worker n', worker.id = execution.worker.id → n'.recorded = true → n'.lease = n.lease →
      Q (.ok (job, worker)) n')
    : wp trailed.view Met anyCall (WorkerExecutionLoop.recordOutcome execution result now) Q n := by
  apply WorkerExecutionLoop.wp_recordOutcome_of (fun e => herror e n hquiet)
  intro job' hmoves
  apply wp_recordForJob hquiet
  . intro e n' hquiet'
    exact herror e n' hquiet'
  . intro n' hrecorded hlease
    apply hok job' execution.worker.recover n' rfl (hrecorded _) hlease
    cases WorkerExecutionLoop.outcomeOf result <;> rfl

theorem wp_finish {execution : Execution} (h : Underway execution n) (result : JobExecutionResult)
    : wp trailed.view Met anyCall (WorkerExecutionLoop.finish execution result)
        (fun _ n' => Traceless n') n := by
  have ⟨lease, hlease, hid, hworker, htenant⟩ := h.lease
  unfold WorkerExecutionLoop.finish
  split
  . exact .inr h.quiet
  . apply Watched.wp_view_read trivial (fun _ env => note_of_quiet h.quiet.left rfl env)
    intro _ _ _ now _
    rw [wp_bind]
    apply wp_recordOutcome h.quiet
    . intro e n' hquiet
      exact .inr hquiet
    . intro job worker n' hworkerId hrecorded hsame
      dsimp only
      rw [wp_bind, hworkerId, ← hworker, ← hid, ← htenant]
      apply wp_mono (wp_releaseLease hrecorded (hsame.trans hlease))
      intro r n'' hsettled
      cases r with
      | error e => exact .inl hsettled
      | ok _ =>
        apply wp_mono (wp_settled _ hsettled)
        intro _ _ hsettled
        exact .inl hsettled

theorem wp_execute (workerId : WorkerId) (times : Nat) (result : JobExecutionResult)
    : wp trailed.view Met anyCall (WorkerExecutionLoop.execute workerId times result)
        (fun _ n' => Traceless n') {} := by
  unfold WorkerExecutionLoop.execute
  rw [wp_bind]
  apply wp_mono (wp_begin workerId ⟨rfl, rfl⟩ rfl)
  intro r n' ⟨hquiet, hunderway⟩
  cases r with
  | error e => exact .inr hquiet
  | ok started =>
    cases started with
    | none => exact .inr hquiet
    | some execution =>
      dsimp only
      rw [wp_bind]
      apply wp_mono (wp_renewals times (hunderway execution rfl))
      intro r n'' ⟨hquiet', hunderway'⟩
      cases r with
      | error e => exact .inr hquiet'
      | ok execution' => exact wp_finish (hunderway' execution' rfl) result

end rules

variable {requests : ι → Request} {db : DB}

structure Inv (requests : ι → Request) (db : DB) (trails : ι → Trail) : Prop where
  schema : Schema db
  held : ∀ i, isExecution (requests i) = true → (trails i).interrupted = false

def answers (requests : ι → Request) (i : ι) (_ : Except Err Unit) (n : Trail) : Prop :=
  isExecution (requests i) = true → Traceless n

variable [DecidableEq ι]

def protocol (requests : ι → Request) : Protocol trailed (heldToTheEnd requests) where
  inv := Inv requests
  met := Met
  guard _ := anyCall
  hmet _ _ _ h := h.schema
  hstep db trails i c env h _ hcall := by
    refine ⟨h.schema.exec c env, ?_⟩
    intro j hj
    by_cases heq : j = i
    . subst heq
      rw [Function.update_self]
      dsimp only [trailed]
      rw [h.held j hj, decide_eq_false (hcall hj)]
      rfl
    . rw [Function.update_of_ne heq]
      exact h.held j hj

theorem holds_pending (hschema : Schema db)
    : (protocol requests).Holds (answers requests) (pending requests db {}) := by
  refine ⟨⟨hschema, fun _ _ => rfl⟩, ?_⟩
  intro i
  dsimp only [pending, protocol, answers]
  cases hrequest : requests i with
  | execution worker times result =>
    apply wp_mono (wp_execute worker times result)
    intro _ _ htraceless _
    exact htraceless
  | service served =>
    refine wp_of_forall (fun _ _ => trivial) ?_ _ _
    intro _ _ hnot
    rw [hrequest] at hnot
    contradiction
  | releaseLease worker lease tenant =>
    refine wp_of_forall (fun _ _ => trivial) ?_ _ _
    intro _ _ hnot
    rw [hrequest] at hnot
    contradiction

theorem traceless_of_heldToTheEnd (hschema : Schema db) {pool : Pool signature Err Unit DB Trail ι}
    (hreaches : Reaches trailed (heldToTheEnd requests) (pending requests db {}) pool) {i : ι}
    {workerId : WorkerId} {times : Nat} {result : JobExecutionResult}
    (hrequest : requests i = .execution workerId times result)
    (hdone : (pool.threads i).isDone = true) (hreleased : (pool.notes i).released = false)
    : (pool.notes i).recorded = false ∧ (pool.notes i).saved = false := by
  have hpool := (holds_pending hschema).reaches hreaches
  have hexecution : isExecution (requests i) = true := by
    rw [hrequest]
    rfl
  have htraceless : Traceless (pool.notes i) := by
    cases hthread : pool.threads i with
    | ret a => exact hpool.result hthread hexecution
    | raise e => exact hpool.error hthread hexecution
    | call c k =>
      rw [hthread] at hdone
      contradiction
  cases htraceless with
  | inr hquiet => exact hquiet
  | inl hsettled =>
    cases hsettled with
    | inl hinterrupted =>
      rw [hpool.inv.held i hexecution] at hinterrupted
      contradiction
    | inr hreleased' =>
      rw [hreleased] at hreleased'
      contradiction

def loopAndReconciliation (i : Fin 2) : Request :=
  match i with
  | 0 => .execution ⟨3⟩ 1 ⟨some 0, false, false, false⟩
  | 1 => .service .recoverExpiredLeases

def anHourLater : Env :=
  { now := seconds 3600 }

def reclaimedMeanwhile {ι : Type} (loop pass : ι) : List (ι × Env) :=
  List.replicate 2 (loop, { now := 0 })
    ++ List.replicate 10 (pass, anHourLater)
    ++ List.replicate 4 (loop, anHourLater)

theorem outcome_recorded_without_lease
    : Schema (replay oneRunningJob DB.empty)
        ∧ ∃ pool, Reaches trailed anyTime
            (pending loopAndReconciliation (replay oneRunningJob DB.empty) {}) pool
          ∧ (pool.threads 0).isDone = true
          ∧ (pool.notes 0).released = false
          ∧ (pool.notes 0).recorded = true
          ∧ pool.state.events.any (·.eventType = .jobCompleted) = true := by
  refine ⟨by decide +kernel, ?_⟩
  exact exists_reaches_of_play (W := trailed) (C := anyTime)
    (pending loopAndReconciliation (replay oneRunningJob DB.empty) {}) (reclaimedMeanwhile 0 1)
    (fun pool => (pool.threads 0).isDone = true
      ∧ (pool.notes 0).released = false
      ∧ (pool.notes 0).recorded = true
      ∧ pool.state.events.any (·.eventType = .jobCompleted) = true)
    (by decide +kernel)

def loopAndTick (i : Fin 3) : Request :=
  match i with
  | 0 => .execution ⟨2⟩ 1 ⟨some 0, false, false, false⟩
  | 1 => .service .recoverExpiredLeases
  | 2 => .service .schedulerTick

def leasedAnewMeanwhile {ι : Type} (loop pass tick : ι) : List (ι × Env) :=
  List.replicate 2 (loop, { now := 0 })
    ++ List.replicate 11 (pass, Fencing.thirtyOneSeconds)
    ++ List.replicate 14 (tick, Fencing.thirtyOneSeconds)
    ++ [(loop, Fencing.thirtyOneSeconds)]

theorem traceless_of_heldToTheEnd_leasedAnew
    : ∃ pool, Reaches trailed (heldToTheEnd loopAndTick)
          (pending loopAndTick Fencing.retryable {}) pool
        ∧ (pool.notes 0).lease.isSome = true
        ∧ (pool.notes 0).recorded = false
        ∧ (pool.notes 0).saved = false := by
  have ⟨pool, hreaches, hdone, hreleased, hlease⟩ := exists_reaches_of_play
    (W := trailed) (C := heldToTheEnd loopAndTick) (pending loopAndTick Fencing.retryable {})
    (leasedAnewMeanwhile 0 1 2)
    (fun pool => (pool.threads 0).isDone = true ∧ (pool.notes 0).released = false
      ∧ (pool.notes 0).lease.isSome = true)
    (by decide +kernel)
  have hschema : Schema Fencing.retryable := by decide +kernel
  exact ⟨pool, hreaches, hlease,
    traceless_of_heldToTheEnd hschema hreaches rfl hdone hreleased⟩

end DroppedOutcome

end AetherGrid
