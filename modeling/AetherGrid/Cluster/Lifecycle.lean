import AetherGrid.Cluster.System
import AetherGrid.Store.Lawful
import AetherGrid.Prog.Trace

/-!
This module contains the stored lifecycle of jobs and their retry budget over whole runs of a cluster in
which service calls are made one at a time.
-/

namespace AetherGrid

open Prog

/--
The runs of a cluster together with the states of the stores they go through, one for every repository
call and the latest one first.
-/
inductive Recorded : Cluster → List DB → Prop where
  | init {db : DB} (hdb : Pristine db) (hbudget : ∀ job ∈ db.jobs.rows, job.retryCount ≤ job.maxRetries)
    : Recorded ⟨db, []⟩ [db]
  | service {c : Cluster} {past : List DB} (call : ServiceCall) {r : Except Err Unit} {db : DB}
    {l : List DB} (hc : Recorded c past) (htraces : Traces postgres anyClock call.run c.db r db l)
    : Recorded { c with db := db } (l ++ past)
  | begin {c : Cluster} {past : List DB} (workerId : WorkerId) {execution : Execution} {db : DB}
    {l : List DB} (hc : Recorded c past)
    (htraces : Traces postgres anyClock (WorkerExecutionLoop.begin workerId) c.db
      (.ok (some execution)) db l)
    : Recorded ⟨db, execution :: c.executions⟩ (l ++ past)
  | beginNothing {c : Cluster} {past : List DB} (workerId : WorkerId)
    {r : Except Err (Option Execution)} {db : DB} {l : List DB} (hc : Recorded c past)
    (htraces : Traces postgres anyClock (WorkerExecutionLoop.begin workerId) c.db r db l)
    (hnothing : ∀ execution, r ≠ .ok (some execution))
    : Recorded { c with db := db } (l ++ past)
  | keepLeaseAlive {c : Cluster} {past : List DB} {execution execution' : Execution} {db : DB}
    {l : List DB} (hc : Recorded c past) (hexecution : execution ∈ c.executions)
    (htraces : Traces postgres anyClock (WorkerExecutionLoop.keepLeaseAlive execution) c.db
      (.ok execution') db l)
    : Recorded ⟨db, execution' :: c.executions.erase execution⟩ (l ++ past)
  | keepLeaseAliveError {c : Cluster} {past : List DB} {execution : Execution} {e : Err} {db : DB}
    {l : List DB} (hc : Recorded c past) (hexecution : execution ∈ c.executions)
    (htraces : Traces postgres anyClock (WorkerExecutionLoop.keepLeaseAlive execution) c.db
      (.error e) db l)
    : Recorded { c with db := db } (l ++ past)
  | finish {c : Cluster} {past : List DB} {execution : Execution} (result : JobExecutionResult)
    {r : Except Err Unit} {db : DB} {l : List DB} (hc : Recorded c past)
    (hexecution : execution ∈ c.executions)
    (htraces : Traces postgres anyClock (WorkerExecutionLoop.finish execution result) c.db r db l)
    : Recorded ⟨db, c.executions.erase execution⟩ (l ++ past)

theorem Recorded.reachable {c : Cluster} {history : List DB} (h : Recorded c history)
    : Reachable anyCall c := by
  induction h with
  | init hdb _ => exact .init hdb
  | service call _ htraces ih => exact ih.step (.service call trivial htraces.runs)
  | begin workerId _ htraces ih => exact ih.step (.begin workerId htraces.runs)
  | beginNothing workerId _ htraces hnothing ih =>
    exact ih.step (.beginNothing workerId htraces.runs hnothing)
  | keepLeaseAlive _ hexecution htraces ih => exact ih.step (.keepLeaseAlive hexecution htraces.runs)
  | keepLeaseAliveError _ hexecution htraces ih =>
    exact ih.step (.keepLeaseAliveError hexecution htraces.runs)
  | finish result _ hexecution htraces ih => exact ih.step (.finish result hexecution htraces.runs)

def entersRunning (id : JobId) (db db' : DB) : Bool :=
  (db'.jobs.get? id).any (·.isRunning) && !(db.jobs.get? id).any (·.isRunning)

def timesRunning (id : JobId) (history : List DB) : Nat :=
  match history with
  | db' :: db :: past => (if entersRunning id db db' then 1 else 0) + timesRunning id (db :: past)
  | _ => 0

def spent (db : DB) (id : JobId) : Nat :=
  (db.jobs.get? id).elim 0 (fun job => job.retryCount + job.status.attempts)

section exec

variable (env : Env) {db : DB} {c : Call} {n : Nat}

theorem budget_of_exec (hlawful : lawful n db c)
    (hbudget : ∀ job ∈ db.jobs.rows, job.retryCount ≤ job.maxRetries)
    : ∀ job ∈ (c.exec env db).2.jobs.rows, job.retryCount ≤ job.maxRetries := by
  intro job' hjob'
  have hget' := Table.get?_key_of_mem _ hjob'
  cases hget : db.jobs.get? job'.id with
  | some job =>
    have ⟨job'', hget'', hbecomes⟩ := becomes_of_exec env hlawful hget
    have := hget'.symm.trans hget''
    injection this with this
    rw [this]
    exact hbecomes.budget (hbudget job (Table.mem_of_get? hget))
  | none =>
    have hc := (Call.writes_exec env db c).get?_job_new hget hget'
    subst hc
    dsimp only [lawful] at hlawful
    rw [hget] at hlawful
    exact hlawful

theorem spent_of_exec (hlawful : lawful n db c) (id : JobId)
    : (if entersRunning id db (c.exec env db).2 then 1 else 0) + spent db id
        ≤
      spent (c.exec env db).2 id := by
  unfold spent entersRunning
  cases hget : db.jobs.get? id with
  | some job =>
    have ⟨job', hget', hbecomes⟩ := becomes_of_exec env hlawful hget
    simp only [hget', Option.any_some, Option.elim_some, Job.isRunning]
    split
    . next henters =>
      simp only [Bool.and_eq_true, decide_eq_true_eq, Bool.not_eq_eq_eq_not, Bool.not_true,
        decide_eq_false_iff_not] at henters
      have hscheduled : job.status.attempts = 0 := by
        rcases hbecomes.edge with heq | hedge
        . exact absurd (heq.symm.trans henters.left) henters.right
        . rw [henters.left] at hedge
          cases hstatus : job.status <;> rw [hstatus] at hedge <;> first | rfl | contradiction
      have hstarted : job'.status.attempts = 1 := by
        rw [henters.left]
        rfl
      have := hbecomes.retryCount
      omega
    . have := hbecomes.attempts
      omega
  | none =>
    cases hget' : (c.exec env db).2.jobs.get? id with
    | none => simp
    | some job' =>
      simp only [Option.any_some, Option.any_none, Bool.not_false, Bool.and_true, Option.elim_none,
        Option.elim_some, Job.isRunning, decide_eq_true_eq]
      split
      . next hrunning =>
        rw [hrunning]
        exact Nat.le_add_left _ _
      . exact Nat.zero_le _

end exec

structure Moment (db : DB) (past : List DB) : Prop where
  edge : ∀ before earlier, past = before :: earlier → ∀ id job, before.jobs.get? id = some job →
    ∃ job', db.jobs.get? id = some job' ∧ job.Becomes job'
  budget : ∀ job ∈ db.jobs.rows, job.retryCount ≤ job.maxRetries
  spent : ∀ id, timesRunning id (db :: past) ≤ spent db id

structure Annals (db : DB) (history : List DB) : Prop where
  head : ∃ past, history = db :: past
  moment : ∀ db' past, db' :: past <:+ history → Moment db' past

theorem annals_init {db : DB} (hbudget : ∀ job ∈ db.jobs.rows, job.retryCount ≤ job.maxRetries)
    : Annals db [db] := by
  refine ⟨⟨[], rfl⟩, ?_⟩
  intro db' past hsuffix
  rw [List.suffix_cons_iff] at hsuffix
  rcases hsuffix with heq | hnil
  . injection heq with heq hpast
    subst heq hpast
    exact ⟨nofun, hbudget, fun _ => Nat.zero_le _⟩
  . have := List.eq_nil_of_suffix_nil hnil
    contradiction

theorem Annals.exec {db : DB} {history : List DB} {n : Nat} (h : Annals db history) {c : Call}
    {env : Env} (hlawful : lawful n db c)
    : Annals (c.exec env db).2 ((c.exec env db).2 :: history) := by
  refine ⟨⟨history, rfl⟩, ?_⟩
  intro db' past hsuffix
  rw [List.suffix_cons_iff] at hsuffix
  rcases hsuffix with heq | hsuffix
  . injection heq with heq hpast
    subst heq hpast
    obtain ⟨earlier, rfl⟩ := h.head
    have hmoment := h.moment db earlier (List.suffix_refl _)
    refine ⟨?_, budget_of_exec env hlawful hmoment.budget, ?_⟩
    . intro before earlier' heq id job hjob
      injection heq with heq
      subst heq
      exact becomes_of_exec env hlawful hjob
    . intro id
      have hspent := hmoment.spent id
      have hexec := spent_of_exec env hlawful id
      have htimes : timesRunning id ((c.exec env db).2 :: db :: earlier)
          = (if entersRunning id db (c.exec env db).2 then 1 else 0)
            + timesRunning id (db :: earlier) := rfl
      omega
  . exact h.moment db' past hsuffix

theorem Execution.Tracks.persists {db db' : DB} {execution : Execution} (h : execution.Tracks db)
    (hvalid : execution.Valid db) (hpersists : Persists db.nextId db db') : execution.Tracks db' := by
  refine ⟨h.status, ?_⟩
  intro lease' job' hlease' hjob'
  have ⟨lease, hlease, _, hjobId, hjobs⟩ := hpersists _ lease' hlease' hvalid.leaseId
  have ⟨_, hleaseJob⟩ := hvalid.lease lease hlease
  have ⟨job, hjob, _⟩ := hvalid.job
  rw [← hjobId, hleaseJob] at hjobs
  have ⟨job'', hjob'', hendures⟩ := hjobs job hjob
  have := hjob'.symm.trans hjob''
  injection this with this
  rw [this]
  exact (h.attempt lease job hlease hjob).trans hendures

structure Chronicle (c : Cluster) (history : List DB) : Prop where
  annals : Annals c.db history
  tracks : ∀ execution ∈ c.executions, execution.Tracks c.db

theorem Chronicle.traces {α : Type} {p : Service α} {c : Cluster} {past l : List DB} {db : DB}
    {r : Except Err α} {Q : Except Err α → DB → Prop} (h : Chronicle c past) (hc : c.Ordered)
    (htraces : Traces postgres anyClock p c.db r db l)
    (hwp : wp postgres anyClock (lawful c.db.nextId) p Q c.db)
    : Chronicle { c with db := db } (l ++ past) := by
  have hstep : ∀ db l c' env, Annals db l ∧ Persists c.db.nextId c.db db → lawful c.db.nextId db c' →
      anyClock env → Annals (c'.exec env db).2 ((c'.exec env db).2 :: l)
        ∧ Persists c.db.nextId c.db (c'.exec env db).2 := by
    intro db l c' env ⟨hannals, hpersists⟩ hlawful _
    exact ⟨hannals.exec hlawful, hpersists.exec env hlawful⟩
  have ⟨hannals, hpersists⟩ := htraces.invariant hstep hwp ⟨h.annals, .refl _ c.db⟩
  refine ⟨hannals, ?_⟩
  intro execution hexecution
  exact (h.tracks execution hexecution).persists (hc.executions execution hexecution) hpersists

theorem Chronicle.cons {c : Cluster} {history : List DB} (h : Chronicle c history)
    {execution : Execution} (htracks : execution.Tracks c.db)
    : Chronicle { c with executions := execution :: c.executions } history := by
  refine ⟨h.annals, ?_⟩
  intro other hother
  cases List.mem_cons.mp hother with
  | inl heq =>
    rw [heq]
    exact htracks
  | inr hother => exact h.tracks other hother

theorem Chronicle.erase {c : Cluster} {history : List DB} (h : Chronicle c history)
    (execution : Execution)
    : Chronicle { c with executions := c.executions.erase execution } history := by
  refine ⟨h.annals, ?_⟩
  intro other hother
  exact h.tracks other (List.mem_of_mem_erase hother)

theorem Recorded.chronicle {c : Cluster} {history : List DB} (h : Recorded c history)
    : Chronicle c history := by
  induction h with
  | init _ hbudget =>
    refine ⟨annals_init hbudget, ?_⟩
    intro execution hexecution
    contradiction
  | service call hc htraces ih =>
    have hordered := hc.reachable.ordered
    exact ih.traces hordered htraces (call.wp_run hordered.inv (fun _ => Nat.le_refl _))
  | begin workerId hc htraces ih =>
    have hordered := hc.reachable.ordered
    have ⟨_, htracks⟩ :=
      htraces.runs.of_wp (WorkerExecutionLoop.wp_begin (n := 0) hordered.inv workerId)
    have hkept := ih.traces hordered htraces (WorkerExecutionLoop.wp_begin hordered.inv workerId)
    exact hkept.cons (htracks _ rfl).right
  | beginNothing workerId hc htraces _ ih =>
    have hordered := hc.reachable.ordered
    exact ih.traces hordered htraces (WorkerExecutionLoop.wp_begin hordered.inv workerId)
  | @keepLeaseAlive _ _ execution _ _ _ hc hexecution htraces ih =>
    have hordered := hc.reachable.ordered
    have hvalid := hordered.executions execution hexecution
    have ⟨_, hnext⟩ :=
      htraces.runs.of_wp (WorkerExecutionLoop.wp_keepLeaseAlive (n := 0) hordered.inv hvalid)
    have htracks := (hnext _ rfl).right (ih.tracks execution hexecution)
    have hkept := ih.traces hordered htraces
      (WorkerExecutionLoop.wp_keepLeaseAlive hordered.inv hvalid)
    exact (hkept.erase execution).cons htracks
  | @keepLeaseAliveError _ _ execution _ _ _ hc hexecution htraces ih =>
    have hordered := hc.reachable.ordered
    exact ih.traces hordered htraces (WorkerExecutionLoop.wp_keepLeaseAlive hordered.inv
      (hordered.executions execution hexecution))
  | @finish _ _ execution result _ _ _ hc hexecution htraces ih =>
    have hordered := hc.reachable.ordered
    have hvalid := hordered.executions execution hexecution
    have htracks := ih.tracks execution hexecution
    have hkept := ih.traces hordered htraces (WorkerExecutionLoop.wp_finish hordered.inv hvalid
      result (fun _ _ _ _ _ => WorkerExecutionLoop.lawful_outcome hvalid htracks))
    exact hkept.erase execution

theorem spent_le {db : DB} {id : JobId} {job : Job} (hjob : db.jobs.get? id = some job)
    : spent db id ≤ job.retryCount + 1 := by
  unfold spent
  rw [hjob, Option.elim_some]
  apply Nat.add_le_add_left
  cases job.status <;> decide

theorem Recorded.lifecycle {c : Cluster} {history : List DB} (h : Recorded c history) {db : DB}
    {past : List DB} (hmoment : db :: past <:+ history)
    : (∀ before earlier, past = before :: earlier →
        ∀ id job, before.jobs.get? id = some job →
          ∃ job', db.jobs.get? id = some job'
            ∧ (job'.status = job.status ∨ job'.status ∈ job.status.allowedTransitions)
            ∧ job.retryCount ≤ job'.retryCount)
        ∧ (∀ id job, db.jobs.get? id = some job →
          job.retryCount ≤ job.maxRetries
            ∧ timesRunning id (db :: past) ≤ job.retryCount + 1
            ∧ timesRunning id (db :: past) ≤ job.maxRetries + 1) := by
  have hlaws := h.chronicle.annals.moment db past hmoment
  refine ⟨?_, ?_⟩
  . intro before earlier hpast id job hjob
    have ⟨job', hjob', hbecomes⟩ := hlaws.edge before earlier hpast id job hjob
    exact ⟨job', hjob', hbecomes.edge, hbecomes.retryCount⟩
  . intro id job hjob
    have hbudget := hlaws.budget job (Table.mem_of_get? hjob)
    have hspent := hlaws.spent id
    have hle := spent_le hjob
    refine ⟨hbudget, ?_, ?_⟩ <;> omega

def replayed (calls : List (Env × ServiceCall)) (db : DB) (past : List DB) : List DB :=
  match calls with
  | [] => past
  | (env, request) :: calls =>
    replayed calls (eval postgres env request.run db).2 (trace postgres env request.run db ++ past)

theorem recorded_replay (calls : List (Env × ServiceCall)) {db : DB} {past : List DB}
    (h : Recorded ⟨db, []⟩ past) : Recorded ⟨replay calls db, []⟩ (replayed calls db past) := by
  induction calls generalizing db past with
  | nil => exact h
  | cons entry calls ih =>
    have ⟨env, request⟩ := entry
    exact ih (.service request h (traces_eval trivial _ _))

theorem Recorded.lifecycle_oneRunningJob
    : ∃ past, replayed oneRunningJob DB.empty [DB.empty] = replay oneRunningJob DB.empty :: past
        ∧ timesRunning ⟨1⟩ (replay oneRunningJob DB.empty :: past) = 1
        ∧ ∀ id job, (replay oneRunningJob DB.empty).jobs.get? id = some job →
          job.retryCount ≤ job.maxRetries
            ∧ timesRunning id (replay oneRunningJob DB.empty :: past) ≤ job.retryCount + 1
            ∧ timesRunning id (replay oneRunningJob DB.empty :: past) ≤ job.maxRetries + 1 := by
  have hinit : Recorded ⟨DB.empty, []⟩ [DB.empty] := by
    apply Recorded.init pristine_empty
    intro job hjob
    contradiction
  have hrecorded := recorded_replay oneRunningJob hinit
  have ⟨past, hpast⟩ := hrecorded.chronicle.annals.head
  refine ⟨past, hpast, ?_, ?_⟩
  . rw [← hpast]
    decide +kernel
  . have hmoment := List.suffix_refl (replayed oneRunningJob DB.empty [DB.empty])
    nth_rewrite 1 [hpast] at hmoment
    exact (hrecorded.lifecycle hmoment).right

end AetherGrid
