import AetherGrid.Cluster.System
import AetherGrid.Store.Lawful

/-!
This module contains the requests of agents as messages.
-/

namespace AetherGrid

open Prog

def noCall : DB → ServiceCall → Prop :=
  fun _ _ => False

theorem ServiceCall.mem_leases {c : Cluster} (hc : c.Ordered) (call : ServiceCall)
    {r : Except Err Unit} {db : DB} (hruns : Runs postgres anyClock call.run c.db r db)
    {lease' : Lease} (hlease' : lease' ∈ db.leases.rows)
    : (∃ lease ∈ c.db.leases.rows,
        lease.id = lease'.id ∧ lease.workerId = lease'.workerId ∧ lease.jobId = lease'.jobId)
        ∨ call = .schedulerTick
          ∧ ∃ job, c.db.jobs.get? lease'.jobId = some job ∧ job.status = .queued := by
  by_cases htick : call = .schedulerTick
  . subst htick
    have ⟨_, _, hgrants⟩ := hruns.of_wp (SchedulerLoop.wp_execute (G := lawful 0) hc.inv (fun _ _ _ => Nat.zero_le _))
    cases hgrants lease' hlease' with
    | inl hmem => exact .inl ⟨lease', hmem, rfl, rfl, rfl⟩
    | inr hqueued => exact .inr ⟨rfl, hqueued⟩
  . have hwp := wp_grantsNothing (H := anyClock)
      (fun n => call.wp_run (n := n) hc.inv (fun heq => absurd heq htick))
    exact .inl (mem_leases_of_runs hruns hwp lease' hlease')

theorem Step.mem_leases {P : DB → ServiceCall → Prop} {c c' : Cluster} (h : Step P c c')
    (hc : c.Ordered) {lease' : Lease} (hlease' : lease' ∈ c'.db.leases.rows)
    : (∃ lease ∈ c.db.leases.rows,
        lease.id = lease'.id ∧ lease.workerId = lease'.workerId ∧ lease.jobId = lease'.jobId)
        ∨ P c.db .schedulerTick
          ∧ ∃ job, c.db.jobs.get? lease'.jobId = some job ∧ job.status = .queued := by
  cases h with
  | service call hcall hruns =>
    rcases call.mem_leases hc hruns hlease' with hold | ⟨rfl, hqueued⟩
    . exact .inl hold
    . exact .inr ⟨hcall, hqueued⟩
  | begin workerId hruns =>
    have hwp := wp_grantsNothing (H := anyClock)
      (fun n => WorkerExecutionLoop.wp_begin (n := n) hc.inv workerId)
    exact .inl (mem_leases_of_runs hruns hwp lease' hlease')
  | beginNothing workerId hruns _ =>
    have hwp := wp_grantsNothing (H := anyClock)
      (fun n => WorkerExecutionLoop.wp_begin (n := n) hc.inv workerId)
    exact .inl (mem_leases_of_runs hruns hwp lease' hlease')
  | @keepLeaseAlive execution _ _ hexecution hruns =>
    have hwp := wp_grantsNothing (H := anyClock) (fun n =>
      WorkerExecutionLoop.wp_keepLeaseAlive (n := n) hc.inv (hc.executions execution hexecution))
    exact .inl (mem_leases_of_runs hruns hwp lease' hlease')
  | @keepLeaseAliveError execution _ _ hexecution hruns =>
    have hwp := wp_grantsNothing (H := anyClock) (fun n =>
      WorkerExecutionLoop.wp_keepLeaseAlive (n := n) hc.inv (hc.executions execution hexecution))
    exact .inl (mem_leases_of_runs hruns hwp lease' hlease')
  | @finish execution result _ _ hexecution hruns =>
    have hwp := WorkerExecutionLoop.wp_finish (H := anyClock) (G := grantsNothing) hc.inv
      (hc.executions execution hexecution) result (fun _ _ _ _ _ _ _ _ _ _ => rfl)
    exact .inl (mem_leases_of_runs hruns hwp lease' hlease')

section reports

structure Served where
  call : ServiceCall
  before : DB
  result : Except Err Unit
  after : DB

/--
The runs of a cluster together with the calls it has served, the latest one first.
-/
inductive Serves : Cluster → List Served → Prop where
  | init {db : DB} (hdb : Pristine db) : Serves ⟨db, []⟩ []
  | service {c : Cluster} {log : List Served} (call : ServiceCall) {r : Except Err Unit} {db : DB}
    (hc : Serves c log) (hruns : Runs postgres anyClock call.run c.db r db)
    : Serves { c with db := db } (⟨call, c.db, r, db⟩ :: log)
  | execution {c c' : Cluster} {log : List Served} (hc : Serves c log) (hstep : Step noCall c c')
    : Serves c' log

theorem Serves.ordered {c : Cluster} {log : List Served} (h : Serves c log) : c.Ordered := by
  induction h with
  | init hdb => exact (Reachable.init (P := anyCall) hdb).ordered
  | service call _ hruns ih => exact (Step.ordered (P := anyCall) (.service call trivial hruns) ih).left
  | execution _ hstep ih => exact (hstep.ordered ih).left

def ServiceCall.reportedLease (call : ServiceCall) : Option LeaseId :=
  match call with
  | .report _ _ _ _ lease _ => some lease
  | _ => none

def Served.Refused (entry : Served) : Prop :=
  (∃ e, entry.result = .error e) ∧ entry.after = entry.before

def Served.Settles (entry : Served) (leaseId : LeaseId) : Prop :=
  ∃ lease, entry.before.leases.get? leaseId = some lease
    ∧ (∃ outcome tenant exitCode,
      entry.call = .report outcome lease.workerId lease.jobId tenant leaseId exitCode)
    ∧ ∀ id ≠ lease.jobId, entry.after.jobs.get? id = entry.before.jobs.get? id

theorem report_cases {db db' : DB} (hinv : Inv db) {call : ServiceCall} {leaseId : LeaseId}
    (hcall : call.reportedLease = some leaseId) {r : Except Err Unit}
    (hruns : Runs postgres anyClock call.run db r db')
    : Served.Refused ⟨call, db, r, db'⟩
        ∨ Served.Settles ⟨call, db, r, db'⟩ leaseId ∧ db'.leases.get? leaseId = none := by
  cases call with
  | report outcome workerId jobId tenant lease exitCode =>
    injection hcall with hcall
    subst hcall
    have hwp : wp postgres anyClock (lawful 0)
        (ServiceCall.report outcome workerId jobId tenant lease exitCode).run
        (fun r db' => ((∃ e, r = .error e) ∧ db' = db)
          ∨ ∃ lease', db.leases.get? lease = some lease'
            ∧ lease'.workerId = workerId
            ∧ lease'.jobId = jobId
            ∧ db'.leases.get? lease = none
            ∧ ∀ id ≠ jobId, db'.jobs.get? id = db.jobs.get? id) db := by
      have hrun : (ServiceCall.report outcome workerId jobId tenant lease exitCode).run
          = (fun _ => ()) <$> ReportJobOutcome.report outcome workerId jobId tenant lease exitCode := rfl
      rw [hrun, wp_map]
      apply wp_mono (ReportJobOutcome.wp_report hinv outcome workerId jobId tenant lease exitCode)
      intro r db' ⟨_, hreported⟩
      cases hreported with
      | refused e => exact .inl ⟨⟨e, rfl⟩, rfl⟩
      | taken hlease hworker hjob hgone hjobs => exact .inr ⟨_, hlease, hworker, hjob, hgone, hjobs⟩
    rcases hruns.of_wp hwp with hrefused | ⟨lease', hlease, hworker, hjob, hgone, hjobs⟩
    . exact .inl hrefused
    . subst hworker hjob
      exact .inr ⟨⟨lease', hlease, ⟨outcome, tenant, exitCode, rfl⟩, hjobs⟩, hgone⟩
  | _ => contradiction

def UsedUp (db : DB) (leaseId : LeaseId) : Prop :=
  leaseId.value < db.nextId ∧ db.leases.get? leaseId = none

theorem UsedUp.keeps {db db' : DB} {leaseId : LeaseId} (h : UsedUp db leaseId) (hkeeps : Keeps db db')
    : UsedUp db' leaseId := by
  refine ⟨Nat.lt_of_lt_of_le h.left hkeeps.nextId, ?_⟩
  cases hget : db'.leases.get? leaseId with
  | none => rfl
  | some lease' =>
    have ⟨lease, hlease, _⟩ := hkeeps.lease leaseId lease' hget h.left
    have := h.right.symm.trans hlease
    contradiction

theorem Serves.usedUp {c : Cluster} {log : List Served} (h : Serves c log) (leaseId : LeaseId)
    : ∀ entry ∈ log, entry.call.reportedLease = some leaseId →
        entry.Refused ∨ entry.Settles leaseId ∧ UsedUp c.db leaseId := by
  induction h with
  | init _ =>
    intro entry hentry
    contradiction
  | @service c log call r db hc hruns ih =>
    have hstep : Step anyCall c { c with db := db } := .service call trivial hruns
    have hkeeps := (hstep.ordered hc.ordered).right.left
    intro entry hentry hcall
    cases List.mem_cons.mp hentry with
    | inl heq =>
      subst heq
      rcases report_cases hc.ordered.inv hcall hruns with hrefused | ⟨hsettles, hgone⟩
      . exact .inl hrefused
      . have ⟨lease, hlease, _⟩ := hsettles
        have hfresh := hc.ordered.inv.freshLease lease (Table.mem_of_get? hlease)
        rw [Table.key_of_get? hlease] at hfresh
        exact .inr ⟨hsettles, Nat.lt_of_lt_of_le hfresh hkeeps.nextId, hgone⟩
    | inr hentry =>
      rcases ih entry hentry hcall with hrefused | ⟨hsettles, husedUp⟩
      . exact .inl hrefused
      . exact .inr ⟨hsettles, husedUp.keeps hkeeps⟩
  | execution hc hstep ih =>
    have hkeeps := (hstep.ordered hc.ordered).right.left
    intro entry hentry hcall
    rcases ih entry hentry hcall with hrefused | ⟨hsettles, husedUp⟩
    . exact .inl hrefused
    . exact .inr ⟨hsettles, husedUp.keeps hkeeps⟩

theorem Serves.reported_once {c : Cluster} {log : List Served} (h : Serves c log) (leaseId : LeaseId)
    : (∀ entry ∈ log, entry.call.reportedLease = some leaseId →
        entry.Refused ∨ entry.Settles leaseId)
        ∧ log.Pairwise (fun later earlier =>
          later.call.reportedLease = some leaseId → earlier.call.reportedLease = some leaseId →
            later.Refused ∨ earlier.Refused) := by
  refine ⟨?_, ?_⟩
  . intro entry hentry hcall
    exact (h.usedUp leaseId entry hentry hcall).imp_right And.left
  . induction h with
    | init _ => exact .nil
    | @service c log call r db hc hruns ih =>
      refine List.pairwise_cons.mpr ⟨?_, ih⟩
      intro earlier hearlier hcall hcall'
      rcases hc.usedUp leaseId earlier hearlier hcall' with hrefused | ⟨_, husedUp⟩
      . exact .inr hrefused
      . rcases report_cases hc.ordered.inv hcall hruns with hrefused | ⟨⟨lease, hlease, _⟩, _⟩
        . exact .inl hrefused
        . have := husedUp.right.symm.trans hlease
          contradiction
    | execution _ _ ih => exact ih

def served (calls : List (Env × ServiceCall)) (db : DB) (log : List Served) : List Served :=
  match calls with
  | [] => log
  | (env, request) :: calls =>
    let (r, db') := eval postgres env request.run db
    served calls db' (⟨request, db, r, db'⟩ :: log)

theorem serves_replay (calls : List (Env × ServiceCall)) {db : DB} {log : List Served}
    (h : Serves ⟨db, []⟩ log) : Serves ⟨replay calls db, []⟩ (served calls db log) := by
  induction calls generalizing db log with
  | nil => exact h
  | cons entry calls ih =>
    have ⟨env, request⟩ := entry
    exact ih (.service request h (runs_eval trivial _ _))

def reportedTwice : List (Env × ServiceCall) :=
  oneRunningJob
    ++ [({ now := 0 }, .report .complete ⟨3⟩ ⟨1⟩ ⟨0⟩ ⟨5⟩ (some 0)),
      ({ now := 0 }, .report .complete ⟨3⟩ ⟨1⟩ ⟨0⟩ ⟨5⟩ (some 0))]

theorem Serves.reported_once_reportedTwice
    : (((served reportedTwice DB.empty []).filter
          (fun entry => entry.call.reportedLease = some ⟨5⟩)).map (·.result.isOk)) = [false, true]
        ∧ (served reportedTwice DB.empty []).Pairwise (fun later earlier =>
          later.call.reportedLease = some ⟨5⟩ → earlier.call.reportedLease = some ⟨5⟩ →
            later.Refused ∨ earlier.Refused) :=
  ⟨by decide +kernel, ((serves_replay reportedTwice (.init pristine_empty)).reported_once ⟨5⟩).right⟩

end reports

section starts

/--
A start request on its way to the server.
-/
structure Start where
  worker : WorkerId
  job : JobId
  tenant : TenantId
  lease : Option LeaseId
  deriving DecidableEq

structure Network where
  cluster : Cluster
  starts : List Start := []

def ServiceCall.isStart (call : ServiceCall) : Bool :=
  match call with
  | .startJob _ _ _ => true
  | _ => false

/--
One step of a server and of the agents that talk to it.
-/
inductive Exchange (P : Network → ServiceCall → Prop) (net : Network) : Network → Prop where
  | server {c : Cluster}
    (hstep : Step (fun _ call => call.isStart = false ∧ P net call) net.cluster c)
    : Exchange P net { net with cluster := c }
  | poll (workerId : WorkerId) (tenantId : TenantId) {job : Job} {lease : Option Lease} {db : DB}
    (hruns : Runs postgres anyClock (pollWorker workerId tenantId) net.cluster.db
      (.ok (some (job, lease))) db)
    : Exchange P net
      ⟨{ net.cluster with db := db },
        ⟨workerId, job.id, tenantId, lease.map (·.id)⟩ :: net.starts⟩
  | deliver {start : Start} (hstart : start ∈ net.starts) {r : Except Err Worker} {db : DB}
    (hruns : Runs postgres anyClock (startJob start.worker start.job start.tenant) net.cluster.db r db)
    : Exchange P net { net with cluster := { net.cluster with db := db } }
  | lose (start : Start) : Exchange P net { net with starts := net.starts.erase start }

inductive Exchanged (P : Network → ServiceCall → Prop) : Network → Prop where
  | init {db : DB} (hdb : Pristine db) : Exchanged P ⟨⟨db, []⟩, []⟩
  | step {net net' : Network} (h : Exchanged P net) (hstep : Exchange P net net') : Exchanged P net'

def ServiceCall.isTick (call : ServiceCall) : Bool :=
  match call with
  | .schedulerTick => true
  | _ => false

def ticksWhenQuiet (net : Network) (call : ServiceCall) : Prop :=
  call.isTick → ∀ start ∈ net.starts, ∀ job ∈ net.cluster.db.jobs.get? start.job,
    job.status ≠ .queued

instance (net : Network) (call : ServiceCall) : Decidable (ticksWhenQuiet net call) :=
  inferInstanceAs (Decidable (call.isTick → ∀ start ∈ net.starts,
    ∀ job ∈ net.cluster.db.jobs.get? start.job, job.status ≠ .queued))

structure Network.InStep (net : Network) : Prop where
  ordered : net.cluster.Ordered
  starts : ∀ start ∈ net.starts, ∀ lease ∈ net.cluster.db.leases.rows,
    lease.workerId = start.worker → lease.jobId = start.job → start.lease = some lease.id

theorem getByWorkerId_of_mem {db : DB} (hschema : Schema db) {held : Lease}
    (hheld : held ∈ db.leases.rows)
    : PostgresLeaseRepository.getByWorkerId db held.workerId held.tenantId = some held := by
  cases hget : PostgresLeaseRepository.getByWorkerId db held.workerId held.tenantId with
  | none =>
    unfold PostgresLeaseRepository.getByWorkerId at hget
    rw [List.find?_eq_none] at hget
    have := hget held hheld
    simp at this
  | some lease =>
    have ⟨hlease, hworker, _⟩ := PostgresLeaseRepository.getByWorkerId_eq_some hget
    rw [hschema.uniqueWorker lease hlease held hheld hworker]

theorem wp_pollWorker {db : DB} (hinv : Inv db) (workerId : WorkerId) (tenantId : TenantId)
    : wp postgres anyClock (lawful 0) (pollWorker workerId tenantId)
        (fun r db' => db' = db
          ∧ ∀ job lease, r = .ok (some (job, lease)) →
            ∀ held ∈ db.leases.rows, held.workerId = workerId → lease = some held) db := by
  have hnothing : db = db ∧ ∀ (job : Job) (lease : Option Lease),
      (.ok none : Except Err (Option (Job × Option Lease))) = .ok (some (job, lease)) →
      ∀ held ∈ db.leases.rows, held.workerId = workerId → lease = some held := by
    refine ⟨rfl, ?_⟩
    intro job lease h
    injection h with h
    contradiction
  unfold pollWorker
  refine wp_perform_bind rfl ?_
  intro env _
  dsimp only [Call.exec]
  split
  . exact hnothing
  . next worker hworker =>
    have ⟨hcurrent, hid, htenant⟩ := PostgresWorkerRepository.getById_eq_some hinv.schema hworker
    split
    . exact hnothing
    . split
      . exact hnothing
      . refine wp_perform_bind rfl ?_
        intro env _
        refine ⟨rfl, ?_⟩
        intro job lease h held hheld hheldWorker
        injection h with h
        injection h with h
        injection h with _ h
        have ⟨row, hrow, hrowTenant⟩ := hinv.schema.worker_of_lease hheld
        rw [hheldWorker, ← hid, hcurrent.row] at hrow
        injection hrow with hrow
        have hheldTenant : held.tenantId = tenantId := by
          rw [← hrowTenant, ← hrow]
          exact htenant
        rw [← h, ← hheldWorker, ← hheldTenant]
        exact getByWorkerId_of_mem hinv.schema hheld

theorem Network.InStep.of_leases {net : Network} (h : net.InStep) {c : Cluster} (hc : c.Ordered)
    (hleases : ∀ lease' ∈ c.db.leases.rows,
      (∃ lease ∈ net.cluster.db.leases.rows,
        lease.id = lease'.id ∧ lease.workerId = lease'.workerId ∧ lease.jobId = lease'.jobId)
        ∨ ∀ start ∈ net.starts, start.job ≠ lease'.jobId)
    : Network.InStep { net with cluster := c } := by
  refine ⟨hc, ?_⟩
  intro start hstart lease' hlease' hworker' hjob'
  rcases hleases lease' hlease' with ⟨lease, hlease, hid, hworker, hjob⟩ | hnone
  . rw [h.starts start hstart lease hlease (hworker.trans hworker') (hjob.trans hjob'), hid]
  . exact absurd hjob'.symm (hnone start hstart)

theorem Exchange.inStep {net net' : Network} (h : Exchange ticksWhenQuiet net net') (hnet : net.InStep)
    : net'.InStep := by
  cases h with
  | server hstep =>
    apply hnet.of_leases (hstep.ordered hnet.ordered).left
    intro lease' hlease'
    rcases hstep.mem_leases hnet.ordered hlease' with hold | ⟨⟨_, hquiet⟩, job, hjob, hqueued⟩
    . exact .inl hold
    . refine .inr ?_
      intro start hstart heq
      rw [← heq] at hjob
      exact hquiet rfl start hstart job hjob hqueued
  | @poll workerId tenantId job lease db hruns =>
    have ⟨hdb, hseen⟩ := hruns.of_wp (wp_pollWorker hnet.ordered.inv workerId tenantId)
    subst hdb
    refine ⟨hnet.ordered, ?_⟩
    intro start hstart held hheld hworker hheldJob
    cases List.mem_cons.mp hstart with
    | inl heq =>
      subst heq
      rw [hseen job lease rfl held hheld hworker]
      rfl
    | inr hstart => exact hnet.starts start hstart held hheld hworker hheldJob
  | @deliver start hstart r db hruns =>
    have ⟨hgood, _⟩ := hruns.of_wp
      (wp_startJob (n := 0) hnet.ordered.inv start.worker start.job start.tenant)
    apply hnet.of_leases (hnet.ordered.keeps hgood.inv hgood.keeps)
    intro lease' hlease'
    have hwp := wp_grantsNothing (H := anyClock) (fun n =>
      wp_startJob (n := n) hnet.ordered.inv start.worker start.job start.tenant)
    exact .inl (mem_leases_of_runs hruns hwp lease' hlease')
  | lose start =>
    refine ⟨hnet.ordered, ?_⟩
    intro other hother
    exact hnet.starts other (List.mem_of_mem_erase hother)

theorem Exchanged.inStep {net : Network} (h : Exchanged ticksWhenQuiet net) : net.InStep := by
  induction h with
  | init hdb =>
    refine ⟨(Reachable.init (P := anyCall) hdb).ordered, ?_⟩
    intro start hstart
    contradiction
  | step _ hstep ih => exact hstep.inStep ih

theorem Exchanged.started_currentLease {net : Network} (h : Exchanged ticksWhenQuiet net)
    {start : Start} (hstart : start ∈ net.starts) {r : Except Err Worker} {db : DB}
    (hruns : Runs postgres anyClock (startJob start.worker start.job start.tenant) net.cluster.db r db)
    {job job' : Job} (hjob : net.cluster.db.jobs.get? start.job = some job)
    (hjob' : db.jobs.get? start.job = some job') (hbefore : job.status ≠ .running)
    (hafter : job'.status = .running)
    : ∃ lease ∈ net.cluster.db.leases.rows, lease.workerId = start.worker
        ∧ lease.jobId = start.job
        ∧ start.lease = some lease.id := by
  have hnet := h.inStep
  have ⟨_, hstarts⟩ := hruns.of_wp
    (wp_startJob (n := 0) hnet.ordered.inv start.worker start.job start.tenant)
  rcases hstarts with hsame | ⟨lease, hlease, hworker, hleaseJob⟩
  . rw [hsame, hjob] at hjob'
    injection hjob' with hjob'
    rw [hjob'] at hbefore
    contradiction
  . exact ⟨lease, hlease, hworker, hleaseJob, hnet.starts start hstart lease hlease hworker hleaseJob⟩

inductive Happening where
  | server (request : ServiceCall)
  | poll (worker : WorkerId) (tenant : TenantId)
  | deliver (start : Start)

section play

variable {P : Network → ServiceCall → Prop} [∀ net call, Decidable (P net call)]

def Network.next (P : Network → ServiceCall → Prop) [∀ net call, Decidable (P net call)] (env : Env)
    (event : Happening) (net : Network) : Option Network :=
  match event with
  | .server request =>
    if request.isStart = false ∧ P net request then
      some { net with cluster := { net.cluster with
        db := (eval postgres env request.run net.cluster.db).2 } }
    else
      none
  | .poll worker tenant =>
    match eval postgres env (pollWorker worker tenant) net.cluster.db with
    | (.ok (some (job, lease)), db) =>
      some ⟨{ net.cluster with db := db }, ⟨worker, job.id, tenant, lease.map (·.id)⟩ :: net.starts⟩
    | _ => none
  | .deliver start =>
    if start ∈ net.starts then
      some { net with cluster := { net.cluster with
        db := (eval postgres env (startJob start.worker start.job start.tenant) net.cluster.db).2 } }
    else
      none

def Network.play (P : Network → ServiceCall → Prop) [∀ net call, Decidable (P net call)]
    (events : List (Env × Happening)) (net : Network) : Option Network :=
  match events with
  | [] => some net
  | (env, event) :: events => (net.next P env event).bind (play P events)

theorem exchange_of_next {env : Env} {event : Happening} {net net' : Network}
    (h : net.next P env event = some net') : Exchange P net net' := by
  cases event with
  | server request =>
    simp only [Network.next, Option.ite_none_right_eq_some] at h
    have ⟨hcall, h⟩ := h
    injection h with h
    rw [← h]
    exact .server (.service request hcall (runs_eval trivial _ _))
  | poll worker tenant =>
    unfold Network.next at h
    dsimp only at h
    split at h
    . next job lease db heval =>
      injection h with h
      rw [← h]
      have hruns := runs_eval (M := postgres) (H := anyClock) (x := env) trivial
        (pollWorker worker tenant) net.cluster.db
      rw [heval] at hruns
      exact .poll worker tenant hruns
    . contradiction
  | deliver start =>
    simp only [Network.next, Option.ite_none_right_eq_some] at h
    have ⟨hstart, h⟩ := h
    injection h with h
    rw [← h]
    exact .deliver hstart (runs_eval trivial _ _)

theorem exists_exchanged_of_play (events : List (Env × Happening)) {net : Network} (h : Exchanged P net)
    (p : Network → Prop) [DecidablePred p] (hplay : (net.play P events).any (fun net' => p net'))
    : ∃ net', Exchanged P net' ∧ p net' := by
  induction events generalizing net with
  | nil => exact ⟨net, h, of_decide_eq_true hplay⟩
  | cons entry events ih =>
    have ⟨env, event⟩ := entry
    unfold Network.play at hplay
    cases hnext : net.next P env event with
    | none =>
      rw [hnext] at hplay
      contradiction
    | some net1 =>
      rw [hnext] at hplay
      exact ih (h.step (exchange_of_next hnext)) hplay

end play

def retryableJob : DB :=
  { DB.empty with
    jobs := DB.empty.jobs.upsert
      { id := ⟨0⟩
        resources := ⟨1, 1, 0⟩
        tenantId := ⟨0⟩
        maxRetries := 1
        status := .queued
        submittedAt := 0
        hcpu := Nat.one_pos
        hmemory := Nat.one_pos }
    nextId := 1 }

theorem pristine_retryableJob : Pristine retryableJob := by
  refine ⟨by decide, rfl, ?_, ?_, ?_, ?_, ?_, ?_, ?_⟩
  all_goals decide

def startSent : List (Env × Happening) :=
  [({ now := 0 }, .server (.createNode ⟨4, 4096, 0⟩ ⟨0⟩ none)),
    ({ now := 0 }, .server (.postWorkers ⟨1⟩ ⟨0⟩ .agent)),
    ({ now := 0 }, .server .schedulerTick),
    ({ now := 0 }, .poll ⟨2⟩ ⟨0⟩)]

def sentStart : Start :=
  ⟨⟨2⟩, ⟨0⟩, ⟨0⟩, some ⟨4⟩⟩

def reassigned : List (Env × Happening) :=
  startSent
    ++ [({ now := seconds 100 }, .server .recoverExpiredLeases),
      ({ now := seconds 100 }, .server (.heartbeatNode ⟨1⟩ ⟨0⟩)),
      ({ now := seconds 100 }, .server .schedulerTick)]

def anyExchange : Network → ServiceCall → Prop :=
  fun _ _ => True

instance (net : Network) (call : ServiceCall) : Decidable (anyExchange net call) :=
  inferInstanceAs (Decidable True)

theorem Exchanged.started_reassigned
    : ∃ net, Exchanged anyExchange net
        ∧ sentStart ∈ net.starts
        ∧ ∃ r db, Runs postgres anyClock (startJob sentStart.worker sentStart.job sentStart.tenant)
            net.cluster.db r db
          ∧ (net.cluster.db.jobs.get? sentStart.job).map (·.status) = some .scheduled
          ∧ (db.jobs.get? sentStart.job).map (·.status) = some .running
          ∧ net.cluster.db.leases.rows ≠ []
          ∧ ∀ lease ∈ net.cluster.db.leases.rows, sentStart.lease ≠ some lease.id := by
  have ⟨net, hnet, hstart, hbefore, hafter, hsome, hleases⟩ := exists_exchanged_of_play reassigned
    (Exchanged.init (P := anyExchange) pristine_retryableJob)
    (fun net => sentStart ∈ net.starts
      ∧ (net.cluster.db.jobs.get? sentStart.job).map (·.status) = some .scheduled
      ∧ ((eval postgres { now := seconds 100 }
            (startJob sentStart.worker sentStart.job sentStart.tenant) net.cluster.db).2.jobs.get?
          sentStart.job).map (·.status) = some .running
      ∧ net.cluster.db.leases.rows ≠ []
      ∧ ∀ lease ∈ net.cluster.db.leases.rows, sentStart.lease ≠ some lease.id)
    (by decide +kernel)
  exact ⟨net, hnet, hstart, _, _, runs_eval trivial _ _, hbefore, hafter, hsome, hleases⟩

theorem Exchanged.started_currentLease_startSent
    : ∃ net, Exchanged ticksWhenQuiet net
        ∧ ∃ lease ∈ net.cluster.db.leases.rows, lease.workerId = sentStart.worker
          ∧ lease.jobId = sentStart.job
          ∧ sentStart.lease = some lease.id := by
  have ⟨net, hnet, hstart, hbefore, hafter⟩ := exists_exchanged_of_play startSent
    (Exchanged.init (P := ticksWhenQuiet) pristine_retryableJob)
    (fun net => sentStart ∈ net.starts
      ∧ (net.cluster.db.jobs.get? sentStart.job).map (·.status) = some .scheduled
      ∧ ((eval postgres { now := 0 }
            (startJob sentStart.worker sentStart.job sentStart.tenant) net.cluster.db).2.jobs.get?
          sentStart.job).map (·.status) = some .running)
    (by decide +kernel)
  have ⟨job, hjob, hscheduled⟩ := Option.map_eq_some_iff.mp hbefore
  have ⟨job', hjob', hrunning⟩ := Option.map_eq_some_iff.mp hafter
  refine ⟨net, hnet, hnet.started_currentLease hstart (runs_eval trivial _ _) hjob hjob' ?_ hrunning⟩
  rw [hscheduled]
  exact nofun

end starts

end AetherGrid
