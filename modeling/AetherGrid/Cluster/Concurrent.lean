import AetherGrid.Cluster.System
import AetherGrid.Prog.Pool

/-!
This module contains requests that are served at the same time.
-/

namespace AetherGrid

open Prog

inductive Request where
  | service (served : ServiceCall)
  | releaseLease (worker : WorkerId) (lease : LeaseId) (tenant : TenantId)
  | execution (worker : WorkerId) (renewals : Nat) (result : JobExecutionResult)

def Request.run (request : Request) : Service Unit :=
  match request with
  | .service served => served.run
  | .releaseLease worker lease tenant => AetherGrid.releaseLease worker lease tenant
  | .execution worker renewals result => WorkerExecutionLoop.execute worker renewals result

def isTick (request : Request) : Bool :=
  match request with
  | .service .schedulerTick => true
  | _ => false

section

variable {σ ν ι : Type}

def pending (requests : ι → Request) (state : σ) (blank : ν) : Pool signature Err Unit σ ν ι where
  state := state
  threads := fun i => (requests i).run
  notes := fun _ => blank

def anyTime : σ → (ι → ν) → ι → Call → Prop :=
  fun _ _ _ _ => True

instance (s : σ) (notes : ι → ν) (i : ι) (c : Call) : Decidable (anyTime s notes i c) :=
  inferInstanceAs (Decidable True)

end

section view

variable {σ ν : Type} {W : Watched signature σ Env ν} {H : σ × Env → Prop} {G : ν → Call → Prop} {n : ν}

theorem wp_discardView {α : Type} {p : Service α} {Q : Except Err Unit → ν → Prop}
    : wp W.view H G (discard p) Q n ↔ wp W.view H G p (fun r n' => Q (r.map (fun _ => ())) n') n := by
  have hdiscard : discard p = (fun _ => ()) <$> p := rfl
  rw [hdiscard, wp_map]

theorem view_save {α : Type} {c : Call} {k : c.Res → Service Unit} {f : Unit → Service α}
    {Q : Except Err α → ν → Prop} (hguard : G n c) (hnote : ∀ s env, W.note c env s n = n)
    (h : ∀ r, wp W.view H G (k r >>= f) Q n)
    : wp W.view H G ((.call (S := signature) c k : Service Unit) >>= f) Q n := by
  refine ⟨hguard, ?_⟩
  intro x _
  have hview : (W.view.exec c x n).2 = n := hnote x.1 x.2
  rw [hview]
  exact h _

theorem view_getOwningWorker {workerId : WorkerId} {jobId : JobId} {tenantId : TenantId}
    {Q : Except Err (Worker × Job) → ν → Prop} (hguard : G n (.getWorker workerId tenantId))
    (herror : ∀ s env e, Q (.error e) (W.note (.getWorker workerId tenantId) env s n))
    (hok : ∀ s env, H (s, env) → ∀ worker job, worker.runningJob = some job → job.id = jobId →
      (W.exec (.getWorker workerId tenantId) env s).1 = some worker →
      Q (.ok (worker, job)) (W.note (.getWorker workerId tenantId) env s n))
    : wp W.view H G (getOwningWorker workerId jobId tenantId) Q n := by
  unfold getOwningWorker
  apply Watched.wp_view_perform_bind hguard
  intro s env hmet answer n' hanswer hn'
  subst hn'
  cases answer with
  | none => exact herror s env _
  | some worker =>
    dsimp only
    split
    . exact herror s env _
    . cases hrunning : worker.runningJob with
      | none => exact herror s env _
      | some job =>
        dsimp only
        split
        . exact herror s env _
        . next hid => exact hok s env hmet worker job hrunning (not_not.mp hid) hanswer

theorem view_report {outcome : ReportJobOutcome.Outcome} {workerId : WorkerId} {jobId : JobId}
    {tenantId : TenantId} {leaseId : LeaseId} {exitCode : Option Int}
    {Q : Except Err Worker → ν → Prop} (hguard : G n (.getWorker workerId tenantId))
    (hclock : ∀ n, G n .utcNow) (hnote : ∀ n s env, W.note .utcNow env s n = n)
    (herror : ∀ s env e, Q (.error e) (W.note (.getWorker workerId tenantId) env s n))
    (hok : ∀ s env, H (s, env) → ∀ worker job job' next,
      (W.exec (.getWorker workerId tenantId) env s).1 = some worker →
      worker.runningJob = some job → job.id = jobId → job.Moves job' next job.assignedNodeId →
      next.isActive = false → next ≠ .queued →
      wp W.view H G
        (ReportJobOutcome.finish worker.recover workerId job' outcome.eventType leaseId tenantId) Q
        (W.note (.getWorker workerId tenantId) env s n))
    : wp W.view H G (ReportJobOutcome.report outcome workerId jobId tenantId leaseId exitCode) Q n := by
  unfold ReportJobOutcome.report
  rw [wp_bind]
  apply view_getOwningWorker hguard herror
  intro s env hmet worker job hrunning hid hanswer
  apply Watched.wp_view_read (hclock _) (hnote _)
  intro _ _ _ now _
  rw [wp_bind, wp_runCommand]
  cases hrun : (outcome.command now exitCode).run worker with
  | error e _ => exact herror s env e
  | ok job' worker' =>
    have ⟨job0, next, hjob0, hmoves, hnext, hqueued, hworker'⟩ := ReportJobOutcome.command_ok hrun
    rw [hrunning] at hjob0
    injection hjob0 with hjob0
    subst hjob0 hworker'
    exact hok s env hmet worker job job' next hanswer hrunning hid hmoves hnext hqueued

theorem view_reclaimJob {job : Job} {node : Option Node} {deleted : Bool}
    {Q : Except Err Bool → ν → Prop} (A B : ν → Prop) (hkept : deleted = true → A n)
    (hdelete : deleted = false → G n (.deleteLease job.id job.tenantId)
      ∧ ∀ s env, A (W.note (.deleteLease job.id job.tenantId) env s n))
    (hnone : ∀ n, A n → B n)
    (hnode : ∀ n node, A n → G n (.saveNode node) ∧ ∀ s env, B (W.note (.saveNode node) env s n))
    (hclock : ∀ n, G n .utcNow) (hnote : ∀ n s env, W.note .utcNow env s n = n)
    (hjob : ∀ n now job', B n → (Job.reclaim now).run job = .ok () job' →
      G n (.saveJob job') ∧ ∀ s env, Q (.ok true) (W.note (.saveJob job') env s n))
    (hleft : ∀ n, B n → Q (.ok false) n) (herror : ∀ e n', Q (.error e) n')
    : wp W.view H G (reclaimJob job node deleted) Q n := by
  have hmove : ∀ n, B n → wp W.view H G (reclaimJob job none true) Q n := by
    intro n hn
    apply wp_reclaimJob_move
    . intro f hf
      apply Watched.wp_view_read (hclock n) (hnote n)
      intro _ _ _ now _
      exact hf now
    . intro now job' hrun
      obtain ⟨hguard, hsaved⟩ := hjob n now job' hn hrun
      refine ⟨hguard, ?_⟩
      intro x _
      rw [wp_ofExcept]
      cases (W.view.exec (.saveJob job') x n).1 with
      | ok _ => exact hsaved x.1 x.2
      | error e => exact herror _ _
    . intro _
      exact hleft n hn
  have hrelease : ∀ n, A n → wp W.view H G (reclaimJob job node true) Q n := by
    intro n hn
    cases node with
    | none => exact hmove n (hnone n hn)
    | some node =>
      obtain ⟨hguard, hsaved⟩ := hnode n (node.release job.resources) hn
      rw [reclaimJob_release]
      refine ⟨hguard, ?_⟩
      intro x _
      cases (W.view.exec (.saveNode (node.release job.resources)) x n).1 with
      | ok _ => exact hmove _ (hsaved x.1 x.2)
      | error e => exact herror _ _
  cases deleted with
  | true => exact hrelease n (hkept rfl)
  | false =>
    obtain ⟨hguard, hgone⟩ := hdelete rfl
    rw [reclaimJob_delete]
    exact ⟨hguard, fun x _ => hrelease _ (hgone x.1 x.2)⟩

end view

def Call.isRead (c : Call) : Bool :=
  match c with
  | .utcNow | .utcNowFor | .generateNodeName _ | .getNode _ _ | .listNodes | .listAvailableNodes
  | .getJob _ _ | .listJobs | .getWorker _ _ | .getWorkerAcrossTenants _ | .getWorkerByNode _ _
  | .listWorkers | .getLeaseByJob _ _ | .getLeaseByWorker _ _ | .listLeases => true
  | _ => false

section makes

variable {P : Call → Prop} (hread : ∀ c, c.isRead → P c)

theorem makes_runCommand {ρ α : Type} (command : EStateM Err ρ α) (entity : ρ)
    : Makes P (runCommand command entity) := by
  unfold runCommand
  cases command.run entity <;> trivial

include hread

theorem makes_releaseNode (hnode : ∀ node, P (.saveNode node)) (job : Job) (tenantId : TenantId)
    : Makes P (releaseNode job tenantId) := by
  unfold releaseNode
  cases job.assignedNodeId with
  | none => trivial
  | some nodeId =>
    apply Makes.bind (.perform (hread _ rfl))
    intro node
    cases node with
    | none => trivial
    | some node => exact .call (hnode _)

theorem makes_renewLease (hrenew : ∀ id duration tenant, P (.renewLease id duration tenant))
    (workerId : WorkerId) (leaseId : LeaseId) (tenantId : TenantId) (duration : Duration)
    : Makes P (renewLease workerId leaseId tenantId duration) := by
  unfold renewLease
  apply Makes.bind (.perform (hread _ rfl))
  intro lease
  cases lease with
  | none => trivial
  | some lease =>
    dsimp only
    split
    . trivial
    . exact .call (hrenew _ _ _)

theorem makes_removeOfflineNode (hdelete : ∀ id tenant, P (.deleteNode id tenant)) (nodeId : NodeId)
    (tenantId : TenantId) : Makes P (removeOfflineNode nodeId tenantId) := by
  unfold removeOfflineNode
  apply Makes.bind (.perform (hread _ rfl))
  intro node
  cases node with
  | none => trivial
  | some node =>
    apply Makes.bind (.perform (hread _ rfl))
    intro now
    split
    . trivial
    . exact .perform (hdelete _ _)

section node

variable (hnode : ∀ node, P (.saveNode node))

include hnode

theorem makes_createNode (huuid : P .uuid4) (capacity : ResourceRequirements) (tenantId : TenantId)
    (name : Option String) : Makes P (createNode capacity tenantId name) := by
  unfold createNode
  apply Makes.bind (.perform huuid)
  intro id
  apply Makes.bind (.perform (hread _ rfl))
  intro generated
  apply Makes.bind (.perform (hread _ rfl))
  intro now
  exact .bind (.call (hnode _)) (fun _ => .pure _)

theorem makes_heartbeatNode (nodeId : NodeId) (tenantId : TenantId)
    : Makes P (heartbeatNode nodeId tenantId) := by
  unfold heartbeatNode
  apply Makes.bind (.perform (hread _ rfl))
  intro node
  cases node with
  | none => trivial
  | some node =>
    apply Makes.bind (.perform (hread _ rfl))
    intro now
    exact .bind (.call (hnode _)) (fun _ => .pure _)

theorem makes_drainNode (nodeId : NodeId) (tenantId : TenantId)
    : Makes P (drainNode nodeId tenantId) := by
  unfold drainNode
  apply Makes.bind (.perform (hread _ rfl))
  intro node
  cases node with
  | none => trivial
  | some node => exact .bind (.call (hnode _)) (fun _ => .pure _)

end node

section worker

variable (hworker : ∀ worker, P (.saveWorker worker))

include hworker

theorem makes_workerHeartbeat (workerId : WorkerId) (tenantId : TenantId)
    : Makes P (workerHeartbeat workerId tenantId) := by
  unfold workerHeartbeat
  apply Makes.bind (.perform (hread _ rfl))
  intro worker
  cases worker with
  | none => trivial
  | some worker =>
    dsimp only
    split
    . trivial
    . apply Makes.bind (.perform (hread _ rfl))
      intro now
      exact .bind (.call (hworker _)) (fun _ => .pure _)

theorem makes_markDeadWorkers : Makes P MarkDeadWorkers.execute := by
  unfold MarkDeadWorkers.execute
  apply Makes.bind (.perform (hread _ rfl))
  intro workers
  apply Makes.forM
  intro worker
  unfold MarkDeadWorkers.mark
  apply Makes.bind (.perform (hread _ rfl))
  intro now
  split
  . trivial
  . exact .call (hworker _)

end worker

variable (hevent : ∀ job tenant type, P (.saveEvent job tenant type))

include hevent

theorem makes_releaseLease (hdelete : ∀ job tenant, P (.deleteLease job tenant))
    (workerId : WorkerId) (leaseId : LeaseId) (tenantId : TenantId)
    : Makes P (releaseLease workerId leaseId tenantId) := by
  unfold releaseLease
  apply Makes.bind (.perform (hread _ rfl))
  intro lease
  cases lease with
  | none => trivial
  | some lease =>
    dsimp only
    split
    . trivial
    . apply Makes.bind (.perform (hread _ rfl))
      intro worker
      cases worker with
      | none => trivial
      | some worker =>
        apply Makes.bind (.perform (hread _ rfl))
        intro job
        cases job with
        | none => trivial
        | some job => exact .bind (.perform (hdelete _ _)) (fun _ => .call (hevent _ _ _))

theorem makes_acquireLease (huuid : P .uuid4) (hlease : ∀ lease, P (.saveLease lease)) (worker : Worker)
    (job : Job) : Makes P (acquireLease worker job) := by
  unfold acquireLease
  split
  . trivial
  . apply Makes.bind (.perform (hread _ rfl))
    intro lease
    cases lease with
    | some _ => trivial
    | none =>
      apply Makes.bind (.perform (hread _ rfl))
      intro now
      apply Makes.bind (.perform huuid)
      intro id
      apply Makes.bind (.call (hlease _))
      intro _
      exact .bind (.call (hevent _ _ _)) (fun _ => .pure _)

theorem makes_assignWorker (huuid : P .uuid4) (hlease : ∀ lease, P (.saveLease lease))
    (hworker : ∀ worker, P (.saveWorker worker)) (job : Job) : Makes P (assignWorker job) := by
  unfold assignWorker
  cases job.assignedNodeId with
  | none => trivial
  | some nodeId =>
    apply Makes.bind (.perform (hread _ rfl))
    intro workers
    cases workers.find? (fun worker => worker.node.id = nodeId && worker.isIdle) with
    | none => trivial
    | some worker =>
      apply Makes.bind
      . apply Makes.catching (makes_acquireLease hread hevent huuid hlease worker job)
        intro e
        split <;> trivial
      . intro _
        apply Makes.bind (makes_runCommand _ _)
        intro accepted
        apply Makes.bind (.call (hworker _))
        intro _
        exact .bind (.call (hevent _ _ _)) (fun _ => .pure _)

end makes

def Call.ofTick (c : Call) : Bool :=
  match c with
  | .utcNow | .utcNowFor | .uuid4 | .listAvailableNodes | .listJobs | .listWorkers
  | .getLeaseByJob _ _ | .saveNode _ | .saveJob _ | .saveEvent _ _ _ => true
  | _ => false

section tick

variable {σ η : Type} {M : Machine signature σ η} {H : η → Prop} {G : σ → Call → Prop}
variable (hG : ∀ s c, c.ofTick → G s c)

theorem always_runCommand {ρ α : Type} (command : EStateM Err ρ α) (entity : ρ)
    : Always M H G (runCommand command entity) := by
  intro s
  rw [wp_runCommand]
  cases command.run entity <;> trivial

include hG

theorem always_save {c : Call} {f : c.Res → Service Unit} (hc : c.ofTick)
    (hf : ∀ r, Always M H G (f r)) : Always M H G (.call (S := signature) c f) :=
  fun s => ⟨hG s c hc, fun _ _ => hf _ _⟩

theorem always_assignWorker (hlease : ∀ worker job, Always M H G (acquireLease worker job))
    (hworker : ∀ s worker, G s (.saveWorker worker)) (job : Job)
    : Always M H G (assignWorker job) := by
  unfold assignWorker
  cases job.assignedNodeId with
  | none => exact .raise _
  | some nodeId =>
    apply Always.bind (.perform (fun s => hG s _ rfl))
    intro workers
    cases workers.find? (fun worker => worker.node.id = nodeId && worker.isIdle) with
    | none => exact .raise _
    | some worker =>
      apply Always.bind
      . apply Always.catching (hlease worker job)
        intro e
        split <;> exact .raise _
      . intro _
        apply Always.bind (always_runCommand _ _)
        intro accepted
        apply Always.bind
        . exact fun s => ⟨hworker s _, fun _ _ => Always.ofExcept _ _⟩
        . intro _
          apply Always.bind (always_save hG rfl .ofExcept)
          intro _
          exact .pure _

theorem always_unschedule (job : Job) (node : Node)
    : Always M H G (SchedulerLoop.unschedule job node) := by
  unfold SchedulerLoop.unschedule
  simp only [plainRelease_bind]
  apply Always.bind (always_runCommand _ _)
  intro unscheduled
  apply Always.bind (always_save hG rfl .ofExcept)
  intro _
  apply Always.bind (always_save hG rfl .ofExcept)
  intro _
  apply Always.bind (always_save hG rfl .ofExcept)
  intro _
  exact .pure _

theorem always_place (hassign : ∀ job, Always M H G (assignWorker job)) (now : NodeId → Time)
    (nodes : List Node) (job : Job)
    : Always M H G (SchedulerLoop.place now nodes job) := by
  unfold SchedulerLoop.place
  cases Scheduler.selectNode now job nodes with
  | none => exact .pure _
  | some node =>
    apply Always.bind (.ofExcept _)
    intro allocated
    apply Always.bind (always_runCommand _ _)
    intro assigned
    apply Always.bind (always_save hG rfl .ofExcept)
    intro _
    apply Always.bind (always_save hG rfl .ofExcept)
    intro _
    apply Always.bind (always_save hG rfl .ofExcept)
    intro _
    apply Always.bind
    . apply Always.catching
      . exact .bind (hassign _) (fun _ => .pure _)
      . intro e
        split
        . exact always_unschedule hG _ _
        . exact .raise _
    . intro _
      exact .pure _

theorem always_schedulerTick (hassign : ∀ job, Always M H G (assignWorker job))
    : Always M H G SchedulerLoop.execute := by
  unfold SchedulerLoop.execute
  apply Always.bind (.perform (fun s => hG s _ rfl))
  intro nodes
  apply Always.bind (.perform (fun s => hG s _ rfl))
  intro jobs
  apply Always.bind
  . apply Always.foldlM
    intro nodes job
    exact .bind (.perform (fun s => hG s _ rfl)) (fun now => always_place hG hassign now nodes job)
  . intro _
    exact .pure _

end tick

end AetherGrid
