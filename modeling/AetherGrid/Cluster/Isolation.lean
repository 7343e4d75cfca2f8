import AetherGrid.Table.Slice
import AetherGrid.Cluster.Safety
import AetherGrid.Cluster.Concurrent
import AetherGrid.Service.Lemmas.Tick

/-!
This module contains what a tenant notices of the others when the scheduler runs.
-/

namespace AetherGrid

open Prog

structure AgreeOn (T : TenantId) (db db' : DB) : Prop where
  nodes : db.nodes.AgreeOn (·.tenantId = T) db'.nodes
  jobs : db.jobs.AgreeOn (·.tenantId = T) db'.jobs
  workers : db.workers.AgreeOn (·.tenantId = T) db'.workers
  leases : ∀ lease : Lease, lease.tenantId = T →
    ((∃ id, { lease with id := id } ∈ db.leases.rows) ↔ ∃ id, { lease with id := id } ∈ db'.leases.rows)

namespace AgreeOn

variable {T : TenantId} {db db' db'' : DB}

theorem refl (T : TenantId) (db : DB) : AgreeOn T db db :=
  ⟨.refl _ _, .refl _ _, .refl _ _, fun _ _ => Iff.rfl⟩

theorem symm (h : AgreeOn T db db') : AgreeOn T db' db :=
  ⟨h.nodes.symm, h.jobs.symm, h.workers.symm, fun lease hlease => (h.leases lease hlease).symm⟩

theorem trans (h : AgreeOn T db db') (h' : AgreeOn T db' db'') : AgreeOn T db db'' :=
  ⟨h.nodes.trans h'.nodes, h.jobs.trans h'.jobs, h.workers.trans h'.workers,
    fun lease hlease => (h.leases lease hlease).trans (h'.leases lease hlease)⟩

end AgreeOn

namespace Isolation

def atClock (t : Time) (env : Env) : Prop :=
  env.now = t ∧ env.nowFor = fun _ => t

def ofTenant (T : TenantId) (nodes : List Node) : List Node :=
  nodes.filter (·.tenantId = T)

def jobsOfTenant (T : TenantId) (jobs : List Job) : List Job :=
  jobs.filter (·.tenantId = T)

def GrantedAt (t : Time) (lease : Lease) : Prop :=
  lease.acquiredAt = t ∧ lease.expiresAt = t + defaultLeaseDuration

section times

variable {t : Time} {db db' : DB}

def grants (t : Time) (_ : DB) (c : Call) : Prop :=
  match c with
  | .saveLease lease => GrantedAt t lease
  | .renewLease _ _ _ => False
  | _ => True

theorem grants_ofTick (db : DB) (c : Call) (hc : c.ofTick) : grants t db c := by
  cases c with
  | saveLease lease => contradiction
  | renewLease id duration tenant => contradiction
  | _ => trivial

theorem always_acquireLease (worker : Worker) (job : Job)
    : Always postgres (atClock t) (grants t) (acquireLease worker job) := by
  unfold acquireLease
  split
  . exact .raise _
  . apply Always.bind (.perform (fun _ => trivial))
    intro lease
    cases lease with
    | some _ => exact .raise _
    | none =>
      intro db
      rw [wp_bind]
      refine ⟨trivial, ?_⟩
      intro env henv
      rw [wp_ret]
      dsimp only
      have hnow : (postgres.exec .utcNow env db).1 = t := henv.left
      rw [hnow]
      apply Always.bind (.perform (fun _ => trivial))
      intro id
      apply Always.bind
      . exact fun _ => ⟨⟨rfl, rfl⟩, fun _ _ => Always.ofExcept _ _⟩
      . intro _
        exact .bind (always_save grants_ofTick rfl .ofExcept) (fun _ => .pure _)

theorem leases_place {nodes : List Node} {job : Job} {now : NodeId → Time} {r : Except Err (List Node)}
    (h : Runs postgres (atClock t) (SchedulerLoop.place now nodes job) db r db')
    : ∀ lease ∈ db'.leases.rows, lease ∈ db.leases.rows ∨ GrantedAt t lease := by
  have hassign : ∀ job, Always postgres (atClock t) (grants t) (assignWorker job) := by
    intro job
    exact always_assignWorker grants_ofTick always_acquireLease (fun _ _ => trivial) job
  have hwp := always_place grants_ofTick hassign now nodes job db
  have hkeep := wp_keep
    (fun db' : DB => ∀ lease ∈ db'.leases.rows, lease ∈ db.leases.rows ∨ GrantedAt t lease) ?_ hwp
    (fun _ => .inl)
  . exact (h.of_wp hkeep).right
  . intro db1 c env hleases hc _
    have hwrites := Call.writes_exec env db1 c
    dsimp only
    generalize (c.exec env db1).2 = db2 at *
    intro lease hlease
    cases hwrites with
    | lease saved =>
      rcases (Table.mem_upsert _ _ _).mp hlease with rfl | ⟨hmem, _⟩
      . exact .inr hc
      . exact hleases lease hmem
    | renewal => exact hc.elim
    | leaseGone => exact hleases lease (List.mem_of_mem_filter hlease)
    | expiredLeaseGone => exact hleases lease (List.mem_of_mem_filter hlease)
    | nodeGone => exact hleases lease (Call.mem_leases_delete hlease)
    | _ => exact hleases lease hlease

end times

inductive Course (t : Time) : List Node → DB → List Job → DB → Prop where
  | done {nodes : List Node} {db : DB} : Course t nodes db [] db
  | next {nodes nodes' : List Node} {db db1 db' : DB} {job : Job} {jobs : List Job} (hinv : Inv db)
    (hnodes : SchedulerLoop.UpToDate db nodes) (hjob : db.jobs.get? job.id = some job)
    (hvisited : SchedulerLoop.Visited (fun _ => t) nodes job db (.ok nodes') db1) (hschema : Schema db1)
    (hleases : ∀ lease ∈ db1.leases.rows, lease ∈ db.leases.rows ∨ GrantedAt t lease)
    (hrest : Course t nodes' db1 jobs db')
    : Course t nodes db (job :: jobs) db'

theorem course_of_loop {t : Time} {nodes : List Node} {jobs : List Job} {visits : List SchedulerLoop.Visit}
    {db db' : DB} {r : Except Err (List Node)}
    (h : SchedulerLoop.Loop (atClock t) nodes jobs db visits r db') (hinv : Inv db)
    (hnodes : SchedulerLoop.UpToDate db nodes) (hpending : SchedulerLoop.Pending db jobs)
    : Course t nodes db jobs db' := by
  induction h with
  | done => exact .done
  | @next nodes nodes' job jobs db db1 db' env visits r henv hplace hrest ih =>
    have hjob := hpending.stored job List.mem_cons_self
    have hqueued := hpending.queued job List.mem_cons_self
    have hwp := SchedulerLoop.wp_place (I := fun _ => True) (H := atClock t) (G := lawful 0) hinv.schema
      (fun _ _ _ => Nat.zero_le _) env.nowFor hnodes hjob hqueued (fun _ _ _ _ => trivial)
    have hvisited := hplace.of_wp hwp
    have hschema : Schema db1 :=
      hplace.of_wp (wp_of_schema hinv.schema (wp_mono hwp (fun _ _ _ h => h)))
    have ⟨nodes'', heq, hgood, hnodes', hothers, _⟩ := hvisited.good hinv hschema hnodes hjob hqueued
    injection heq with heq
    subst heq
    rw [henv.right] at hvisited
    exact .next hinv hnodes hjob hvisited hschema (leases_place hplace)
      (ih hgood.inv hnodes' (hpending.tail hothers))
  | @stop nodes job jobs db db' env e henv hplace =>
    have hjob := hpending.stored job List.mem_cons_self
    have hqueued := hpending.queued job List.mem_cons_self
    have hwp := SchedulerLoop.wp_place (I := fun _ => True) (H := atClock t) (G := lawful 0) hinv.schema
      (fun _ _ _ => Nat.zero_le _) env.nowFor hnodes hjob hqueued (fun _ _ _ _ => trivial)
    have hschema : Schema db' :=
      hplace.of_wp (wp_of_schema hinv.schema (wp_mono hwp (fun _ _ _ h => h)))
    have ⟨_, heq, _⟩ := (hplace.of_wp hwp).good hinv hschema hnodes hjob hqueued
    contradiction

section visits

variable {T : TenantId} {now : NodeId → Time} {nodes nodes' : List Node} {job : Job} {db db' : DB}

theorem selectNode_ofTenant (hjob : job.tenantId = T)
    : Scheduler.selectNode now job nodes = Scheduler.selectNode now job (ofTenant T nodes) := by
  unfold Scheduler.selectNode Scheduler.selectNodeIn ofTenant
  rw [List.filter_filter]
  congr 1
  apply List.filter_congr
  intro node _
  unfold Scheduler.isCandidate Scheduler.sameTenant
  rw [hjob]
  cases decide (node.tenantId = T) <;> simp

theorem ofTenant_putBack {node : Node} (h : ∀ other ∈ nodes, other.id = node.id → other.tenantId = node.tenantId)
    : ofTenant T (SchedulerLoop.putBack node nodes) = SchedulerLoop.putBack node (ofTenant T nodes) := by
  unfold ofTenant SchedulerLoop.putBack
  rw [List.filter_map]
  congr 1
  apply List.filter_congr
  intro other hother
  dsimp only [Function.comp_apply]
  split
  . next hid => rw [h other hother hid]
  . rfl

theorem putBack_ofTenant_of_ne {node : Node} (hnode : node.tenantId ≠ T)
    (h : ∀ other ∈ nodes, other.id = node.id → other.tenantId = node.tenantId)
    : SchedulerLoop.putBack node (ofTenant T nodes) = ofTenant T nodes := by
  have hsame : ∀ other ∈ ofTenant T nodes, (if other.id = node.id then node else other) = id other := by
    intro other hother
    unfold ofTenant at hother
    rw [List.mem_filter, decide_eq_true_eq] at hother
    split
    . next hid => exact absurd ((h other hother.left hid).symm.trans hother.right) hnode
    . rfl
  unfold SchedulerLoop.putBack
  rw [List.map_congr_left hsame, List.map_id]

theorem UpToDate.tenant_eq (hnodes : SchedulerLoop.UpToDate db nodes) {node node' : Node} (hmem : node ∈ nodes)
    (hid : node'.id = node.id) (htenant : node'.tenantId = node.tenantId)
    : ∀ other ∈ nodes, other.id = node'.id → other.tenantId = node'.tenantId := by
  intro other hother hid'
  have hget := hnodes other hother
  rw [hid', hid, hnodes node hmem] at hget
  injection hget with heq
  rw [← heq, htenant]

theorem worker_tenant (hschema : Schema db) {worker : Worker} {node : Node}
    (hworker : db.workers.get? worker.id = some worker.toRow) (hon : worker.node.id = node.id)
    (hnode : db.nodes.get? node.id = some node) : worker.toRow.tenantId = node.tenantId := by
  have h := hschema.workerNode worker.toRow (Table.mem_of_get? hworker)
  have hrow : worker.toRow.nodeId = node.id := hon
  unfold PostgresWorkerRepository.nodeSameTenant at h
  rw [hrow, hnode, Option.any_some, decide_eq_true_eq] at h
  exact h.symm

theorem lease_tenant (hschema : Schema db) {lease : Lease} (hlease : lease ∈ db.leases.rows) {stored : Job}
    (hjob : db.jobs.get? lease.jobId = some stored) : lease.tenantId = stored.tenantId := by
  have h := hschema.leaseJob lease hlease
  unfold PostgresLeaseRepository.jobSameTenant at h
  rw [hjob, Option.any_some, decide_eq_true_eq] at h
  exact h.symm

theorem fresh_of_puts (hinv : Inv db) {lease : Lease} (hid : db.nextId ≤ lease.id.value)
    : ∀ other ∈ db.leases.rows, other.id ≠ lease.id := by
  intro other hother heq
  have hlt := hinv.freshLease other hother
  rw [heq] at hlt
  exact absurd hid (Nat.not_le.mpr hlt)

theorem agreeOn_of_foreign (hvisited : SchedulerLoop.Visited now nodes job db (.ok nodes') db') (hinv : Inv db)
    (hnodes : SchedulerLoop.UpToDate db nodes) (hjob : db.jobs.get? job.id = some job) (hschema : Schema db')
    (hne : job.tenantId ≠ T) : AgreeOn T db db' ∧ ofTenant T nodes' = ofTenant T nodes := by
  have hold : ∀ old, db.jobs.get? job.id = some old → old.tenantId ≠ T := by
    intro old hget
    rw [hjob] at hget
    injection hget with heq
    rw [← heq]
    exact hne
  cases hvisited with
  | unplaced hselect => exact ⟨.refl T db, rfl⟩
  | @refused _ node hselect _ hputs hjobs hworkers hleases _ =>
    have ⟨hmem, _⟩ := Scheduler.selectNode_eq_some hselect
    refine ⟨⟨?_, ?_, ?_, ?_⟩, rfl⟩
    . exact .of_get? (hputs.get?_eq (hnodes node hmem))
    . exact .of_puts hjobs hne hold
    . rw [hworkers]
      exact .refl _ _
    . rw [hleases]
      exact fun _ _ => Iff.rfl
  | @placed _ node node' worker lease hselect hallocate hworker _ hon hputs hjobs hworkers hleases hfresh
      hnext hleaseWorker hleaseJob =>
    have ⟨hmem, hcandidate⟩ := Scheduler.selectNode_eq_some hselect
    have htenant := ((Scheduler.isCandidate_iff _ _ _).mp hcandidate).left
    have ⟨_, hid, _, htenant', _, _⟩ := Node.allocate_eq_ok hallocate
    have hnode := hnodes node hmem
    have hrow := worker_tenant hinv.schema hworker hon hnode
    have hlease : lease.tenantId = (SchedulerLoop.scheduledOn job node.id).tenantId :=
      lease_tenant hschema ((hleases.mem_iff lease).mpr (.inl rfl)) (hjobs.get?_of_eq hleaseJob.symm)
    have hsame := UpToDate.tenant_eq hnodes hmem hid htenant'
    refine ⟨⟨?_, ?_, ?_, ?_⟩, ?_⟩
    . refine .of_puts hputs ?_ ?_
      . rw [htenant', htenant]
        exact hne
      . intro old hget
        rw [hid, hnode] at hget
        injection hget with heq
        rw [← heq, htenant]
        exact hne
    . exact .of_puts hjobs hne hold
    . refine .of_puts hworkers ?_ ?_
      . have : (worker.taking (SchedulerLoop.scheduledOn job node.id)).toRow.tenantId = worker.toRow.tenantId := rfl
        rw [this, hrow, htenant]
        exact hne
      . intro old hget
        have := hworker.symm.trans hget
        injection this with heq
        rw [← heq, hrow, htenant]
        exact hne
    . intro other hother
      constructor
      . intro ⟨id, hmem⟩
        exact ⟨id, (hleases.mem_iff _).mpr (.inr ⟨hmem, fresh_of_puts hinv hfresh _ hmem⟩)⟩
      . intro ⟨id, hmem⟩
        rcases (hleases.mem_iff _).mp hmem with heq | ⟨hmem, _⟩
        . rw [← heq] at hlease
          exact absurd (hlease.symm.trans hother) hne
        . exact ⟨id, hmem⟩
    . rw [ofTenant_putBack hsame, putBack_ofTenant_of_ne _ hsame]
      rw [htenant', htenant]
      exact hne

theorem toRow_taking {worker worker' : Worker} (h : worker.toRow = worker'.toRow) (job : Job)
    : (worker.taking job).toRow = (worker'.taking job).toRow := by
  unfold Worker.toRow at h
  injection h with hid hnode htenant hstatus hmanaged hrunning hseen
  unfold Worker.taking Worker.toRow
  rw [hid, hnode, hmanaged, hseen]
  congr 1

section own

variable {t : Time} {nodes2 nodes2' : List Node} {db2 db2' : DB}

theorem selected_eq {node node2 : Node}
    (h : Scheduler.selectNode now job nodes = Scheduler.selectNode now job nodes2)
    (hselect : Scheduler.selectNode now job nodes = some node)
    (hselect2 : Scheduler.selectNode now job nodes2 = some node2) : node = node2 := by
  rw [h, hselect2] at hselect
  injection hselect with heq
  exact heq.symm

theorem row_of_agreeOn (hagree : AgreeOn T db db2) (hjobT : job.tenantId = T) (hschema : Schema db)
    (hnodes : SchedulerLoop.UpToDate db nodes) {node : Node}
    (hselect : Scheduler.selectNode now job nodes = some node) {worker : Worker}
    (hworker : db.workers.get? worker.id = some worker.toRow) (hon : worker.node.id = node.id)
    : worker.toRow ∈ db2.workers.rows := by
  have ⟨hmem, hcandidate⟩ := Scheduler.selectNode_eq_some hselect
  have htenant := ((Scheduler.isCandidate_iff _ _ _).mp hcandidate).left
  apply (hagree.workers worker.toRow _).mp (Table.mem_of_get? hworker)
  rw [worker_tenant hschema hworker hon (hnodes node hmem), htenant, hjobT]

theorem new_lease (hinv : Inv db) {lease : Lease} {stored : Job} (hfresh : db.nextId ≤ lease.id.value)
    (hleases : db.leases.Puts lease db'.leases)
    (hgranted : ∀ lease ∈ db'.leases.rows, lease ∈ db.leases.rows ∨ GrantedAt t lease)
    (hschema : Schema db') (hjobs : db.jobs.Puts stored db'.jobs) (hjob : lease.jobId = stored.id)
    : lease = ⟨lease.id, lease.workerId, stored.id, stored.tenantId, t, t + defaultLeaseDuration⟩ := by
  have hmem : lease ∈ db'.leases.rows := (hleases.mem_iff lease).mpr (.inl rfl)
  have htenant := lease_tenant hschema hmem (hjobs.get?_of_eq hjob.symm)
  rcases hgranted lease hmem with hold | ⟨hacquired, hexpires⟩
  . exact absurd rfl (fresh_of_puts hinv hfresh lease hold)
  . rw [← hjob, ← htenant, ← hexpires, ← hacquired]

theorem leases_puts {leases leases' leases2 leases2' : Table LeaseId Lease Lease.id} {lease lease2 : Lease}
    (hagree : ∀ lease : Lease, lease.tenantId = T →
      ((∃ id, { lease with id := id } ∈ leases.rows) ↔ ∃ id, { lease with id := id } ∈ leases2.rows))
    (hputs : leases.Puts lease leases') (hputs2 : leases2.Puts lease2 leases2')
    (hfresh : ∀ other ∈ leases.rows, other.id ≠ lease.id)
    (hfresh2 : ∀ other ∈ leases2.rows, other.id ≠ lease2.id)
    (heq : { lease with id := lease2.id } = lease2)
    : ∀ other : Lease, other.tenantId = T →
        ((∃ id, { other with id := id } ∈ leases'.rows) ↔ ∃ id, { other with id := id } ∈ leases2'.rows) := by
  intro other hother
  constructor
  . intro ⟨id, hmem⟩
    rcases (hputs.mem_iff _).mp hmem with hnew | ⟨hold, _⟩
    . refine ⟨lease2.id, (hputs2.mem_iff _).mpr (.inl ?_)⟩
      rw [← heq, ← hnew]
    . have ⟨id2, hold2⟩ := (hagree other hother).mp ⟨id, hold⟩
      exact ⟨id2, (hputs2.mem_iff _).mpr (.inr ⟨hold2, hfresh2 _ hold2⟩)⟩
  . intro ⟨id, hmem⟩
    rcases (hputs2.mem_iff _).mp hmem with hnew | ⟨hold, _⟩
    . refine ⟨lease.id, (hputs.mem_iff _).mpr (.inl ?_)⟩
      rw [← heq] at hnew
      injection hnew with _ hworker hjob htenant hacquired hexpires
      rw [hworker, hjob, htenant, hacquired, hexpires]
    . have ⟨id2, hold2⟩ := (hagree other hother).mpr ⟨id, hold⟩
      exact ⟨id2, (hputs.mem_iff _).mpr (.inr ⟨hold2, hfresh _ hold2⟩)⟩

theorem agreeOn_of_own (hjobT : job.tenantId = T) (hagree : AgreeOn T db db2)
    (hlist : ofTenant T nodes = ofTenant T nodes2)
    (hvisited : SchedulerLoop.Visited now nodes job db (.ok nodes') db') (hinv : Inv db)
    (hnodes : SchedulerLoop.UpToDate db nodes) (hschema : Schema db')
    (hgranted : ∀ lease ∈ db'.leases.rows, lease ∈ db.leases.rows ∨ GrantedAt t lease)
    (hvisited2 : SchedulerLoop.Visited now nodes2 job db2 (.ok nodes2') db2') (hinv2 : Inv db2)
    (hnodes2 : SchedulerLoop.UpToDate db2 nodes2) (hschema2 : Schema db2')
    (hgranted2 : ∀ lease ∈ db2'.leases.rows, lease ∈ db2.leases.rows ∨ GrantedAt t lease)
    : AgreeOn T db' db2' ∧ ofTenant T nodes' = ofTenant T nodes2' := by
  have hselected : Scheduler.selectNode now job nodes = Scheduler.selectNode now job nodes2 := by
    rw [selectNode_ofTenant hjobT, hlist, ← selectNode_ofTenant hjobT]
  cases hvisited with
  | unplaced hselect =>
    cases hvisited2 with
    | unplaced _ => exact ⟨hagree, hlist⟩
    | refused hselect2 | placed hselect2 =>
      rw [← hselected, hselect] at hselect2
      contradiction
  | @refused _ node hselect hbusy hputs hjobs hworkers hleases _ =>
    have ⟨hmem, _⟩ := Scheduler.selectNode_eq_some hselect
    cases hvisited2 with
    | unplaced hselect2 =>
      rw [← hselected, hselect] at hselect2
      contradiction
    | refused hselect2 _ hputs2 hjobs2 hworkers2 hleases2 _ =>
      obtain rfl := selected_eq hselected hselect hselect2
      have ⟨hmem2, _⟩ := Scheduler.selectNode_eq_some hselect2
      have hsame : AgreeOn T db { db' with jobs := db.jobs } :=
        ⟨.of_get? (hputs.get?_eq (hnodes node hmem)), .refl _ _, by rw [hworkers]; exact .refl _ _,
          by rw [hleases]; exact fun _ _ => Iff.rfl⟩
      have hsame2 : AgreeOn T db2 { db2' with jobs := db2.jobs } :=
        ⟨.of_get? (hputs2.get?_eq (hnodes2 node hmem2)), .refl _ _, by rw [hworkers2]; exact .refl _ _,
          by rw [hleases2]; exact fun _ _ => Iff.rfl⟩
      have hwritten := (hsame.symm.trans hagree).trans hsame2
      exact ⟨⟨hwritten.nodes, hagree.jobs.puts hjobs hjobs2, hwritten.workers, hwritten.leases⟩, hlist⟩
    | @placed _ node2 _ worker2 _ hselect2 _ hworker2 hidle2 hon2 =>
      obtain rfl := selected_eq hselected hselect hselect2
      have hrow := row_of_agreeOn hagree.symm hjobT hinv2.schema hnodes2 hselect2 hworker2 hon2
      exact absurd (of_decide_eq_true hidle2) (hbusy _ hrow hon2)
  | @placed _ node node' worker lease hselect hallocate hworker hidle hon hputs hjobs hworkers hleases
      hfresh hnext hleaseWorker hleaseJob =>
    cases hvisited2 with
    | unplaced hselect2 =>
      rw [← hselected, hselect] at hselect2
      contradiction
    | refused hselect2 hbusy2 =>
      obtain rfl := selected_eq hselected hselect hselect2
      have hrow := row_of_agreeOn hagree hjobT hinv.schema hnodes hselect hworker hon
      exact absurd (of_decide_eq_true hidle) (hbusy2 _ hrow hon)
    | @placed _ _ node2' worker2 lease2 hselect2 hallocate2 hworker2 hidle2 hon2 hputs2 hjobs2 hworkers2
        hleases2 hfresh2 hnext2 hleaseWorker2 hleaseJob2 =>
      obtain rfl := selected_eq hselected hselect hselect2
      rw [hallocate] at hallocate2
      injection hallocate2 with hnode'
      subst hnode'
      have ⟨hmem, _⟩ := Scheduler.selectNode_eq_some hselect
      have ⟨hmem2, _⟩ := Scheduler.selectNode_eq_some hselect2
      have ⟨_, hid, _, htenant', _, _⟩ := Node.allocate_eq_ok hallocate
      have hrow2 := row_of_agreeOn hagree.symm hjobT hinv2.schema hnodes2 hselect2 hworker2 hon2
      have hworker' := hinv.oneWorker _ (Table.mem_of_get? hworker) _ hrow2 (hon.trans hon2.symm)
      rw [← toRow_taking hworker'] at hworkers2
      have hlease := new_lease hinv hfresh hleases hgranted hschema hjobs hleaseJob
      have hlease2 := new_lease hinv2 hfresh2 hleases2 hgranted2 hschema2 hjobs2 hleaseJob2
      have hid' : worker.id = worker2.id := congrArg WorkerRow.id hworker'
      refine ⟨⟨hagree.nodes.puts hputs hputs2, hagree.jobs.puts hjobs hjobs2,
        hagree.workers.puts hworkers hworkers2, ?_⟩, ?_⟩
      . refine leases_puts hagree.leases hleases hleases2 (fresh_of_puts hinv hfresh)
          (fresh_of_puts hinv2 hfresh2) ?_
        rw [hlease, hlease2, hleaseWorker, hleaseWorker2, hid']
      . rw [ofTenant_putBack (UpToDate.tenant_eq hnodes hmem hid htenant'),
          ofTenant_putBack (UpToDate.tenant_eq hnodes2 hmem2 hid htenant'), hlist]

end own

end visits

section lockstep

variable {T : TenantId} {t : Time} {nodes nodes2 : List Node} {jobs jobs2 : List Job} {db db' db2 db2' : DB}

theorem Course.agreeOn_of_none (h : Course t nodes db jobs db') (hnone : jobsOfTenant T jobs = [])
    : AgreeOn T db db' := by
  induction h with
  | done => exact .refl T _
  | @next _ _ _ _ _ job jobs hinv hnodes hjob hvisited hschema _ _ ih =>
    unfold jobsOfTenant at hnone ih
    rw [List.filter_eq_nil_iff] at hnone
    have hne : job.tenantId ≠ T := by simpa using hnone job List.mem_cons_self
    have ⟨hagree, _⟩ := agreeOn_of_foreign hvisited hinv hnodes hjob hschema hne
    refine hagree.trans (ih ?_)
    rw [List.filter_eq_nil_iff]
    exact fun other hother => hnone other (List.mem_cons_of_mem _ hother)

theorem Course.mem_leases (h : Course t nodes db jobs db') {lease : Lease} (hlease : lease ∈ db.leases.rows)
    : lease ∈ db'.leases.rows := by
  induction h with
  | done => exact hlease
  | next hinv _ _ hvisited _ _ _ ih =>
    apply ih
    cases hvisited with
    | unplaced => exact hlease
    | refused _ _ _ _ _ hleases => rwa [hleases]
    | placed _ _ _ _ _ _ _ _ hleases hnew =>
      rw [hleases.mem_iff]
      refine .inr ⟨hlease, fun hid => ?_⟩
      have hold := hinv.freshLease lease hlease
      rw [hid] at hold
      omega

theorem Course.advance {job : Job} {rest : List Job} (h : Course t nodes db jobs db')
    (hjobs : jobsOfTenant T jobs = job :: rest)
    : ∃ nodes1 db1 nodes2 db2 jobs', AgreeOn T db db1
        ∧ ofTenant T nodes1 = ofTenant T nodes
        ∧ Inv db1
        ∧ SchedulerLoop.UpToDate db1 nodes1
        ∧ SchedulerLoop.Visited (fun _ => t) nodes1 job db1 (.ok nodes2) db2
        ∧ Schema db2
        ∧ (∀ lease ∈ db2.leases.rows, lease ∈ db1.leases.rows ∨ GrantedAt t lease)
        ∧ Course t nodes2 db2 jobs' db'
        ∧ jobsOfTenant T jobs' = rest := by
  induction h with
  | done => contradiction
  | @next nodes nodes' db db1 db' first jobs hinv hnodes hjob hvisited hschema hleases hrest ih =>
    unfold jobsOfTenant at hjobs ih
    rw [List.filter_cons] at hjobs
    split at hjobs
    . injection hjobs with hfirst hjobs
      subst hfirst
      exact ⟨nodes, db, nodes', db1, jobs, .refl T db, rfl, hinv, hnodes, hvisited, hschema, hleases, hrest,
        hjobs⟩
    . next hne =>
      have hne : first.tenantId ≠ T := by simpa using hne
      have ⟨hagree, hlist⟩ := agreeOn_of_foreign hvisited hinv hnodes hjob hschema hne
      have ⟨nodes1, db2, nodes2, db3, jobs', hagree', hlist', hnext⟩ := ih hjobs
      exact ⟨nodes1, db2, nodes2, db3, jobs', hagree.trans hagree', hlist'.trans hlist, hnext⟩

theorem Course.agreeOn (h : Course t nodes db jobs db') (h2 : Course t nodes2 db2 jobs2 db2')
    (hagree : AgreeOn T db db2) (hlist : ofTenant T nodes = ofTenant T nodes2)
    (hjobs : jobsOfTenant T jobs = jobsOfTenant T jobs2) : AgreeOn T db' db2' := by
  -- the first tick leads, and the second one catches up at every job of the tenant
  induction h generalizing nodes2 db2 jobs2 with
  | done => exact hagree.trans (h2.agreeOn_of_none hjobs.symm)
  | @next nodes nodes' db db1 db' job jobs hinv hnodes hjob hvisited hschema hleases hrest ih =>
    by_cases hjobT : job.tenantId = T
    . have hcons : jobsOfTenant T (job :: jobs) = job :: jobsOfTenant T jobs := by
        unfold jobsOfTenant
        rw [List.filter_cons, if_pos (decide_eq_true hjobT)]
      have ⟨_, _, _, _, _, hagree1, hlist1, hinv1, hnodes1, hvisited1, hschema1, hleases1, hrest1, hjobs1⟩ :=
        h2.advance (hjobs.symm.trans hcons)
      have ⟨hagree', hlist'⟩ := agreeOn_of_own hjobT (hagree.trans hagree1) (hlist.trans hlist1.symm) hvisited
        hinv hnodes hschema hleases hvisited1 hinv1 hnodes1 hschema1 hleases1
      exact ih hrest1 hagree' hlist' hjobs1.symm
    . have ⟨hagree', hlist'⟩ := agreeOn_of_foreign hvisited hinv hnodes hjob hschema hjobT
      apply ih h2 (hagree'.symm.trans hagree) (hlist'.trans hlist)
      rw [← hjobs]
      unfold jobsOfTenant
      rw [List.filter_cons, if_neg (by simpa using hjobT)]

theorem jobsOfTenant_inPriorityOrder (jobs : List Job)
    : jobsOfTenant T (SchedulerLoop.inPriorityOrder jobs)
        =
      SchedulerLoop.inPriorityOrder (jobsOfTenant T jobs) := by
  have htotal : Std.Total (fun a b : Job => b.priority ≤ a.priority) :=
    ⟨fun a b => Int.le_total b.priority a.priority⟩
  have htrans : IsTrans Job (fun a b => b.priority ≤ a.priority) :=
    ⟨fun _ _ _ hab hbc => Int.le_trans hbc hab⟩
  unfold jobsOfTenant SchedulerLoop.inPriorityOrder
  rw [List.filter_insertionSort, List.filter_filter, List.filter_filter]
  congr 1
  apply List.filter_congr
  intro job _
  exact Bool.and_comm _ _

theorem course_of_tick {listing order : Env} {visits : List SchedulerLoop.Visit} {r : Except Err Unit}
    (h : SchedulerLoop.Tick (atClock t) listing order db visits r db') (hinv : Inv db)
    : Course t (PostgresNodeRepository.listAvailableAcrossTenants listing db)
        (db) (SchedulerLoop.inPriorityOrder (PostgresJobRepository.listAcrossTenants order db)) db' := by
  have ⟨_, hloop, _⟩ := h.loop
  exact course_of_loop hloop hinv (SchedulerLoop.upToDate_listAvailable listing db)
    (SchedulerLoop.pending_inPriorityOrder order db)

end lockstep

structure OneTenant (db : DB) : Prop where
  job : ∀ job ∈ db.jobs.rows, ∀ nodeId, job.assignedNodeId = some nodeId →
    ∃ node, db.nodes.get? nodeId = some node ∧ node.tenantId = job.tenantId
  worker : ∀ row ∈ db.workers.rows, ∀ jobId, row.runningJobId = some jobId →
    ∃ job, db.jobs.get? jobId = some job ∧ job.tenantId = row.tenantId
  lease : ∀ lease ∈ db.leases.rows, ∃ row job, db.workers.get? lease.workerId = some row
    ∧ db.jobs.get? lease.jobId = some job
    ∧ row.tenantId = lease.tenantId
    ∧ job.tenantId = lease.tenantId

theorem oneTenant_of_schema {db : DB} (h : Schema db) : OneTenant db where
  job job hjob nodeId hnode := by
    have := h.jobNode job hjob
    unfold PostgresJobRepository.assignedNodeSameTenant at this
    rw [hnode, Option.all_some, Option.any_eq_true] at this
    have ⟨node, hget, htenant⟩ := this
    exact ⟨node, hget, of_decide_eq_true htenant⟩
  worker row hrow jobId hjob := by
    have := h.workerJob row hrow
    unfold PostgresWorkerRepository.runningJobSameTenant at this
    rw [hjob, Option.all_some, Option.any_eq_true] at this
    have ⟨job, hget, htenant⟩ := this
    exact ⟨job, hget, of_decide_eq_true htenant⟩
  lease lease hlease := by
    have hworker := h.leaseWorker lease hlease
    have hjob := h.leaseJob lease hlease
    unfold PostgresLeaseRepository.workerSameTenant at hworker
    unfold PostgresLeaseRepository.jobSameTenant at hjob
    rw [Option.any_eq_true] at hworker hjob
    have ⟨row, hrow, htenant⟩ := hworker
    have ⟨job, hget, htenant'⟩ := hjob
    exact ⟨row, job, hrow, hget, of_decide_eq_true htenant, of_decide_eq_true htenant'⟩

theorem tick_isolated {c c2 : Cluster} (h : Reachable anyCall c) (h2 : Reachable anyCall c2)
    : OneTenant c.db
        ∧ ∀ T t listing order visits r db listing2 order2 visits2 r2 db2,
          AgreeOn T c.db c2.db →
          SchedulerLoop.Tick (atClock t) listing order c.db visits r db →
          SchedulerLoop.Tick (atClock t) listing2 order2 c2.db visits2 r2 db2 →
          ofTenant T (PostgresNodeRepository.listAvailableAcrossTenants listing c.db)
            = ofTenant T (PostgresNodeRepository.listAvailableAcrossTenants listing2 c2.db) →
          jobsOfTenant T (PostgresJobRepository.listAcrossTenants order c.db)
            = jobsOfTenant T (PostgresJobRepository.listAcrossTenants order2 c2.db) →
          AgreeOn T db db2 ∧ (∀ lease ∈ c.db.leases.rows, lease ∈ db.leases.rows)
            ∧ ∀ lease ∈ c2.db.leases.rows, lease ∈ db2.leases.rows := by
  have hinv := h.ordered.inv
  have hinv2 := h2.ordered.inv
  refine ⟨oneTenant_of_schema hinv.schema, ?_⟩
  intro T t listing order visits r db listing2 order2 visits2 r2 db2 hagree htick htick2 hnodes hjobs
  have hcourse := course_of_tick htick hinv
  have hcourse2 := course_of_tick htick2 hinv2
  refine ⟨hcourse.agreeOn hcourse2 hagree hnodes ?_, fun _ => hcourse.mem_leases, fun _ => hcourse2.mem_leases⟩
  rw [jobsOfTenant_inPriorityOrder, jobsOfTenant_inPriorityOrder, hjobs]

def twoQueuedJobs : List (Env × ServiceCall) :=
  [({ now := 0 }, .createNode ⟨4, 4096, 0⟩ ⟨0⟩ none),
    ({ now := 0 }, .createJob ⟨1, 1024, 0⟩ ⟨0⟩ none),
    ({ now := 0 }, .createJob ⟨1, 1024, 0⟩ ⟨0⟩ none),
    ({ now := 0 }, .postWorkers ⟨0⟩ ⟨0⟩ .agent)]

theorem reachable_twoQueuedJobs : Reachable anyCall ⟨replay twoQueuedJobs DB.empty, []⟩ := by
  apply reachable_replay
  . exact .init pristine_empty
  . intro db call _
    trivial

def latestFirst : Env where
  now := 0
  jobOrder := ⟨List.reverse, List.reverse_perm⟩

theorem runs_ok_of_eval (env : Env) {p : Service Unit} {db : DB} (henv : atClock 0 env)
    (h : (eval postgres env p db).1 = .ok ())
    : Runs postgres (atClock 0) p db (.ok ()) (eval postgres env p db).2 := by
  have hruns := runs_eval (M := postgres) (H := atClock 0) henv p db
  rw [h] at hruns
  exact hruns

theorem tick_ordered
    : Reachable anyCall ⟨replay twoQueuedJobs DB.empty, []⟩
        ∧ ∃ db db2,
          Runs postgres (atClock 0) SchedulerLoop.execute (replay twoQueuedJobs DB.empty) (.ok ()) db
            ∧ Runs postgres (atClock 0) SchedulerLoop.execute (replay twoQueuedJobs DB.empty) (.ok ()) db2
            ∧ (db.jobs.get? ⟨1⟩).map (·.status) = some .scheduled
            ∧ (db2.jobs.get? ⟨1⟩).map (·.status) = some .queued
            ∧ ¬AgreeOn ⟨0⟩ db db2 := by
  refine ⟨reachable_twoQueuedJobs, _, _, runs_ok_of_eval { now := 0 } ⟨rfl, rfl⟩ ?_,
    runs_ok_of_eval latestFirst ⟨rfl, rfl⟩ ?_, ?_, ?_, ?_⟩
  . decide +kernel
  . decide +kernel
  . decide +kernel
  . decide +kernel
  . intro hagree
    have hjobs : ∀ job ∈ (eval postgres { now := 0 } SchedulerLoop.execute
        (replay twoQueuedJobs DB.empty)).2.jobs.rows, job.tenantId = ⟨0⟩ →
        job ∈ (eval postgres latestFirst SchedulerLoop.execute
          (replay twoQueuedJobs DB.empty)).2.jobs.rows :=
      fun job hjob htenant => (hagree.jobs job htenant).mp hjob
    revert hjobs
    decide +kernel

theorem exists_tick_of_eval {t : Time} (env : Env) (henv : atClock t env) (db : DB)
    : ∃ visits r, SchedulerLoop.Tick (atClock t) env env db visits r
        (eval postgres env SchedulerLoop.execute db).2 := by
  have hruns := runs_eval (M := postgres) (H := atClock t) henv
    ((SchedulerLoop.inPriorityOrder (PostgresJobRepository.listAcrossTenants env db)).foldlM
      SchedulerLoop.visit (PostgresNodeRepository.listAvailableAcrossTenants env db)) db
  have ⟨visits, hloop⟩ := SchedulerLoop.exists_loop hruns
  have heval : (eval postgres env SchedulerLoop.execute db).2
      = (eval postgres env
        ((SchedulerLoop.inPriorityOrder (PostgresJobRepository.listAcrossTenants env db)).foldlM
          SchedulerLoop.visit (PostgresNodeRepository.listAvailableAcrossTenants env db)) db).2 := by
    unfold SchedulerLoop.execute
    rw [eval_bind]
    dsimp only [eval, NodeRepository.listAvailableAcrossTenants, perform]
    rw [eval_bind]
    dsimp only [eval, JobRepository.listAcrossTenants, perform]
    rw [eval_bind]
    split
    . next heq => exact (congrArg Prod.snd heq).symm
    . next heq => exact (congrArg Prod.snd heq).symm
  rw [heval]
  exact ⟨visits, _, henv, henv, _, hloop, rfl⟩

def withNeighbour : List (Env × ServiceCall) :=
  oneQueuedJob
    ++ [({ now := 0 }, .createNode ⟨8, 8192, 0⟩ ⟨1⟩ none),
      ({ now := 0 }, .createJob ⟨2, 2048, 0⟩ ⟨1⟩ none),
      ({ now := 0 }, .postWorkers ⟨5⟩ ⟨1⟩ .agent)]

theorem tick_isolated_withNeighbour
    : Reachable anyCall ⟨replay oneQueuedJob DB.empty, []⟩
        ∧ Reachable anyCall ⟨replay withNeighbour DB.empty, []⟩
        ∧ AgreeOn ⟨0⟩
          (eval postgres { now := 0 } SchedulerLoop.execute (replay oneQueuedJob DB.empty)).2
          (eval postgres { now := 0 } SchedulerLoop.execute (replay withNeighbour DB.empty)).2 := by
  have hreachable : Reachable anyCall ⟨replay withNeighbour DB.empty, []⟩ := by
    apply reachable_replay
    . exact .init pristine_empty
    . intro db call _
      trivial
  have hagree : AgreeOn ⟨0⟩ (replay oneQueuedJob DB.empty) (replay withNeighbour DB.empty) := by
    have hleases : (replay oneQueuedJob DB.empty).leases.rows = [] := by decide +kernel
    have hleases2 : (replay withNeighbour DB.empty).leases.rows = [] := by decide +kernel
    refine ⟨.of_filter (by decide +kernel), .of_filter (by decide +kernel), .of_filter (by decide +kernel),
      ?_⟩
    rw [hleases, hleases2]
    exact fun _ _ => Iff.rfl
  have ⟨_, _, htick⟩ := exists_tick_of_eval (t := 0) { now := 0 } ⟨rfl, rfl⟩
    (replay oneQueuedJob DB.empty)
  have ⟨_, _, htick2⟩ := exists_tick_of_eval (t := 0) { now := 0 } ⟨rfl, rfl⟩
    (replay withNeighbour DB.empty)
  refine ⟨reachable_oneQueuedJob, hreachable, ?_⟩
  exact ((tick_isolated reachable_oneQueuedJob hreachable).right _ _ _ _ _ _ _ _ _ _ _ _ hagree htick htick2
    (by decide +kernel) (by decide +kernel)).left

end Isolation

end AetherGrid
