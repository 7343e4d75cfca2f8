import AetherGrid.Service.Lemmas.Scheduling

/-!
This module contains what a scheduling tick decides, job by job, for every state the database can be in.
-/

namespace AetherGrid

namespace SchedulerLoop

open Prog

structure Visit where
  job : Job
  nodes : List Node
  now : NodeId → Time
  before : DB

inductive Loop (H : Env → Prop)
    : List Node → List Job → DB → List Visit → Except Err (List Node) → DB → Prop where
  | done {nodes : List Node} {db : DB} : Loop H nodes [] db [] (.ok nodes) db
  | next {nodes nodes' : List Node} {job : Job} {jobs : List Job} {db db1 db' : DB} {env : Env}
    {visits : List Visit} {r : Except Err (List Node)} (henv : H env)
    (hplace : Runs postgres H (place env.nowFor nodes job) db (.ok nodes') db1)
    (hrest : Loop H nodes' jobs db1 visits r db')
    : Loop H nodes (job :: jobs) db (⟨job, nodes, env.nowFor, db⟩ :: visits) r db'
  | stop {nodes : List Node} {job : Job} {jobs : List Job} {db db' : DB} {env : Env} {e : Err}
    (henv : H env) (hplace : Runs postgres H (place env.nowFor nodes job) db (.error e) db')
    : Loop H nodes (job :: jobs) db [⟨job, nodes, env.nowFor, db⟩] (.error e) db'

structure Tick (H : Env → Prop) (listing order : Env) (db : DB) (visits : List Visit)
    (r : Except Err Unit) (db' : DB) : Prop where
  hlisting : H listing
  horder : H order
  loop : ∃ nodes,
    Loop H (PostgresNodeRepository.listAvailableAcrossTenants listing db)
      (inPriorityOrder (PostgresJobRepository.listAcrossTenants order db)) db visits nodes db'
      ∧ r = nodes.map (fun _ => ())

variable {H : Env → Prop} {db db' : DB} {n : Nat} {listing order : Env}

theorem exists_loop {nodes : List Node} {jobs : List Job} {r : Except Err (List Node)}
    (h : Runs postgres H (jobs.foldlM visit nodes) db r db')
    : ∃ visits, Loop H nodes jobs db visits r db' := by
  induction jobs generalizing nodes db with
  | nil =>
    have ⟨hr, hdb⟩ := h
    subst hr hdb
    exact ⟨[], .done⟩
  | cons job jobs ih =>
    rw [List.foldlM_cons, runs_bind_iff] at h
    cases h with
    | inl h =>
      have ⟨nodes', db1, ⟨env, henv, hplace⟩, hrest⟩ := h
      have ⟨visits, hvisits⟩ := ih hrest
      exact ⟨_, .next henv hplace hvisits⟩
    | inr h =>
      have ⟨e, ⟨env, henv, hplace⟩, hr⟩ := h
      subst hr
      exact ⟨_, .stop henv hplace⟩

theorem exists_tick {r : Except Err Unit} (h : Runs postgres H execute db r db')
    : ∃ listing order visits, Tick H listing order db visits r db' := by
  unfold execute at h
  have ⟨listing, hlisting, h⟩ := (runs_perform_bind_iff _ _ _ _ _).mp h
  have ⟨order, horder, h⟩ := (runs_perform_bind_iff _ _ _ _ _).mp h
  rw [runs_bind_iff] at h
  cases h with
  | inl h =>
    have ⟨nodes, db1, hruns, hr, hdb⟩ := h
    subst hr hdb
    have ⟨visits, hvisits⟩ := exists_loop hruns
    exact ⟨listing, order, visits, hlisting, horder, .ok nodes, hvisits, rfl⟩
  | inr h =>
    have ⟨e, hruns, hr⟩ := h
    subst hr
    have ⟨visits, hvisits⟩ := exists_loop hruns
    exact ⟨listing, order, visits, hlisting, horder, .error e, hvisits, rfl⟩

def Snapshot (listing : Env) (db : DB) (nodes : List Node) : Prop :=
  ∀ node, node ∈ nodes
    ↔ node ∈ db.nodes.rows ∧ node.draining = false ∧ node.isAlive (listing.nowFor node.id)

theorem snapshot_listAvailable (listing : Env) (db : DB)
    : Snapshot listing db (PostgresNodeRepository.listAvailableAcrossTenants listing db) := by
  intro node
  unfold PostgresNodeRepository.listAvailableAcrossTenants
  rw [List.mem_filter, (listing.nodeOrder.hperm _).mem_iff, List.mem_filter]
  simp [and_assoc]

theorem Snapshot.upToDate {nodes : List Node} (h : Snapshot listing db nodes) : UpToDate db nodes := by
  intro node hnode
  exact db.nodes.get?_key_of_mem ((h node).mp hnode).left

theorem Snapshot.puts_self {nodes : List Node} {node : Node} (h : Snapshot listing db nodes)
    (hnode : node ∈ nodes) (hputs : db.nodes.Puts node db'.nodes) : Snapshot listing db' nodes := by
  intro other
  rw [h other, Table.mem_congr (hputs.get?_eq (h.upToDate node hnode)) other]

theorem Snapshot.putBack {nodes : List Node} {node node' : Node} (h : Snapshot listing db nodes)
    (hnode : node ∈ nodes) (hid : node'.id = node.id) (hdraining : node'.draining = node.draining)
    (hseen : node'.lastSeenAt = node.lastSeenAt) (hputs : db.nodes.Puts node' db'.nodes)
    : Snapshot listing db' (putBack node' nodes) := by
  have ⟨_, hnot, halive⟩ := (h node).mp hnode
  have hnew : node'.draining = false ∧ node'.isAlive (listing.nowFor node'.id) := by
    unfold Node.isAlive at halive ⊢
    rw [hdraining, hseen, hid]
    exact ⟨hnot, halive⟩
  intro other
  unfold SchedulerLoop.putBack
  rw [List.mem_map, hputs.mem_iff]
  constructor
  . intro ⟨stored, hstored, heq⟩
    split at heq
    . subst heq
      exact ⟨.inl rfl, hnew⟩
    . next hne =>
      subst heq
      have ⟨hmem, havailable⟩ := (h stored).mp hstored
      exact ⟨.inr ⟨hmem, hne⟩, havailable⟩
  . intro ⟨hor, havailable⟩
    cases hor with
    | inl heq =>
      subst heq
      exact ⟨node, hnode, by rw [if_pos hid.symm]⟩
    | inr hmem =>
      exact ⟨other, (h other).mpr ⟨hmem.left, havailable⟩, by rw [if_neg hmem.right]⟩

section visited

variable {now : NodeId → Time} {nodes nodes' : List Node} {job : Job} {r : Except Err (List Node)}

theorem Visited.get?_job (h : Visited now nodes job db r db') {id : JobId} (hid : id ≠ job.id)
    : db'.jobs.get? id = db.jobs.get? id := by
  cases h with
  | unplaced => rfl
  | refused _ _ _ hjobs => exact hjobs.get?_of_ne (Ne.symm hid)
  | placed _ _ _ _ _ _ hjobs => exact hjobs.get?_of_ne (Ne.symm hid)
  | blocked _ _ _ _ _ hjobs => exact hjobs.get?_of_ne (Ne.symm hid)

theorem Visited.snapshot (h : Visited now nodes job db (.ok nodes') db')
    (hsnapshot : Snapshot listing db nodes) : Snapshot listing db' nodes' := by
  cases h with
  | unplaced => exact hsnapshot
  | refused hselect _ hnodes =>
    exact hsnapshot.puts_self (Scheduler.selectNode_eq_some hselect).left hnodes
  | placed hselect hallocate _ _ _ hnodes =>
    have ⟨_, hid, _, _, hdraining, hseen⟩ := Node.allocate_eq_ok hallocate
    exact hsnapshot.putBack (Scheduler.selectNode_eq_some hselect).left hid hdraining hseen hnodes

theorem Visited.noIdleWorker (h : Visited now nodes job db (.ok nodes') db') {nodeId : NodeId}
    (hbusy : NoIdleWorker db nodeId) : NoIdleWorker db' nodeId := by
  cases h with
  | unplaced => exact hbusy
  | refused _ _ _ _ hworkers =>
    unfold NoIdleWorker
    rw [hworkers]
    exact hbusy
  | placed _ _ _ _ _ _ _ hworkers =>
    refine hworkers.forall_mem ?_ ?_
    . intro _ hidle
      contradiction
    . intro row hrow _
      exact hbusy row hrow

end visited

inductive Chain (listing : Env) : List Node → DB → List Visit → DB → Prop where
  | done {nodes : List Node} {db : DB} : Chain listing nodes db [] db
  | next {nodes nodes' : List Node} {db db1 db' : DB} {job : Job} {now : NodeId → Time}
    {visits : List Visit} (hsnapshot : Snapshot listing db nodes)
    (hjob : db.jobs.get? job.id = some job) (hqueued : job.status = .queued)
    (hvisited : Visited now nodes job db (.ok nodes') db1)
    (hrest : Chain listing nodes' db1 visits db')
    : Chain listing nodes db (⟨job, nodes, now, db⟩ :: visits) db'
  | stop {nodes : List Node} {db db' : DB} {job : Job} {now : NodeId → Time} {e : Err}
    (hsnapshot : Snapshot listing db nodes)
    (hjob : db.jobs.get? job.id = some job) (hqueued : job.status = .queued)
    (hvisited : Visited now nodes job db (.error e) db')
    : Chain listing nodes db [⟨job, nodes, now, db⟩] db'

theorem Loop.chain {nodes : List Node} {jobs : List Job} {visits : List Visit}
    {r : Except Err (List Node)} (h : Loop H nodes jobs db visits r db') (hschema : Schema db)
    (hsnapshot : Snapshot listing db nodes) (hpending : Pending db jobs)
    : Chain listing nodes db visits db' := by
  induction h with
  | done => exact .done
  | @next nodes nodes' job jobs db db1 db' env visits r henv hplace hrest ih =>
    have hjob := hpending.stored job List.mem_cons_self
    have hqueued := hpending.queued job List.mem_cons_self
    have hwp := wp_place (I := fun _ => True) (H := H) (G := lawful 0) hschema
      (fun _ _ _ => Nat.zero_le _) env.nowFor hsnapshot.upToDate hjob hqueued (fun _ _ _ _ => trivial)
    have hvisited := hplace.of_wp hwp
    have hschema1 : Schema db1 :=
      hplace.of_wp (wp_of_schema hschema (wp_mono hwp (fun _ _ _ h => h)))
    refine .next hsnapshot hjob hqueued hvisited (ih hschema1 ?_ ?_)
    . exact hvisited.snapshot hsnapshot
    . exact hpending.tail (fun _ hid => hvisited.get?_job hid)
  | @stop nodes job jobs db db' env e henv hplace =>
    have hjob := hpending.stored job List.mem_cons_self
    have hqueued := hpending.queued job List.mem_cons_self
    have hvisited := hplace.of_wp
      (wp_place (I := fun _ => True) (G := lawful 0) hschema (fun _ _ _ => Nat.zero_le _) env.nowFor
        hsnapshot.upToDate hjob hqueued (fun _ _ _ _ => trivial))
    exact .stop hsnapshot hjob hqueued hvisited

theorem Loop.map_job_visited {nodes : List Node} {jobs : List Job} {visits : List Visit}
    {r : Except Err (List Node)} (h : Loop H nodes jobs db visits r db')
    : (visits.map (·.job)) <+: jobs ∧ (∀ nodes', r = .ok nodes' → visits.map (·.job) = jobs) := by
  induction h with
  | done => exact ⟨List.prefix_refl _, fun _ _ => rfl⟩
  | next _ _ _ ih =>
    refine ⟨(List.prefix_cons_inj _).mpr ih.left, ?_⟩
    intro nodes' hr
    rw [List.map_cons, ih.right nodes' hr]
  | stop =>
    refine ⟨(List.prefix_cons_inj _).mpr (List.nil_prefix), ?_⟩
    intro nodes' hr
    contradiction

namespace Chain

variable {nodes : List Node} {visits : List Visit}

theorem get?_job (h : Chain listing nodes db visits db') {id : JobId}
    (hid : id ∉ visits.map (·.job.id)) : db'.jobs.get? id = db.jobs.get? id := by
  induction h with
  | done => rfl
  | next _ _ _ hvisited _ ih =>
    rw [List.map_cons, List.mem_cons, not_or] at hid
    rw [ih hid.right, hvisited.get?_job hid.left]
  | stop _ _ _ hvisited =>
    rw [List.map_cons, List.mem_cons, not_or] at hid
    exact hvisited.get?_job hid.left

theorem noIdleWorker (h : Chain listing nodes db visits db') {nodeId : NodeId}
    (hbusy : NoIdleWorker db nodeId) : ∀ v ∈ visits, NoIdleWorker v.before nodeId := by
  induction h with
  | done =>
    intro v hv
    contradiction
  | next _ _ _ hvisited _ ih =>
    intro v hv
    cases List.mem_cons.mp hv with
    | inl heq =>
      subst heq
      exact hbusy
    | inr hv => exact ih (hvisited.noIdleWorker hbusy) v hv
  | stop =>
    intro v hv
    rw [List.mem_singleton] at hv
    subst hv
    exact hbusy

theorem exists_visited (h : Chain listing nodes db visits db')
    (hnodup : (visits.map (·.job.id)).Nodup)
    : ∀ v ∈ visits, Snapshot listing v.before v.nodes
        ∧ v.before.jobs.get? v.job.id = some v.job
        ∧ v.job.status = .queued
        ∧ ∃ r db1, Visited v.now v.nodes v.job v.before r db1
          ∧ db'.jobs.get? v.job.id = db1.jobs.get? v.job.id := by
  induction h with
  | done =>
    intro v hv
    contradiction
  | next hsnapshot hjob hqueued hvisited hrest ih =>
    rw [List.map_cons, List.nodup_cons] at hnodup
    intro v hv
    cases List.mem_cons.mp hv with
    | inl heq =>
      subst heq
      exact ⟨hsnapshot, hjob, hqueued, _, _, hvisited, hrest.get?_job hnodup.left⟩
    | inr hv => exact ih hnodup.right v hv
  | stop hsnapshot hjob hqueued hvisited =>
    intro v hv
    rw [List.mem_singleton] at hv
    subst hv
    exact ⟨hsnapshot, hjob, hqueued, _, _, hvisited, rfl⟩

end Chain

namespace Visit

def Eligible (listing : Env) (v : Visit) (node : Node) : Prop :=
  node ∈ v.before.nodes.rows
    ∧ node.isAlive (listing.nowFor node.id)
    ∧ Scheduler.isCandidate (v.now node.id) v.job node

def picked (v : Visit) : Option Node :=
  Scheduler.selectNode v.now v.job v.nodes

def LeftQueued (db : DB) (v : Visit) : Prop :=
  ∃ job, db.jobs.get? v.job.id = some job ∧ job.status = .queued

def GivenNode (db : DB) (v : Visit) (nodeId : NodeId) : Prop :=
  ∃ job, db.jobs.get? v.job.id = some job
    ∧ job.status = .scheduled
    ∧ job.assignedNodeId = some nodeId

def HasIdleWorker (v : Visit) (nodeId : NodeId) : Prop :=
  ∃ row ∈ v.before.workers.rows, row.nodeId = nodeId ∧ row.status = .idle

variable {v : Visit} {node : Node}

theorem mem_nodes_iff (h : Snapshot listing v.before v.nodes)
    : node ∈ v.nodes ∧ Scheduler.isCandidate (v.now node.id) v.job node
        ↔
      v.Eligible listing node := by
  unfold Eligible
  rw [h node, Scheduler.isCandidate_iff]
  constructor
  . intro ⟨⟨hmem, _, halive⟩, hcandidate⟩
    exact ⟨hmem, halive, hcandidate⟩
  . intro ⟨hmem, halive, hcandidate⟩
    exact ⟨⟨hmem, hcandidate.right.right.left, halive⟩, hcandidate⟩

theorem picked_eq_none_iff (h : Snapshot listing v.before v.nodes)
    : v.picked = none ↔ ∀ node, ¬v.Eligible listing node := by
  unfold picked
  rw [Scheduler.selectNode_eq_none_iff]
  constructor
  . intro hnone node heligible
    rw [← mem_nodes_iff h] at heligible
    rw [hnone node heligible.left] at heligible
    exact Bool.false_ne_true heligible.right
  . intro hnone node hnode
    rw [Bool.eq_false_iff]
    intro hcandidate
    exact hnone node ((mem_nodes_iff h).mp ⟨hnode, hcandidate⟩)

theorem picked_eq_some (h : Snapshot listing v.before v.nodes) (hpicked : v.picked = some node)
    : v.Eligible listing node
        ∧ ∀ other, v.Eligible listing other →
          Scheduler.fitScore v.job node ≤ Scheduler.fitScore v.job other := by
  unfold picked at hpicked
  refine ⟨(mem_nodes_iff h).mp (Scheduler.selectNode_eq_some hpicked), ?_⟩
  intro other hother
  rw [← mem_nodes_iff h] at hother
  apply List.le_of_mem_argmin _ hpicked
  rw [List.mem_filter]
  exact hother

end Visit

namespace Chain

variable {nodes : List Node} {visits : List Visit}

theorem leftQueued (h : Chain listing nodes db visits db') (hnodup : (visits.map (·.job.id)).Nodup)
    {v : Visit} (hv : v ∈ visits) (hleft : v.LeftQueued db')
    : v.picked = none ∨ ∃ node, v.picked = some node ∧ NoIdleWorker v.before node.id := by
  have ⟨_, _, _, r, db1, hvisited, hget⟩ := h.exists_visited hnodup v hv
  have ⟨job, hjob, hqueued⟩ := hleft
  rw [hget] at hjob
  have hscheduled : ∀ node : Node, v.before.jobs.Puts (scheduledOn v.job node.id) db1.jobs → False := by
    intro node hjobs
    have := hjobs.get?_self.symm.trans hjob
    injection this with this
    rw [← this] at hqueued
    contradiction
  cases hvisited with
  | unplaced hselect => exact .inl hselect
  | @refused _ node hselect hbusy => exact .inr ⟨node, hselect, hbusy⟩
  | @placed _ node _ _ _ _ _ _ _ _ _ hjobs => exact (hscheduled node hjobs).elim
  | @blocked _ node _ _ _ _ _ _ _ hjobs => exact (hscheduled node hjobs).elim

theorem givenNode (h : Chain listing nodes db visits db') (hnodup : (visits.map (·.job.id)).Nodup)
    {v : Visit} (hv : v ∈ visits) {nodeId : NodeId} (hgiven : v.GivenNode db' nodeId)
    : v.HasIdleWorker nodeId := by
  have ⟨_, hstored, hqueued, r, db1, hvisited, hget⟩ := h.exists_visited hnodup v hv
  have ⟨job, hjob, hscheduled, hassigned⟩ := hgiven
  rw [hget] at hjob
  have hidle : ∀ (node : Node) (worker : Worker),
      v.before.jobs.Puts (scheduledOn v.job node.id) db1.jobs →
      v.before.workers.get? worker.id = some worker.toRow → worker.isIdle →
      worker.node.id = node.id → v.HasIdleWorker nodeId := by
    intro node worker hjobs hworker hidle hon
    have := hjobs.get?_self.symm.trans hjob
    injection this with this
    rw [← this] at hassigned
    injection hassigned with hassigned
    exact ⟨worker.toRow, Table.mem_of_get? hworker, hon.trans hassigned, of_decide_eq_true hidle⟩
  cases hvisited with
  | unplaced =>
    rw [hstored] at hjob
    injection hjob with hjob
    rw [← hjob, hqueued] at hscheduled
    contradiction
  | refused _ _ _ hjobs =>
    have := hjobs.get?_self.symm.trans hjob
    injection this with this
    rw [← this] at hscheduled
    contradiction
  | @placed _ node _ worker _ _ _ hworker hidle' hon _ hjobs =>
    exact hidle node worker hjobs hworker hidle' hon
  | @blocked _ node worker _ _ hworker hidle' hon _ hjobs =>
    exact hidle node worker hjobs hworker hidle' hon

theorem pairwise_not_givenNode (h : Chain listing nodes db visits db')
    (hnodup : (visits.map (·.job.id)).Nodup)
    : visits.Pairwise (fun a b => a.LeftQueued db' → ∀ node, a.picked = some node →
        ¬b.GivenNode db' node.id) := by
  induction h with
  | done => exact .nil
  | @next nodes nodes' db db1 db' job now visits hsnapshot hjob hqueued hvisited hrest ih =>
    have hchain := Chain.next hsnapshot hjob hqueued hvisited hrest
    have hnodup' := hnodup
    rw [List.map_cons, List.nodup_cons] at hnodup'
    refine .cons ?_ (ih hnodup'.right)
    intro b hb hleft node hpicked hgiven
    have hbusy : NoIdleWorker db node.id := by
      cases hchain.leftQueued hnodup List.mem_cons_self hleft with
      | inl hnone =>
        rw [hnone] at hpicked
        contradiction
      | inr hsome =>
        have ⟨node', hpicked', hbusy⟩ := hsome
        rw [hpicked'] at hpicked
        injection hpicked with hpicked
        rw [← hpicked]
        exact hbusy
    have ⟨row, hrow, hon, hidle⟩ := hrest.givenNode hnodup'.right hb hgiven
    exact hrest.noIdleWorker (hvisited.noIdleWorker hbusy) b hb row hrow hon hidle
  | stop => exact List.pairwise_singleton _ _

end Chain

theorem pairwise_inPriorityOrder (jobs : List Job)
    : (inPriorityOrder jobs).Pairwise (fun a b => b.priority ≤ a.priority) := by
  have htotal : Std.Total (fun a b : Job => b.priority ≤ a.priority) :=
    ⟨fun a b => Int.le_total b.priority a.priority⟩
  have htrans : IsTrans Job (fun a b => b.priority ≤ a.priority) :=
    ⟨fun _ _ _ hab hbc => Int.le_trans hbc hab⟩
  exact List.pairwise_insertionSort _ _

theorem execute_best_fit {r : Except Err Unit} (hschema : Schema db)
    (hruns : Runs postgres H execute db r db')
    : ∃ listing order visits, Tick H listing order db visits r db'
        ∧ (r = .ok () → ∀ job ∈ db.jobs.rows, job.status = .queued → ∃ v ∈ visits, v.job = job)
        ∧ visits.Pairwise (fun a b => b.job.priority ≤ a.job.priority)
        ∧ (∀ v ∈ visits, v.LeftQueued db' →
          (∀ node, ¬v.Eligible listing node)
            ∨ ∃ node, v.picked = some node
              ∧ v.Eligible listing node
              ∧ (∀ other, v.Eligible listing other →
                Scheduler.fitScore v.job node ≤ Scheduler.fitScore v.job other)
              ∧ ¬v.HasIdleWorker node.id)
        ∧ visits.Pairwise (fun a b => a.LeftQueued db' → ∀ node, a.picked = some node →
          ¬b.GivenNode db' node.id) := by
  have ⟨listing, order, visits, htick⟩ := exists_tick hruns
  have ⟨nodes, hloop, hr⟩ := htick.loop
  have hpending := pending_inPriorityOrder order db
  have hchain := hloop.chain hschema (snapshot_listAvailable listing db) hpending
  have ⟨hvisited, hall⟩ := hloop.map_job_visited
  have hnodup : (visits.map (·.job.id)).Nodup := by
    have := hpending.nodup.sublist (hvisited.sublist.map _)
    rw [List.map_map] at this
    exact this
  refine ⟨listing, order, visits, htick, ?_, ?_, ?_, hchain.pairwise_not_givenNode hnodup⟩
  . intro hok job hjob hqueued
    have ⟨nodes', hnodes'⟩ : ∃ nodes', nodes = .ok nodes' := by
      cases nodes with
      | ok nodes' => exact ⟨nodes', rfl⟩
      | error e =>
        rw [hok] at hr
        contradiction
    have hmem : job ∈ visits.map (·.job) := by
      rw [hall nodes' hnodes']
      unfold inPriorityOrder
      rw [(List.perm_insertionSort _ _).mem_iff, List.mem_filter]
      exact ⟨(order.jobOrder.hperm _).mem_iff.mpr hjob, decide_eq_true hqueued⟩
    exact List.mem_map.mp hmem
  . have := (pairwise_inPriorityOrder _).sublist hvisited.sublist
    exact List.pairwise_map.mp this
  . intro v hv hleft
    have ⟨hsnapshot, _⟩ := hchain.exists_visited hnodup v hv
    cases hchain.leftQueued hnodup hv hleft with
    | inl hnone => exact .inl ((Visit.picked_eq_none_iff hsnapshot).mp hnone)
    | inr hsome =>
      have ⟨node, hpicked, hbusy⟩ := hsome
      have ⟨heligible, hbest⟩ := Visit.picked_eq_some hsnapshot hpicked
      refine .inr ⟨node, hpicked, heligible, hbest, ?_⟩
      intro ⟨row, hrow, hon, hidle⟩
      exact hbusy row hrow hon hidle

theorem Loop.visits_eq {nodes : List Node} {job : Job} {visits : List Visit}
    {r : Except Err (List Node)} (h : Loop H nodes [job] db visits r db')
    : ∃ env, H env ∧ visits = [⟨job, nodes, env.nowFor, db⟩] := by
  cases h with
  | @next _ _ _ _ _ _ _ env _ _ henv _ hrest =>
    cases hrest
    exact ⟨env, henv, rfl⟩
  | @stop _ _ _ _ _ env _ henv => exact ⟨env, henv, rfl⟩

def clock (now : Time) : Env :=
  { now := now }

def tight : Node := Node.register ⟨0⟩ ⟨1, 1, 0⟩ ⟨0⟩ none "tight" 0

def roomy : Node := Node.register ⟨1⟩ ⟨8, 8192, 0⟩ ⟨0⟩ none "roomy" 0

def smallJob : Job where
  id := ⟨3⟩
  resources := ⟨1, 1, 0⟩
  tenantId := ⟨0⟩
  status := .queued
  submittedAt := 0
  hcpu := Nat.one_pos
  hmemory := Nat.one_pos

def tightNode : DB :=
  { DB.empty with
    nodes := (DB.empty.nodes.upsert tight).upsert roomy
    jobs := DB.empty.jobs.upsert smallJob
    workers := DB.empty.workers.upsert ⟨⟨2⟩, roomy.id, ⟨0⟩, .idle, .agent, none, 0⟩
    nextId := 4 }

theorem leftQueued_tightNode
    : Schema tightNode
        ∧ ∃ listing order visits db',
          Tick (fun env => env = clock 0) listing order tightNode visits (.ok ()) db'
            ∧ ∃ v ∈ visits, v.LeftQueued db'
              ∧ ∃ node, v.Eligible listing node ∧ v.HasIdleWorker node.id := by
  refine ⟨by decide +kernel, ?_⟩
  have hruns := runs_eval (M := postgres) (H := fun env => env = clock 0) rfl execute tightNode
  have hok : (eval postgres (clock 0) execute tightNode).1 = .ok () := by decide +kernel
  have hqueued : ((eval postgres (clock 0) execute tightNode).2.jobs.get? smallJob.id).any
      (·.status = .queued) = true := by decide +kernel
  rw [hok] at hruns
  have ⟨listing, order, visits, htick⟩ := exists_tick hruns
  refine ⟨listing, order, visits, _, htick, ?_⟩
  have ⟨hlisting, horder, nodes, hloop, _⟩ := htick
  subst hlisting horder
  -- there is one job, and it is considered in the stores the tick began with
  have hjobs : inPriorityOrder (PostgresJobRepository.listAcrossTenants (clock 0) tightNode)
      = [smallJob] := by decide +kernel
  rw [hjobs] at hloop
  have ⟨env, henv, hvisits⟩ := hloop.visits_eq
  subst henv hvisits
  refine ⟨_, List.mem_singleton_self _, ?_, roomy, ⟨?_, ?_, ?_⟩, ?_⟩
  . have ⟨job, hjob, hstatus⟩ := (Option.any_eq_true _ _).mp hqueued
    exact ⟨job, hjob, of_decide_eq_true hstatus⟩
  . have : roomy ∈ tightNode.nodes.rows := by decide +kernel
    exact this
  . have : roomy.isAlive 0 := by decide
    exact this
  . have : Scheduler.isCandidate 0 smallJob roomy := by decide
    exact this
  . have : ∃ row ∈ tightNode.workers.rows, row.nodeId = roomy.id ∧ row.status = .idle := by
      decide +kernel
    exact this

theorem execute_best_fit_tightNode
    : Schema tightNode
        ∧ ∃ listing order visits, Tick (fun env => env = clock 0) listing order tightNode visits
            (eval postgres (clock 0) execute tightNode).1 (eval postgres (clock 0) execute tightNode).2
          ∧ visits.Pairwise (fun a b => b.job.priority ≤ a.job.priority) := by
  have hschema : Schema tightNode := by decide +kernel
  have hruns := runs_eval (M := postgres) (H := fun env => env = clock 0) rfl execute tightNode
  have ⟨listing, order, visits, htick, _, hpriority, _⟩ := execute_best_fit hschema hruns
  exact ⟨hschema, listing, order, visits, htick, hpriority⟩

end SchedulerLoop

end AetherGrid
