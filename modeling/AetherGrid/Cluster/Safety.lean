import AetherGrid.Cluster.System

/-!
This module contains what holds in every state a cluster can reach: the books of every node balance,
jobs are owned exclusively, and active jobs have an owner as long as only vacant nodes are removed.
-/

namespace AetherGrid

open Prog

instance (db : DB) (id : JobId) : Decidable (Stranded db id) :=
  decidable_of_iff ((db.jobs.get? id).any (fun job => job.status.isActive ∧ ¬Leased db id) = true) <| by
    simp [Stranded, Option.any_eq_true]

namespace Reachable

variable {P : DB → ServiceCall → Prop} {c : Cluster}

theorem mono {P' : DB → ServiceCall → Prop} (h : Reachable P c) (hsub : ∀ db call, P db call → P' db call)
    : Reachable P' c := by
  induction h with
  | init hdb => exact .init hdb
  | step _ hstep ih =>
    refine ih.step ?_
    cases hstep with
    | service call hcall hruns => exact .service call (hsub _ call hcall) hruns
    | begin workerId hruns => exact .begin workerId hruns
    | beginNothing workerId hruns hnothing => exact .beginNothing workerId hruns hnothing
    | keepLeaseAlive hexecution hruns => exact .keepLeaseAlive hexecution hruns
    | keepLeaseAliveError hexecution hruns => exact .keepLeaseAliveError hexecution hruns
    | finish result hexecution hruns => exact .finish result hexecution hruns

theorem tick_ok [Releasing] (h : Reachable P c) {r : Except Err Unit} {db : DB}
    (hruns : Runs postgres anyClock SchedulerLoop.execute c.db r db) : r = .ok () :=
  (hruns.of_wp (SchedulerLoop.wp_execute (G := lawful 0) h.ordered.inv (fun _ _ _ => Nat.zero_le _))).left

theorem release_exact [Releasing] (h : Reachable P c) {job : Job} {node : Node}
    (hjob : c.db.jobs.get? job.id = some job) (hleased : Leased c.db job.id)
    (hnode : c.db.nodes.get? node.id = some node) (hassigned : job.assignedNodeId = some node.id)
    : (node.release job.resources).available = node.available + job.resources := by
  have hinv := h.ordered.inv
  have ⟨lease, hlease, hid⟩ := hleased
  have ⟨row, stored, hheld⟩ := hinv.held lease hlease
  have heq : stored = job := by
    have := hheld.hjob
    rw [hid, hjob] at this
    injection this with this
    exact this.symm
  subst heq
  have hnodeId : row.nodeId = node.id := by
    have := hheld.assigned.symm.trans hassigned
    injection this
  apply Node.release_available
  apply hinv.fits hlease hheld
  rw [hnodeId]
  exact hnode

theorem capacity_conserved [Releasing] (h : Reachable anyCall c)
    : (∀ node ∈ c.db.nodes.rows, node.available + used c.db node.id = node.capacity)
        ∧ (∀ job ∈ c.db.jobs.rows, ∀ node ∈ c.db.nodes.rows,
          Leased c.db job.id → job.assignedNodeId = some node.id →
          (node.release job.resources).available = node.available + job.resources)
        ∧ ∀ r db, Runs postgres anyClock SchedulerLoop.execute c.db r db → r = .ok () := by
  refine ⟨h.ordered.inv.conserved, ?_, ?_⟩
  . intro job hjob node hnode hleased hassigned
    exact h.release_exact (c.db.jobs.get?_key_of_mem hjob) hleased
      (c.db.nodes.get?_key_of_mem hnode) hassigned
  . intro r db hruns
    exact h.tick_ok hruns

theorem capacity_conserved_oneRunningJob
    : Reachable anyCall ⟨replay oneRunningJob DB.empty, []⟩
        ∧ ∀ node ∈ (replay oneRunningJob DB.empty).nodes.rows,
          node.available + used (replay oneRunningJob DB.empty) node.id = node.capacity :=
  ⟨reachable_oneRunningJob, (capacity_conserved reachable_oneRunningJob).left⟩

theorem running_iff_leased (h : Reachable P c) (workerId : WorkerId) (jobId : JobId)
    : (∃ lease ∈ c.db.leases.rows, lease.workerId = workerId ∧ lease.jobId = jobId)
        ↔
      ∃ row, c.db.workers.get? workerId = some row ∧ row.runningJobId = some jobId := by
  have hinv := h.ordered.inv
  constructor
  . intro ⟨lease, hlease, hworker, hjob⟩
    have ⟨row, _, hheld⟩ := hinv.held lease hlease
    rw [← hworker, ← hjob]
    exact ⟨row, hheld.hrow, hheld.running⟩
  . intro ⟨row, hrow, hrunning⟩
    rw [← Table.key_of_get? hrow]
    exact hinv.running row (Table.mem_of_get? hrow) jobId hrunning

theorem ownership_exclusive (h : Reachable anyCall c)
    : (∀ workerId jobId,
        (∃ lease ∈ c.db.leases.rows, lease.workerId = workerId ∧ lease.jobId = jobId)
          ↔
        ∃ row, c.db.workers.get? workerId = some row ∧ row.runningJobId = some jobId)
        ∧ (∀ a ∈ c.db.leases.rows, ∀ b ∈ c.db.leases.rows,
          a.workerId = b.workerId ∨ a.jobId = b.jobId → a = b)
        ∧ (∀ row ∈ c.db.workers.rows, row.status = .idle → row.runningJobId = none)
        ∧ (∀ job ∈ c.db.jobs.rows,
          job.status = .queued ∨ job.status = .failed ∨ job.status = .completed →
          ¬Leased c.db job.id)
        ∧ ∀ r db, Runs postgres anyClock SchedulerLoop.execute c.db r db → r = .ok () := by
  have hinv := h.ordered.inv
  refine ⟨h.running_iff_leased, ?_, hinv.idle, ?_, ?_⟩
  . intro a ha b hb hor
    cases hor with
    | inl hworker => exact hinv.schema.uniqueWorker a ha b hb hworker
    | inr hjob => exact hinv.schema.uniqueJob a ha b hb hjob
  . intro job hjob hstatus
    apply hinv.not_leased (c.db.jobs.get?_key_of_mem hjob)
    rcases hstatus with hstatus | hstatus | hstatus
    all_goals
      rw [hstatus]
      rfl
  . intro r db hruns
    exact h.tick_ok hruns

theorem ownership_exclusive_oneRunningJob
    : Reachable anyCall ⟨replay oneRunningJob DB.empty, []⟩
        ∧ ∀ row ∈ (replay oneRunningJob DB.empty).workers.rows,
          row.status = .idle → row.runningJobId = none :=
  ⟨reachable_oneRunningJob, (ownership_exclusive reachable_oneRunningJob).right.right.left⟩

def fitsColumns (call : ServiceCall) : Prop :=
  match call with
  | .report _ _ _ _ _ (some exitCode) => -2 ^ 31 ≤ exitCode ∧ exitCode < 2 ^ 31
  | _ => True

def removesVacantOnly (db : DB) (call : ServiceCall) : Prop :=
  removesVacant db call ∧ fitsColumns call

def removedUnderJob : List (Env × ServiceCall) :=
  oneRunningJob ++ [({ now := seconds 61 }, .removeOfflineNode ⟨0⟩ ⟨0⟩)]

theorem stranded_removedUnderJob
    : Reachable anyCall ⟨replay removedUnderJob DB.empty, []⟩
        ∧ Stranded (replay removedUnderJob DB.empty) ⟨1⟩ := by
  constructor
  . apply reachable_replay
    . exact .init pristine_empty
    . intro db call _
      trivial
  . decide +kernel

theorem active_leased (h : Reachable removesVacantOnly c)
    : ∀ job ∈ c.db.jobs.rows, job.status.isActive → Leased c.db job.id := by
  have h : Reachable removesVacant c := h.mono (fun _ _ hcall => hcall.left)
  intro job hjob hactive
  by_cases hleased : Leased c.db job.id
  . exact hleased
  . have := h.not_stranded job.id
    exact absurd ⟨job, c.db.jobs.get?_key_of_mem hjob, hactive, hleased⟩ this

def spareNode : List (Env × ServiceCall) :=
  oneRunningJob ++ [({ now := 0 }, .createNode ⟨2, 2048, 0⟩ ⟨0⟩ none)]

def spareNodeRemoved : DB :=
  (eval postgres { now := seconds 61 } (removeOfflineNode ⟨8⟩ ⟨0⟩) (replay spareNode DB.empty)).2

theorem active_leased_spareNodeRemoved
    : Reachable removesVacantOnly ⟨spareNodeRemoved, []⟩
        ∧ ∀ job ∈ spareNodeRemoved.jobs.rows, job.status.isActive → Leased spareNodeRemoved job.id := by
  have hspare : Reachable removesVacantOnly ⟨replay spareNode DB.empty, []⟩ := by
    apply reachable_replay
    . exact .init pristine_empty
    . intro db call hcall
      fin_cases hcall <;> exact ⟨trivial, trivial⟩
  have hvacant : Vacant (replay spareNode DB.empty) ⟨8⟩ := by decide +kernel
  have hremoved : Reachable removesVacantOnly ⟨spareNodeRemoved, []⟩ :=
    hspare.step (.service (.removeOfflineNode ⟨8⟩ ⟨0⟩) ⟨hvacant, trivial⟩ (runs_eval trivial _ _))
  exact ⟨hremoved, active_leased hremoved⟩

end Reachable

end AetherGrid
