import AetherGrid.Http.Routes
import AetherGrid.Cluster.System

/-!
This module contains what the numbers of the cluster's overview mean in the states a cluster can reach.
-/

namespace AetherGrid

namespace Http

def leasedDemand (db : DB) (tenantId : TenantId) : ResourceRequirements :=
  db.jobs.sum (fun job =>
    if job.tenantId = tenantId ∧ Leased db job.id then job.resources else 0)

section

variable {db : DB} {tenantId : TenantId}

theorem sum_demand (h : Inv db) {job : Job} (hjob : job ∈ db.jobs.rows)
    : (db.nodes.filter (·.tenantId = tenantId)).sum (fun node => demand db node.id job)
        = if job.tenantId = tenantId ∧ Leased db job.id then job.resources else 0 := by
  rw [Table.sum_eq_sum_keys]
  by_cases hleased : Leased db job.id
  . obtain ⟨lease, hlease, hjobId⟩ := hleased
    obtain ⟨row, job', hheld⟩ := h.held lease hlease
    have heq : job' = job := by
      have hget := hheld.hjob
      rw [hjobId, db.jobs.get?_key_of_mem hjob] at hget
      exact (Option.some.inj hget).symm
    subst heq
    have hnode := h.schema.jobNode job' hjob
    unfold PostgresJobRepository.assignedNodeSameTenant at hnode
    rw [hheld.assigned, Option.all_some, Option.any_eq_true] at hnode
    obtain ⟨node, hget, htenant⟩ := hnode
    have htenant : node.tenantId = job'.tenantId := of_decide_eq_true htenant
    rw [Finset.sum_eq_single row.nodeId]
    . unfold Table.weight demand
      rw [Table.get?_filter, hget, Option.filter_some, htenant, hheld.assigned]
      have hleased : Leased db job'.id := ⟨lease, hlease, hjobId⟩
      by_cases hsame : job'.tenantId = tenantId <;>
        simp [hsame, hleased, Table.key_of_get? hget]
    . intro nodeId _ hne
      unfold Table.weight demand
      cases hother : (db.nodes.filter (·.tenantId = tenantId)).get? nodeId with
      | none => rfl
      | some other =>
        have hid : other.id = nodeId := Table.key_of_get? hother
        simp [hheld.assigned, hid, Ne.symm hne]
    . intro hkey
      exact Table.weight_of_not_mem_keys hkey
  . rw [if_neg (fun hboth => hleased hboth.right)]
    apply Finset.sum_eq_zero
    intro nodeId _
    unfold Table.weight demand
    cases (db.nodes.filter (·.tenantId = tenantId)).get? nodeId <;> simp [hleased]

theorem sum_used (h : Inv db)
    : (db.nodes.filter (·.tenantId = tenantId)).sum (fun node => used db node.id)
        = leasedDemand db tenantId := by
  have hswap := Multiset.sum_map_sum_map (db.nodes.filter (·.tenantId = tenantId)).rows db.jobs.rows
    (f := fun (node : Node) (job : Job) => demand db node.id job)
  simp only [Multiset.map_coe, Multiset.sum_coe] at hswap
  unfold leasedDemand
  refine Eq.trans hswap ?_
  unfold Table.sum
  congr 1
  apply List.map_congr_left
  intro job hjob
  exact sum_demand h hjob

theorem sum_list (env : QueryEnv) (f : Node → ResourceRequirements)
    : ((PostgresNodeRepository.list env.toEnv db tenantId).map f).sum
        = (db.nodes.filter (·.tenantId = tenantId)).sum f :=
  ((env.nodeOrder.hperm _).map f).sum_eq

end

theorem utilization_eq_demand {c : Cluster} (h : Reachable anyCall c) (caller : ApiKey) (env : QueryEnv)
    : Cluster.getClusterUtilization caller env c.db
          = .clusterResources (leasedDemand c.db caller.tenantId)
        ∧ ∃ free, Cluster.getClusterCapacity caller env c.db = .clusterResources free
          ∧ free + leasedDemand c.db caller.tenantId
            = (c.db.nodes.filter (·.tenantId = caller.tenantId)).sum (·.capacity) := by
  have hinv := h.ordered.inv
  have hconserved : ∀ node ∈ (c.db.nodes.filter (·.tenantId = caller.tenantId)).rows,
      node.available + used c.db node.id = node.capacity :=
    fun node hnode => hinv.conserved node (List.mem_of_mem_filter hnode)
  refine ⟨?_, _, rfl, ?_⟩
  . unfold Cluster.getClusterUtilization
    dsimp only
    rw [sum_list, ← sum_used hinv]
    unfold Table.sum
    congr 2
    apply List.map_congr_left
    intro node hnode
    rw [← hconserved node hnode]
    ext <;> simp
  . rw [sum_list, ← sum_used hinv]
    unfold Table.sum
    rw [← List.sum_map_add]
    congr 1
    exact List.map_congr_left hconserved

theorem utilization_eq_demand_oneRunningJob
    : Reachable anyCall ⟨replay oneRunningJob DB.empty, []⟩
        ∧ ∀ (caller : ApiKey) (env : QueryEnv), caller.tenantId = ⟨0⟩ →
          Cluster.getClusterUtilization caller env (replay oneRunningJob DB.empty)
            = .clusterResources ⟨1, 1024, 0⟩ := by
  refine ⟨reachable_oneRunningJob, ?_⟩
  intro caller env hcaller
  have hdemand : leasedDemand (replay oneRunningJob DB.empty) ⟨0⟩ = ⟨1, 1024, 0⟩ := by
    decide +kernel
  rw [(utilization_eq_demand reachable_oneRunningJob caller env).left, hcaller]
  exact congrArg _ hdemand

end Http

end AetherGrid
