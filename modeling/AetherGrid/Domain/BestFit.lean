import AetherGrid.Domain.Scheduler

/-!
This module contains the choice of `Scheduler.select_node` in exact arithmetic and in full: the divisions of
the fit score, the loop of `min` over the candidates, and what the chosen node is among the nodes of the list.
-/

namespace AetherGrid

namespace Scheduler

-- `none` stands for the `ZeroDivisionError` a division by zero raises
def tightness? (requested available capacity : Nat) : Option ℚ :=
  if 0 < requested then
    if capacity = 0 then none else some (((available : ℚ) - requested) / capacity)
  else
    some 0

def fitScore? (job : Job) (node : Node) : Option ℚ := do
  let cpu ← tightness? job.resources.cpuCores node.available.cpuCores node.capacity.cpuCores
  let memory ← tightness? job.resources.memoryMib node.available.memoryMib node.capacity.memoryMib
  let vram ← tightness? job.resources.vramMib node.available.vramMib node.capacity.vramMib
  return cpu + memory + vram

def minByScore (job : Job) (best : Node) (bestScore : ℚ) (nodes : List Node) : Option Node :=
  match nodes with
  | [] => some best
  | node :: nodes => do
    let score ← fitScore? job node
    if score < bestScore then
      minByScore job node score nodes
    else
      minByScore job best bestScore nodes

def selectNode? (now : NodeId → Time) (job : Job) (nodes : List Node) : Option (Option Node) :=
  match nodes.filter (fun node => isCandidate (now node.id) job node) with
  | [] => some none
  | first :: candidates => do
    let score ← fitScore? job first
    let node ← minByScore job first score candidates
    return some node

def Eligible (now : Time) (job : Job) (node : Node) : Prop :=
  node.tenantId = job.tenantId
    ∧ node.isAlive now
    ∧ node.draining = false
    ∧ (∀ key value, (key, value) ∈ job.constraints → node.labels.lookup key = some value)
    ∧ job.resources ≤ node.available

def tightness (requested available capacity : Nat) : ℚ :=
  if 0 < requested then ((available : ℚ) - requested) / capacity else 0

theorem addTightness_id (requested available capacity : Nat) (score : ℚ)
    : addTightness id requested available capacity score = score + tightness requested available capacity := by
  unfold addTightness tightness
  split
  . rfl
  . rw [add_zero]

theorem fitScoreIn_id (job : Job) (node : Node)
    : fitScoreIn id job node
        =
      tightness job.resources.cpuCores node.available.cpuCores node.capacity.cpuCores
        + tightness job.resources.memoryMib node.available.memoryMib node.capacity.memoryMib
        + tightness job.resources.vramMib node.available.vramMib node.capacity.vramMib := by
  simp only [fitScoreIn, addTightness_id, zero_add]

theorem isCandidate_iff_eligible (now : Time) (job : Job) (node : Node)
    : isCandidate now job node ↔ Eligible now job node := by
  rw [isCandidate_iff, Node.canHost_iff]
  simp [Eligible, matchesConstraints]

theorem tightness?_eq {requested available capacity : Nat} (h : requested ≤ available)
    (h' : available ≤ capacity)
    : tightness? requested available capacity = some (tightness requested available capacity) := by
  unfold tightness? tightness
  split
  . rw [if_neg (by omega)]
  . rfl

theorem tightness_nonneg {requested available : Nat} (capacity : Nat) (h : requested ≤ available)
    : 0 ≤ tightness requested available capacity := by
  unfold tightness
  split
  . have : (requested : ℚ) ≤ available := by exact_mod_cast h
    apply div_nonneg
    . linarith
    . positivity
  . rfl

def requestedDimensions (resources : ResourceRequirements) : List Nat :=
  [resources.cpuCores, resources.memoryMib, resources.vramMib].filter (0 < ·)

theorem tightness_le (requested : Nat) {available capacity : Nat} (h : available ≤ capacity)
    : tightness requested available capacity ≤ if 0 < requested then 1 else 0 := by
  unfold tightness
  split
  . have : (available : ℚ) ≤ capacity := by exact_mod_cast h
    apply div_le_one_of_le₀
    . have : (0 : ℚ) ≤ requested := by positivity
      linarith
    . positivity
  . rfl

section eligible

variable {now : Time} {job : Job} {node : Node}

theorem Eligible.fitScore? (h : Eligible now job node)
    : Scheduler.fitScore? job node = some (fitScoreIn id job node) := by
  have ⟨_, _, _, _, hhost⟩ := h
  have havailable := node.havailable
  rw [ResourceRequirements.le_def] at hhost havailable
  unfold Scheduler.fitScore?
  rw [tightness?_eq hhost.1 havailable.1, tightness?_eq hhost.2.1 havailable.2.1,
    tightness?_eq hhost.2.2 havailable.2.2, fitScoreIn_id]
  rfl

theorem Eligible.fitScore_nonneg (h : Eligible now job node) : 0 ≤ fitScoreIn id job node := by
  have ⟨_, _, _, _, hhost⟩ := h
  rw [ResourceRequirements.le_def] at hhost
  rw [fitScoreIn_id]
  have hcpu := tightness_nonneg node.capacity.cpuCores hhost.1
  have hmemory := tightness_nonneg node.capacity.memoryMib hhost.2.1
  have hvram := tightness_nonneg node.capacity.vramMib hhost.2.2
  linarith

end eligible

theorem fitScore_le (job : Job) (node : Node)
    : fitScoreIn id job node ≤ (requestedDimensions job.resources).length := by
  have havailable := node.havailable
  rw [ResourceRequirements.le_def] at havailable
  have hcpu := tightness_le job.resources.cpuCores havailable.1
  have hmemory := tightness_le job.resources.memoryMib havailable.2.1
  have hvram := tightness_le job.resources.vramMib havailable.2.2
  have hlength : ((requestedDimensions job.resources).length : ℚ)
      = (if 0 < job.resources.cpuCores then 1 else 0)
        + (if 0 < job.resources.memoryMib then 1 else 0)
        + (if 0 < job.resources.vramMib then 1 else 0) := by
    unfold requestedDimensions
    simp only [List.filter_cons, List.filter_nil, decide_eq_true_eq]
    split <;> split <;> split <;> norm_num
  rw [hlength]
  rw [fitScoreIn_id]
  linarith

theorem minByScore_eq (job : Job) (nodes : List Node)
    (h : ∀ node ∈ nodes, fitScore? job node = some (fitScoreIn id job node)) (best : Node)
    : minByScore job best (fitScoreIn id job best) nodes = (best :: nodes).argmin (fitScoreIn id job) := by
  induction nodes generalizing best with
  | nil => rfl
  | cons node nodes ih =>
    have hrest := ih (fun node hnode => h node (List.mem_cons_of_mem _ hnode))
    unfold minByScore
    rw [h node List.mem_cons_self, Option.bind_eq_bind, Option.bind_some]
    -- `argmin` is a fold from the left as well, so it has made the same choice after two nodes
    have hargmin : (best :: node :: nodes).argmin (fitScoreIn id job)
        = ((if fitScoreIn id job node < fitScoreIn id job best then node else best) :: nodes).argmin
          (fitScoreIn id job) := by
      simp only [List.argmin, List.foldl_cons, List.argAux]
      split <;> rfl
    rw [hargmin]
    split
    . exact hrest node
    . exact hrest best

theorem selectNode?_eq (now : NodeId → Time) (job : Job) (nodes : List Node)
    : selectNode? now job nodes = some (selectNodeIn id now job nodes) := by
  have hscore : ∀ node ∈ nodes.filter (fun node => isCandidate (now node.id) job node),
      fitScore? job node = some (fitScoreIn id job node) := by
    intro node hnode
    have hcandidate := (List.mem_filter.mp hnode).right
    rw [isCandidate_iff_eligible] at hcandidate
    exact hcandidate.fitScore?
  unfold selectNode? selectNodeIn
  cases hcandidates : nodes.filter (fun node => isCandidate (now node.id) job node) with
  | nil => rfl
  | cons first candidates =>
    rw [hcandidates] at hscore
    dsimp only
    rw [hscore first List.mem_cons_self, Option.bind_eq_bind, Option.bind_some,
      minByScore_eq job candidates (fun node hnode => hscore node (List.mem_cons_of_mem _ hnode))]
    cases hargmin : (first :: candidates).argmin (fitScoreIn id job) with
    | none =>
      rw [List.argmin_eq_none] at hargmin
      contradiction
    | some node => rfl

section choice

variable {now : Time} {job : Job} {nodes : List Node} {node : Node}

theorem selectNode_split (h : selectNodeIn id (fun _ => now) job nodes = some node)
    : ∃ before after, nodes = before ++ node :: after
        ∧ (∀ other ∈ before, Eligible now job other → fitScoreIn id job node < fitScoreIn id job other)
        ∧ ∀ other ∈ after, Eligible now job other → fitScoreIn id job node ≤ fitScoreIn id job other := by
  have ⟨hmem, hcandidate⟩ := selectNodeIn_eq_some h
  have ⟨before, after, hsplit, hfirst⟩ := List.eq_append_cons_of_mem hmem
  have ⟨_, hmin, hindex⟩ := List.argmin_eq_some_iff.mp h
  refine ⟨before, after, hsplit, ?_, ?_⟩
  . intro other hother heligible
    rw [← isCandidate_iff_eligible] at heligible
    have hfiltered : other ∈ nodes.filter (fun node => isCandidate now job node) := by
      rw [List.mem_filter, hsplit]
      exact ⟨List.mem_append_left _ hother, heligible⟩
    by_contra hle
    have hle := hindex other hfiltered (not_lt.mp hle)
    -- a candidate before the chosen node has a smaller index among the candidates
    have hbefore : other ∈ before.filter (fun node => isCandidate now job node) := by
      rw [List.mem_filter]
      exact ⟨hother, heligible⟩
    have hfirst' : node ∉ before.filter (fun node => isCandidate now job node) :=
      fun hnode => hfirst (List.mem_of_mem_filter hnode)
    rw [hsplit, List.filter_append, List.idxOf_append_of_notMem hfirst',
      List.idxOf_append_of_mem hbefore] at hle
    have := List.idxOf_lt_length_iff.mpr hbefore
    omega
  . intro other hother heligible
    apply hmin other
    rw [List.mem_filter, hsplit, isCandidate_iff_eligible]
    exact ⟨List.mem_append_right _ (List.mem_cons_of_mem _ hother), heligible⟩

end choice

theorem selectNode_bestFit (now : Time) (job : Job) (nodes : List Node)
    : selectNode? (fun _ => now) job nodes = some (selectNodeIn id (fun _ => now) job nodes)
        ∧ (selectNodeIn id (fun _ => now) job nodes = none ↔ ∀ node ∈ nodes, ¬Eligible now job node)
        ∧ (∀ node, selectNodeIn id (fun _ => now) job nodes = some node →
            Eligible now job node
              ∧ (∃ before after, nodes = before ++ node :: after
                ∧ (∀ other ∈ before, Eligible now job other → fitScoreIn id job node < fitScoreIn id job other)
                ∧ ∀ other ∈ after, Eligible now job other → fitScoreIn id job node ≤ fitScoreIn id job other)
              ∧ 0 ≤ fitScoreIn id job node
              ∧ fitScoreIn id job node ≤ (requestedDimensions job.resources).length)
        ∧ ∀ nodes', nodes'.filter (fun node => isCandidate now job node)
            = nodes.filter (fun node => isCandidate now job node) →
          selectNodeIn id (fun _ => now) job nodes' = selectNodeIn id (fun _ => now) job nodes := by
  refine ⟨selectNode?_eq _ job nodes, ?_, ?_, ?_⟩
  . rw [selectNodeIn_eq_none_iff]
    simp only [← isCandidate_iff_eligible, Bool.not_eq_true]
  . intro node h
    have hcandidate := (selectNodeIn_eq_some h).right
    rw [isCandidate_iff_eligible] at hcandidate
    exact ⟨hcandidate, selectNode_split h, hcandidate.fitScore_nonneg, fitScore_le job node⟩
  . intro nodes' h
    unfold selectNodeIn
    rw [h]

end Scheduler

end AetherGrid
