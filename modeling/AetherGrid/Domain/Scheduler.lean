import AetherGrid.Civil.Double
import AetherGrid.Domain.Job
import AetherGrid.Domain.Node

/-!
This module contains the domain service that selects a node for a job.
-/

namespace AetherGrid

namespace Scheduler

def matchesConstraints (job : Job) (node : Node) : Bool :=
  job.constraints.all (fun (key, value) => node.labels.lookup key = some value)

def sameTenant (job : Job) (node : Node) : Bool :=
  node.tenantId = job.tenantId

-- a dimension the job does not request does not count
def addTightness (rounding : ℚ → ℚ) (requested available capacity : Nat) (score : ℚ) : ℚ :=
  if 0 < requested then
    rounding (score + rounding (((available : ℚ) - requested) / capacity))
  else
    score

def fitScoreIn (rounding : ℚ → ℚ) (job : Job) (node : Node) : ℚ :=
  let score := 0
  let score := addTightness rounding
    job.resources.cpuCores node.available.cpuCores node.capacity.cpuCores score
  let score := addTightness rounding
    job.resources.memoryMib node.available.memoryMib node.capacity.memoryMib score
  addTightness rounding
    job.resources.vramMib node.available.vramMib node.capacity.vramMib score

def fitScore (job : Job) (node : Node) : ℚ :=
  fitScoreIn Double.round job node

def isCandidate (now : Time) (job : Job) (node : Node) : Bool :=
  sameTenant job node
    && node.isAlive now
    && !node.draining
    && matchesConstraints job node
    && node.canHost job.resources

def selectNodeIn (rounding : ℚ → ℚ) (now : NodeId → Time) (job : Job) (nodes : List Node) : Option Node :=
  (nodes.filter (fun node => isCandidate (now node.id) job node)).argmin (fitScoreIn rounding job)

def selectNode (now : NodeId → Time) (job : Job) (nodes : List Node) : Option Node :=
  selectNodeIn Double.round now job nodes

section selection

variable {rounding : ℚ → ℚ} {now : NodeId → Time} {job : Job} {nodes : List Node} {node : Node}

theorem selectNodeIn_eq_none_iff
    : selectNodeIn rounding now job nodes = none
        ↔
      ∀ node ∈ nodes, isCandidate (now node.id) job node = false := by
  simp [selectNodeIn, List.argmin_eq_none, List.filter_eq_nil_iff]

theorem selectNodeIn_eq_some (h : selectNodeIn rounding now job nodes = some node)
    : node ∈ nodes ∧ isCandidate (now node.id) job node = true := by
  have := List.argmin_mem h
  rw [List.mem_filter] at this
  exact this

theorem selectNode_eq_none_iff
    : selectNode now job nodes = none
        ↔
      ∀ node ∈ nodes, isCandidate (now node.id) job node = false :=
  selectNodeIn_eq_none_iff

theorem selectNode_eq_some (h : selectNode now job nodes = some node)
    : node ∈ nodes ∧ isCandidate (now node.id) job node = true :=
  selectNodeIn_eq_some h

end selection

theorem isCandidate_iff (now : Time) (job : Job) (node : Node)
    : isCandidate now job node
        ↔
      node.tenantId = job.tenantId
        ∧ node.isAlive now
        ∧ node.draining = false
        ∧ matchesConstraints job node
        ∧ node.canHost job.resources := by
  simp [isCandidate, sameTenant, and_assoc]

end Scheduler

end AetherGrid
