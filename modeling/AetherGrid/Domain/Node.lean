import AetherGrid.Domain.Basic

/-!
This module contains the `Node` entity.
-/

namespace AetherGrid

structure Node where
  id : NodeId
  capacity : ResourceRequirements
  tenantId : TenantId
  name : String
  labels : List (String × String) := []
  lastSeenAt : Time
  draining : Bool := false
  available : ResourceRequirements
  havailable : available ≤ capacity
  deriving DecidableEq

namespace Node

def register (id : NodeId) (capacity : ResourceRequirements) (tenantId : TenantId)
    (name : Option String) (generated : String) (now : Time) : Node where
  id := id
  capacity := capacity
  tenantId := tenantId
  name :=
    match name with
    | none | some "" => generated
    | some name => name
  lastSeenAt := now
  available := capacity
  havailable := ResourceRequirements.le_refl capacity

def heartbeat (node : Node) (now : Time) : Node :=
  { node with lastSeenAt := now }

def isAlive (node : Node) (now : Time) : Bool :=
  now - node.lastSeenAt ≤ heartbeatTimeout

def drain (node : Node) : Node :=
  { node with draining := true }

def canHost (node : Node) (requirements : ResourceRequirements) : Bool :=
  requirements.cpuCores ≤ node.available.cpuCores
    && requirements.memoryMib ≤ node.available.memoryMib
    && requirements.vramMib ≤ node.available.vramMib

def allocate (node : Node) (requirements : ResourceRequirements) : Except Err Node :=
  if node.canHost requirements then
    .ok
      { node with
        available := node.available - requirements
        havailable := by
          have := node.havailable
          rw [ResourceRequirements.le_def] at this ⊢
          simp only [ResourceRequirements.sub_cpuCores, ResourceRequirements.sub_memoryMib,
            ResourceRequirements.sub_vramMib]
          omega }
  else
    .error (.insufficientNodeCapacity node.id)

def release (node : Node) (requirements : ResourceRequirements) : Node :=
  { node with
    available := min (node.available + requirements) node.capacity
    havailable := ResourceRequirements.min_le_right _ _ }

theorem canHost_iff (node : Node) (requirements : ResourceRequirements)
    : node.canHost requirements ↔ requirements ≤ node.available := by
  simp [canHost, ResourceRequirements.le_def, and_assoc]

theorem release_available {node : Node} {requirements : ResourceRequirements}
    (h : node.available + requirements ≤ node.capacity)
    : (node.release requirements).available = node.available + requirements :=
  ResourceRequirements.min_eq_left h

theorem allocate_eq_ok {node node' : Node} {requirements : ResourceRequirements}
    (h : node.allocate requirements = .ok node')
    : node'.available + requirements = node.available
        ∧ node'.id = node.id
        ∧ node'.capacity = node.capacity
        ∧ node'.tenantId = node.tenantId
        ∧ node'.draining = node.draining
        ∧ node'.lastSeenAt = node.lastSeenAt := by
  unfold allocate at h
  split at h
  . next hhost =>
    injection h with h
    subst h
    rw [canHost_iff] at hhost
    exact ⟨ResourceRequirements.sub_add_cancel hhost, rfl, rfl, rfl, rfl, rfl⟩
  . contradiction

theorem allocate_of_canHost {node : Node} {requirements : ResourceRequirements}
    (h : node.canHost requirements) : ∃ node', node.allocate requirements = .ok node' := by
  unfold allocate
  rw [if_pos h]
  exact ⟨_, rfl⟩

theorem release_of_allocate {node node' : Node} {requirements : ResourceRequirements}
    (h : node.allocate requirements = .ok node') : node'.release requirements = node := by
  unfold allocate at h
  split at h
  . next hhost =>
    injection h with h
    subst h
    rw [canHost_iff] at hhost
    have := ResourceRequirements.sub_add_cancel hhost
    unfold release
    simp only [this, ResourceRequirements.min_eq_left node.havailable]
  . contradiction

end Node

end AetherGrid
