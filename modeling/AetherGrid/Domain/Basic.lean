import Mathlib

/-!
This module contains the value objects of the domain: identifiers, timestamps, resource bundles, the
status enumerations and the errors the services raise.
-/

namespace AetherGrid

structure TenantId where
  value : Nat
  deriving DecidableEq, Repr

structure NodeId where
  value : Nat
  deriving DecidableEq, Repr

structure JobId where
  value : Nat
  deriving DecidableEq, Repr

structure WorkerId where
  value : Nat
  deriving DecidableEq, Repr

structure LeaseId where
  value : Nat
  deriving DecidableEq, Repr

abbrev Time := Int

abbrev Duration := Int

def seconds (n : Int) : Duration :=
  n * 1000000

def isDatetime (t : Time) : Bool :=
  seconds (-62135596800) ≤ t ∧ t < seconds 253402300800

def heartbeatTimeout : Duration :=
  seconds 60

def defaultLeaseDuration : Duration :=
  seconds 30

def defaultExecutionTimeout : Duration :=
  seconds 3600

inductive JobStatus where
  | submitted
  | queued
  | scheduled
  | running
  | cancelling
  | completed
  | failed
  | cancelled
  deriving DecidableEq, Repr

inductive WorkerStatus where
  | starting
  | idle
  | busy
  | draining
  | offline
  deriving DecidableEq, Repr

inductive WorkerManagement where
  | dashboard
  | agent
  deriving DecidableEq, Repr

def JobStatus.name (status : JobStatus) : String :=
  match status with
  | .submitted => "SUBMITTED"
  | .queued => "QUEUED"
  | .scheduled => "SCHEDULED"
  | .running => "RUNNING"
  | .cancelling => "CANCELLING"
  | .completed => "COMPLETED"
  | .failed => "FAILED"
  | .cancelled => "CANCELLED"

@[ext]
structure ResourceRequirements where
  cpuCores : Nat
  memoryMib : Nat
  vramMib : Nat := 0
  deriving DecidableEq, Repr

namespace ResourceRequirements

instance : Zero ResourceRequirements where
  zero := ⟨0, 0, 0⟩

instance : Add ResourceRequirements where
  add a b := ⟨a.cpuCores + b.cpuCores, a.memoryMib + b.memoryMib, a.vramMib + b.vramMib⟩

instance : Sub ResourceRequirements where
  sub a b := ⟨a.cpuCores - b.cpuCores, a.memoryMib - b.memoryMib, a.vramMib - b.vramMib⟩

instance : Min ResourceRequirements where
  min a b :=
    ⟨min a.cpuCores b.cpuCores, min a.memoryMib b.memoryMib, min a.vramMib b.vramMib⟩

instance : LE ResourceRequirements where
  le a b := a.cpuCores ≤ b.cpuCores ∧ a.memoryMib ≤ b.memoryMib ∧ a.vramMib ≤ b.vramMib

instance (a b : ResourceRequirements) : Decidable (a ≤ b) :=
  inferInstanceAs (Decidable (_ ∧ _ ∧ _))

@[simp] theorem zero_cpuCores : (0 : ResourceRequirements).cpuCores = 0 := rfl
@[simp] theorem zero_memoryMib : (0 : ResourceRequirements).memoryMib = 0 := rfl
@[simp] theorem zero_vramMib : (0 : ResourceRequirements).vramMib = 0 := rfl

section

variable (a b : ResourceRequirements)

@[simp] theorem add_cpuCores : (a + b).cpuCores = a.cpuCores + b.cpuCores := rfl
@[simp] theorem add_memoryMib : (a + b).memoryMib = a.memoryMib + b.memoryMib := rfl
@[simp] theorem add_vramMib : (a + b).vramMib = a.vramMib + b.vramMib := rfl
@[simp] theorem sub_cpuCores : (a - b).cpuCores = a.cpuCores - b.cpuCores := rfl
@[simp] theorem sub_memoryMib : (a - b).memoryMib = a.memoryMib - b.memoryMib := rfl
@[simp] theorem sub_vramMib : (a - b).vramMib = a.vramMib - b.vramMib := rfl
@[simp] theorem min_cpuCores : (min a b).cpuCores = min a.cpuCores b.cpuCores := rfl
@[simp] theorem min_memoryMib : (min a b).memoryMib = min a.memoryMib b.memoryMib := rfl
@[simp] theorem min_vramMib : (min a b).vramMib = min a.vramMib b.vramMib := rfl

theorem le_def
    : a ≤ b ↔ a.cpuCores ≤ b.cpuCores ∧ a.memoryMib ≤ b.memoryMib ∧ a.vramMib ≤ b.vramMib := by
  rfl

end

instance : AddCommMonoid ResourceRequirements where
  add_assoc a b c := by ext <;> simp [Nat.add_assoc]
  zero_add a := by ext <;> simp
  add_zero a := by ext <;> simp
  add_comm a b := by ext <;> simp [Nat.add_comm]
  nsmul := nsmulRec

theorem le_refl (a : ResourceRequirements) : a ≤ a := by
  simp [le_def]

theorem min_le_right (a b : ResourceRequirements) : min a b ≤ b := by
  simp [le_def]

theorem min_eq_left {a b : ResourceRequirements} (h : a ≤ b) : min a b = a := by
  rw [le_def] at h
  ext <;> simp <;> omega

theorem sub_add_cancel {a b : ResourceRequirements} (h : b ≤ a) : a - b + b = a := by
  rw [le_def] at h
  ext <;> simp <;> omega

theorem le_of_add_eq {a b c : ResourceRequirements} (h : a + b = c) : a ≤ c := by
  subst h
  simp [le_def]

end ResourceRequirements

/--
The exceptions the modelled services raise.
-/
inductive Err where
  | invalidJobTransition (message : String)
  | valueError (message : String)
  | overflowError (message : String)
  | runtimeError (message : String)
  | insufficientNodeCapacity (node : NodeId)
  | noAvailableNode (message : String)
  | nodeNotFound (node : NodeId)
  | nodeStillAlive (node : NodeId)
  | jobNotFound (job : JobId)
  | workerNotFound (worker : WorkerId)
  | workerJobMismatch (worker : WorkerId) (job : JobId)
  | noActiveLease (worker : WorkerId)
  | leaseNotFound (lease : LeaseId)
  | leaseTenantMismatch (message : String)
  | nodeTenantConflict (node : NodeId)
  | jobTenantConflict (job : JobId)
  | uniqueViolation (constraint : String)
  | foreignKeyViolation (constraint : String)
  deriving DecidableEq, Repr

end AetherGrid
