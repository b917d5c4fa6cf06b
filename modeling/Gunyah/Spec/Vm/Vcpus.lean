import Mathlib.Computability.StateTransition
import Mathlib.Data.Fintype.Basic
import Gunyah.Impl.Vm.Vcpus

/-!
# Destroying the vCPUs of a VM

What the loop of `gh_destroy_vm` is for: when it has ended (`Destroys`), no vCPU
is left (`AllDestroyed`).
-/

namespace GH.Spec.Vcpus

open GH.Impl GH.Impl.Main GH.Impl.Vcpus

/-- The calls of `GH_CREATE_VCPU` on a new VM, with what its allocations return. -/
def created (calls : List (BitVec 32 × CreateEnv)) : VmVcpus :=
  calls.foldl (fun vm c => (ghVmIoctlCreateVcpu vm c.1 c.2).1) {}

/-- The slots that are not `NULL`. -/
def slots (vm : VmVcpus) : Finset (Fin GH_MAX_VCPUS) := Finset.univ.filter fun id => (vm.vcpus id).isSome

/-- `gh_destroy_vm`, on the vCPUs, gets to the end of its loop; without a status it does not
enter it. -/
def Destroys (vmStatus : BitVec 8) (vm vm' : VmVcpus) : Prop :=
  if vmStatus = GH_RM_VM_STATUS_NO_STATE then vm' = vm
  else ∃ vcpuId, (vm', vcpuId) ∈ StateTransition.eval destroyVcpusTurn (vm, 0)

/-- No vCPU is left, and all that have been allocated are freed, once each. -/
structure AllDestroyed (vm vm' : VmVcpus) : Prop where
  createdVcpus : vm'.createdVcpus = 0
  vcpus : ∀ id, vm'.vcpus id = none
  freed : ∀ addr < vm.allocs, vm'.freed.count addr = 1

/-- The ids of the vCPUs are those below their number. -/
def FromZero (vm : VmVcpus) : Prop := ∀ i j, i ≤ j → (vm.vcpus j).isSome = true → (vm.vcpus i).isSome = true

end GH.Spec.Vcpus
