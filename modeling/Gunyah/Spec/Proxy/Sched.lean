import Gunyah.Impl.Proxy.Sched

/-!
# What the table of VMs is for

Each VM has its own slot: the lookup of a VM finds that slot and no other VM's
(`LookupOk`), and an operation for a VM changes only that slot, or a free one
(`OwnSlot`).
-/

namespace GH.Spec.Proxy

open GH.Impl GH.Impl.Proxy
open GH.Impl.Rm (VmId GH_VMID_INVAL)

/-- `gh_get_vm` returns a VM's slot where it has one, and never another VM's. -/
def LookupOk (s : Sched) : Prop :=
  ∀ v, v ≠ GH_VMID_INVAL →
    ((∃ i, (s.vms i).id = v) → (s.vms (ghGetVm s v)).id = v) ∧
    ((s.vms (ghGetVm s v)).id = v ∨ (s.vms (ghGetVm s v)).id = GH_VMID_INVAL)

/-- The slots that an operation changes are its VM's or free. -/
def OwnSlot (s : Sched) (act : SchedAct) (t : Sched) : Prop :=
  ∀ i, t.vms i ≠ s.vms i → (s.vms i).id = act.vmid ∨ (s.vms i).id = GH_VMID_INVAL

/-- `gh_populate_vm_vcpu_info` gets as far as filling in the vCPU. -/
def Populates (s : Sched) (p : PopulateVcpu) : Prop :=
  s.initDone = true ∧ ¬(isOther p.trustedVm p.vmid ∧ isOther p.oemVm p.vmid) ∧ s.nrVcpus < GH_MAX_SYSTEM_VCPUS ∧
    ¬(p.virqNum = 0 ∨ p.virqNum = IRQ_INVAL) ∧ (s.vms (ghGetVm s p.vmid)).isVcpuInfoPopulated = false ∧
    (s.vms (ghGetVm s p.vmid)).vcpuCount < GH_MAX_VCPUS_PER_VM ∧ 0 ≤ p.irqRet ∧ p.ws = true

/-- `gh_populate_all_res_info` gets as far as emptying the VM's slot. -/
def Resets (s : Sched) (v : VmId) : Prop :=
  s.initDone = true ∧ isVmSupportsProxy s v = true ∧ s.nrVms < GH_MAX_VMS ∧
    (s.vms (ghGetVm s v)).isVcpuInfoPopulated = true

/-- A vCPU of a new VM does not go to the last slot, and the slot that is
emptied is the last that is not free. -/
def StaysPacked (s : Sched) : SchedAct → Prop
  | .populateVcpu p =>
    Populates s p → (s.vms (ghGetVm s p.vmid)).id = p.vmid ∨ ghGetVm s p.vmid ≠ Fin.last 4
  | .allRes v false => Resets s v → ∀ j, ghGetVm s v < j → (s.vms j).id = GH_VMID_INVAL
  | _ => True

end GH.Spec.Proxy
