import Gunyah.Impl.Vm.SuspIrq
import Gunyah.Framework.Run

/-!
# What the suspend interrupts of VMs must be

Every interrupt that is requested is that of one VM, which frees it when its VPM group is reset (`Owned`). And
what an interrupt reports is reported for the VM that it was requested for (`EventRight`).
-/

namespace GH.Spec.SuspIrq

open GH.Impl GH.Impl.SuspIrq

/-- The interrupts that are requested are those of the VMs. -/
def Owned (s : Susp) : Prop := s.held.Perm (s.vms.filterMap SuspVm.line)

/-- A VPM group is set for a VM that is there and has no interrupt yet, and a VM goes when it has none
any more. -/
def Orderly (s : Susp) : Act → Susp → Prop
  | .set vmid capId virqNum irqRet, _ =>
    0 ≤ (setVmVpmGrpInfo s vmid capId virqNum irqRet).2 → ∃ vm, findVmById s.vms vmid = some vm ∧ vm.suspIrq = -EINVAL
  | .destroy vm, _ => ∀ vm', s.vm vm = some vm' → vm'.suspIrq = -EINVAL
  | _, _ => True

/-- What must hold where an event happens, with the events before it. -/
def EventRight : Event → List Event → Prop
  | .assigned irq _, past => ∀ vm, ¬ Since (.assigned irq vm) (· = .freed irq) past
  | .freed irq, past => ∃ vm, Since (.assigned irq vm) (· = .freed irq) past
  | .suspended irq vm _, past => Since (.assigned irq vm) (· = .freed irq) past

/-- A suspend is reported for the VM that the interrupt was requested for and not freed since, and only
such an interrupt is freed. -/
def Attributed (s : Susp) : Prop := ∀ e past, e :: past <:+ s.hist → EventRight e past

end GH.Spec.SuspIrq
