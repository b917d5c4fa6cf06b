import Gunyah.Impl.Rm.Iface
import Gunyah.Framework.History

/-!
# The suspend interrupts of VMs

`gh_main.c`: the callbacks that the driver gives to the resource manager's driver for the VPM group of
a VM (`set_vm_vpm_grp_info`, `reset_vm_vpm_grp_info`), and the handler of the interrupt that says that the
VM has been suspended. VMs are created and destroyed, and get their VMIDs, in any order; `vm_list` has
the newest first. `request_irq` refuses an interrupt that is requested, as neither call shares it. What it
answers otherwise, and what the hypervisor answers, is in the action. `hist` is history.
-/

namespace GH.Impl.SuspIrq

open GH.Impl.Rm

/-- The states of a VPM group. -/
def VM_STATE_RUNNING : BitVec 64 := 1
def VM_STATE_CPU_SUSPENDED : BitVec 64 := 2
def VM_STATE_SYSTEM_SUSPENDED : BitVec 64 := 3

/-- `struct gh_vm`, which is at `addr`, as far as the suspend interrupt goes. It is as `gh_create_vm` makes it. -/
structure SuspVm where
  addr : Addr
  vmid : VmId := 0
  capId : BitVec 64 := 0
  suspIrq : Int := -EINVAL
  vmSuspendType : BitVec 64 := VM_STATE_RUNNING
  deriving DecidableEq, Repr

/-- The interrupt of a VM, if it has one. -/
def SuspVm.line (vm : SuspVm) : Option Int := if vm.suspIrq = -EINVAL then none else some vm.suspIrq

/-- What happens to the interrupts for suspended VMs. -/
inductive Event where
  /-- An interrupt is requested for the VM at this address. -/
  | assigned (irq : Int) (vm : Addr)
  | freed (irq : Int)
  /-- User space is told that the VM is suspended. -/
  | suspended (irq : Int) (vm : Addr) (state : BitVec 64)
  deriving DecidableEq, Repr

/-- `gh_vm_list`, with the interrupts that are requested. -/
structure Susp where
  vms : List SuspVm := []
  /-- The interrupts that are requested for `gh_susp_irq_handler`. -/
  held : List Int := []
  /-- The address of the next VM. -/
  next : Addr := 0
  hist : List Event := []
  deriving DecidableEq, Repr

/-- `find_vm_by_id`. -/
def findVmById (vms : List SuspVm) (vmid : VmId) : Option SuspVm := vms.find? fun vm => vm.vmid = vmid

/-- `find_vm_by_susp_irq`. -/
def findVmBySuspIrq (vms : List SuspVm) (irq : Int) : Option SuspVm := vms.find? fun vm => vm.suspIrq = irq

/-- A VM is written. -/
def Susp.write (s : Susp) (vm : SuspVm) : Susp :=
  { s with vms := s.vms.map fun vm' => if vm'.addr = vm.addr then vm else vm' }

/-- `request_irq`. -/
def requestIrq (held : List Int) (irq irqRet : Int) : Int := if irq ∈ held then -EBUSY else irqRet

/-- `set_vm_vpm_grp_info`. -/
def setVmVpmGrpInfo (s : Susp) (vmid : VmId) (capId : BitVec 64) (virqNum irqRet : Int) : Susp × Int :=
  if virqNum < 0 then (s, -EINVAL)
  else
    let ret := requestIrq s.held virqNum irqRet
    if ret < 0 then (s, ret)
    else
      let s := { s with held := virqNum :: s.held }
      match findVmById s.vms vmid with
      | none => (s, ret)
      | some vm =>
        ({ s.write { vm with capId := capId, suspIrq := virqNum } with hist := .assigned virqNum vm.addr :: s.hist }, ret)

/-- `reset_vm_vpm_grp_info`, and the interrupt that it stores. -/
def resetVmVpmGrpInfo (s : Susp) (vmid : VmId) : Susp × Option Int :=
  match findVmById s.vms vmid with
  | none => (s, none)
  | some vm =>
    if vm.suspIrq ≠ -EINVAL then
      ({ s.write { vm with suspIrq := -EINVAL } with
          held := s.held.erase vm.suspIrq, hist := .freed vm.suspIrq :: s.hist }, some vm.suspIrq)
    else (s, none)

/-- `gh_susp_irq_handler`; `ret` and `vpmgState` are what `gh_hcall_vpm_group_get_state` gives. -/
def ghSuspIrqHandler (s : Susp) (irq ret : Int) (vpmgState : BitVec 64) : Susp :=
  match findVmBySuspIrq s.vms irq with
  | none => s
  | some vm =>
    if ret ≠ 0 then s
    else if vpmgState = VM_STATE_CPU_SUSPENDED ∨ vpmgState = VM_STATE_SYSTEM_SUSPENDED then
      { s.write { vm with vmSuspendType := vpmgState } with hist := .suspended irq vm.addr vpmgState :: s.hist }
    else s

/-- What changes the list, and the interrupts. -/
inductive Act where
  /-- `gh_create_vm` -/
  | create
  /-- The loader gives a VM its VMID. -/
  | setVmid (vm : Addr) (vmid : VmId)
  | set (vmid : VmId) (capId : BitVec 64) (virqNum irqRet : Int)
  | reset (vmid : VmId)
  /-- An interrupt that is requested. -/
  | interrupt (irq ret : Int) (vpmgState : BitVec 64)
  /-- `gh_destroy_vm` -/
  | destroy (vm : Addr)

/-- The VM at an address. -/
def Susp.vm (s : Susp) (vm : Addr) : Option SuspVm := s.vms.find? fun vm' => vm'.addr = vm

/-- One such step, `none` where it is not enabled. -/
def step (s : Susp) : Act → Option Susp
  | .create => some { s with vms := { addr := s.next } :: s.vms, next := s.next + 1 }
  | .setVmid vm vmid => (s.vm vm).map fun vm => s.write { vm with vmid := vmid }
  | .set vmid capId virqNum irqRet => some (setVmVpmGrpInfo s vmid capId virqNum irqRet).1
  | .reset vmid => some (resetVmVpmGrpInfo s vmid).1
  | .interrupt irq ret vpmgState => if irq ∈ s.held then some (ghSuspIrqHandler s irq ret vpmgState) else none
  | .destroy vm => (s.vm vm).map fun vm => { s with vms := s.vms.erase vm }

end GH.Impl.SuspIrq
