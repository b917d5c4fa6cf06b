import Gunyah.Impl.Rm.Iface
import Mathlib.Data.Fin.Tuple.Basic

/-!
# The proxy scheduler's table of VMs

`gh_proxy_sched.c`: `gh_vms`, a table of `GH_MAX_VMS` slots, filled and emptied
by callbacks of the resource manager driver, and `gh_vcpu_run`.

What the kernel, the hypervisor and `gh_rm_get_vmid` answer is part of an
operation's arguments. `irqs` holds the interrupts that are requested, each
with what it was requested for. The names of interrupts and wakeup sources, the
wait queues and the back pointers `vcpu->vm` are left out. Of the vCPUs of a
slot those below `vcpu_count` are kept; the others are as `gh_reset_vm` leaves
them.
-/

namespace GH.Impl.Proxy

open GH.Impl.Rm (VmId GH_VMID_INVAL)

/-- The sizes of the driver's tables. -/
abbrev GH_MAX_VMS : Nat := 5
def GH_MAX_VCPUS_PER_VM : Nat := 8
def GH_MAX_SYSTEM_VCPUS : Nat := GH_MAX_VMS * GH_MAX_VCPUS_PER_VM

/-- `U32_MAX` in an `int`: no interrupt. -/
def IRQ_INVAL : Int := -1

/-- `struct gh_proxy_vcpu`. -/
structure ProxyVcpu where
  capId : BitVec 64
  idx : BitVec 32
  virq : Int
  abortSleep : Bool := false
  wdogFrozen : Bool := false
  deriving DecidableEq, Repr

/-- `struct gh_proxy_vm`. -/
structure ProxyVm where
  id : VmId := GH_VMID_INVAL
  vcpu : List ProxyVcpu := []
  isVcpuInfoPopulated : Bool := false
  isActive : Bool := false
  wdogCapId : BitVec 64 := 0
  vpmgCapId : BitVec 64 := GH_CAPID_INVAL
  suspResIrq : Int := IRQ_INVAL
  isVpmGroupInfoPopulated : Bool := false
  deriving DecidableEq, Repr

/-- `vcpu_count`, the number of entries in use. -/
def ProxyVm.vcpuCount (vm : ProxyVm) : Nat := vm.vcpu.length

/-- The index of a slot of `gh_vms`. -/
abbrev Slot := Fin GH_MAX_VMS

/-- What an interrupt is requested for. -/
inductive IrqDev where
  | vcpu (i : Slot) (j : Nat)
  | vpmGroup
  deriving DecidableEq, Repr

/-- The variables of the driver, and the interrupts it has requested. -/
structure Sched where
  vms : Slot → ProxyVm
  nrVms : Nat
  nrVcpus : Nat
  initDone : Bool
  irqs : List (Int × IrqDev)

/-- After `gh_proxy_sched_init`. -/
def Sched.init : Sched where
  vms := fun _ => {}
  nrVms := 0
  nrVcpus := 0
  initDone := true
  irqs := []

/-- The VM in a slot is changed. -/
def Sched.set (s : Sched) (i : Slot) (vm : ProxyVm) : Sched :=
  { s with vms := Function.update s.vms i vm }

/-- `gh_get_vm`: the loop runs over all slots and keeps the last if nothing
stops it. -/
def ghGetVm (s : Sched) (vmid : VmId) : Slot :=
  (Fin.find? fun i => vmid = (s.vms i).id ∨ (s.vms i).id = GH_VMID_INVAL).getD (Fin.last 4)

/-- `is_vm_supports_proxy`. -/
def isVmSupportsProxy (s : Sched) (vmid : VmId) : Bool :=
  let vm := s.vms (ghGetVm s vmid)
  vm.id ≠ GH_VMID_INVAL ∧ vm.vcpuCount > 0

/-- `gh_get_vcpu`. -/
def ghGetVcpu (vm : ProxyVm) (capId : BitVec 64) : Option Nat :=
  vm.vcpu.findIdx? fun c => c.capId = capId

/-- `gh_reset_vm`, which leaves the watchdog's capability. -/
def ghResetVm (vm : ProxyVm) : ProxyVm := { wdogCapId := vm.wdogCapId }

/-- `gh_wdog_manage`. -/
def ghWdogManage (s : Sched) (vmid : VmId) (capId : BitVec 64) (populate : Bool) : Sched × Int :=
  if s.initDone = false then (s, - ENXIO)
  else if isVmSupportsProxy s vmid = false then (s, -EINVAL)
  else
    let i := ghGetVm s vmid
    (s.set i { s.vms i with wdogCapId := if populate then capId else GH_CAPID_INVAL }, 0)

/-- The arguments of `gh_populate_vm_vcpu_info`, and what `gh_rm_get_vmid`
gives for `GH_TRUSTED_VM` and `GH_OEM_VM`, `request_irq` returns, and whether
the wakeup source can be registered. -/
structure PopulateVcpu where
  vmid : VmId
  cpuIdx : BitVec 32
  capId : BitVec 64
  virqNum : Int
  trustedVm : Except Int VmId
  oemVm : Except Int VmId
  irqRet : Int := 0
  ws : Bool := true

/-- A lookup of `gh_rm_get_vmid` succeeds with another VMID. -/
def isOther (r : Except Int VmId) (vmid : VmId) : Bool :=
  match r with
  | .ok v => v ≠ vmid
  | .error _ => false

/-- `gh_populate_vm_vcpu_info`. -/
def ghPopulateVmVcpuInfo (s : Sched) (p : PopulateVcpu) : Sched × Int :=
  if s.initDone = false then (s, - ENXIO)
  else if isOther p.trustedVm p.vmid ∧ isOther p.oemVm p.vmid then (s, 0)
  else if s.nrVcpus ≥ GH_MAX_SYSTEM_VCPUS then (s, - ENXIO)
  else if p.virqNum = 0 ∨ p.virqNum = IRQ_INVAL then (s, 0)
  else
    let i := ghGetVm s p.vmid
    let vm := s.vms i
    if vm.isVcpuInfoPopulated then (s, 0)
    else if vm.vcpuCount ≥ GH_MAX_VCPUS_PER_VM then (s, - ENXIO)
    else if p.irqRet < 0 then (s, p.irqRet)
    -- the interrupt is freed again
    else if p.ws = false then (s, p.irqRet)
    else
      ({ s.set i { vm with id := p.vmid, vcpu := vm.vcpu ++ [⟨p.capId, p.cpuIdx, p.virqNum, false, false⟩] } with
         nrVcpus := s.nrVcpus + 1
         irqs := (p.virqNum, .vcpu i vm.vcpuCount) :: s.irqs }, p.irqRet)

/-- `gh_unpopulate_vm_vcpu_info`, with what it stores in `*irq`. -/
def ghUnpopulateVmVcpuInfo (s : Sched) (vmid : VmId) (capId : BitVec 64) : Sched × Int × Option Int :=
  if s.initDone = false then (s, - ENXIO, none)
  else if isVmSupportsProxy s vmid = false then (s, 0, none)
  else
    let i := ghGetVm s vmid
    let vm := s.vms i
    if vm.isVcpuInfoPopulated then
      match ghGetVcpu vm capId with
      | none => (s, 0, none)
      | some j =>
        match vm.vcpu[j]? with
        | none => (s, 0, none)
        | some c =>
          ({ s.set i { vm with vcpu := vm.vcpu.set j { c with virq := IRQ_INVAL } } with
             nrVcpus := s.nrVcpus - 1
             irqs := s.irqs.erase (c.virq, .vcpu i j) }, 0, some c.virq)
    else (s, 0, none)

/-- `gh_populate_vm_vpm_grp_info`; `irqRet` is what `request_irq` returns. -/
def ghPopulateVmVpmGrpInfo (s : Sched) (vmid : VmId) (capId : BitVec 64) (virqNum irqRet : Int) : Sched × Int :=
  if s.initDone = false then (s, - ENXIO)
  else if isVmSupportsProxy s vmid = false then (s, 0)
  else if virqNum < 0 then (s, -EINVAL)
  else
    let i := ghGetVm s vmid
    let vm := s.vms i
    if vm.isVpmGroupInfoPopulated then (s, 0)
    else if irqRet < 0 then (s, irqRet)
    else
      ({ s.set i { vm with vpmgCapId := capId, suspResIrq := virqNum, isVpmGroupInfoPopulated := true } with
         irqs := (virqNum, .vpmGroup) :: s.irqs }, irqRet)

/-- `gh_unpopulate_vm_vpm_grp_info`, with what it stores in `*irq`. -/
def ghUnpopulateVmVpmGrpInfo (s : Sched) (vmid : VmId) : Sched × Int × Option Int :=
  if s.initDone = false then (s, - ENXIO, none)
  else if isVmSupportsProxy s vmid = false then (s, 0, none)
  else
    let i := ghGetVm s vmid
    let vm := s.vms i
    if vm.isVpmGroupInfoPopulated then
      ({ s.set i { vm with suspResIrq := IRQ_INVAL, isVpmGroupInfoPopulated := false } with
         irqs := s.irqs.erase (vm.suspResIrq, .vpmGroup) }, 0, some vm.suspResIrq)
    else (s, 0, none)

/-- `gh_populate_all_res_info`. -/
def ghPopulateAllResInfo (s : Sched) (vmid : VmId) (resPopulated : Bool) : Sched :=
  if s.initDone = false then s
  else if isVmSupportsProxy s vmid = false then s
  else if s.nrVms ≥ GH_MAX_VMS then s
  else
    let i := ghGetVm s vmid
    let vm := s.vms i
    if resPopulated then
      if vm.isVcpuInfoPopulated then s
      else { s.set i { vm with isVcpuInfoPopulated := true, isActive := true } with nrVms := s.nrVms + 1 }
    else if vm.isVcpuInfoPopulated then { s.set i (ghResetVm vm) with nrVms := s.nrVms - 1 }
    else s

/-- `gh_wakeup_all_vcpus`. -/
def ghWakeupAllVcpus (s : Sched) (vmid : VmId) : Sched :=
  let i := ghGetVm s vmid
  let vm := s.vms i
  if vm.isActive then
    s.set i { vm with isActive := false, vcpu := vm.vcpu.map fun c => { c with abortSleep := true } }
  else s

/-! ## Running a vCPU -/

/-- `vcpu_state` of the answer of `gh_hcall_vcpu_run`. -/
inductive VcpuState where
  | ready
  | expectsWakeup
  | poweredOff
  | blocked
  | unknown
  deriving DecidableEq, Repr

/-- What happens in a turn of the loop of `gh_vcpu_run`: the hypervisor's
answer, whether the thread should be rescheduled, whether the VM's exit is
reported meanwhile, and whether a signal is pending. -/
structure RunTurn where
  ret : Int
  vcpuState : VcpuState := .ready
  needResched : Bool := false
  vmExit : Bool := false
  signal : Bool := false

/-- The vCPU in slot `i` is changed. -/
def Sched.modifyVcpu (s : Sched) (i : Slot) (j : Nat) (f : ProxyVcpu → ProxyVcpu) : Sched :=
  s.set i { s.vms i with vcpu := (s.vms i).vcpu.modify j f }

/-- Whether the watchdog of the vCPU is frozen after the hypercall of a turn. -/
def frozenAfter (t : RunTurn) : Bool :=
  t.ret = GH_ERROR_OK ∧ t.vcpuState = .ready ∧ t.needResched

/-- The loop of `gh_vcpu_run` on the vCPU `j` of slot `i`, turn by turn; `none`
where it has not ended with the last turn given. -/
def ghVcpuRunLoop (s : Sched) (vmid : VmId) (i : Slot) (j : Nat) : List RunTurn → Option (Sched × Int)
  | [] => none
  | t :: ts =>
    let s := s.modifyVcpu i j fun c => { c with abortSleep := false, wdogFrozen := frozenAfter t }
    let s := if t.vmExit then ghWakeupAllVcpus s vmid else s
    if t.signal then some (s.modifyVcpu i j fun c => { c with wdogFrozen := true }, -ERESTARTSYS)
    else if (t.ret = GH_ERROR_OK ∨ t.ret = GH_ERROR_RETRY) ∧ (s.vms i).isActive then
      ghVcpuRunLoop s vmid i j ts
    else some (s, if t.ret = -ERESTARTSYS then t.ret else ghRemapError t.ret)

/-- `gh_vcpu_run`: `none` where it accesses the vCPUs behind their end, or has
not returned yet. -/
def ghVcpuRun (s : Sched) (vmid : VmId) (vcpuId : Nat) (turns : List RunTurn) : Option (Sched × Int) :=
  let i := ghGetVm s vmid
  let vm := s.vms i
  if vm.isActive = false then some (s, -EPERM)
  else if vcpuId ≥ GH_MAX_VCPUS_PER_VM then none
  else if (vm.vcpu[vcpuId]?).all (·.capId = GH_CAPID_INVAL) then some (s, -EPERM)
  else ghVcpuRunLoop s vmid i vcpuId turns

/-! ## The operations as a machine -/

/-- The functions that change them. -/
inductive SchedAct where
  | populateVcpu (p : PopulateVcpu)
  | unpopulateVcpu (vmid : VmId) (capId : BitVec 64)
  | populateVpmGrp (vmid : VmId) (capId : BitVec 64) (virqNum irqRet : Int)
  | unpopulateVpmGrp (vmid : VmId)
  | allRes (vmid : VmId) (resPopulated : Bool)
  | wdogManage (vmid : VmId) (capId : BitVec 64) (populate : Bool)
  | wakeupAll (vmid : VmId)
  | vcpuRun (vmid : VmId) (vcpuId : Nat) (turns : List RunTurn)

/-- The VM an operation is for. -/
def SchedAct.vmid : SchedAct → VmId
  | .populateVcpu p => p.vmid
  | .unpopulateVcpu v _ | .populateVpmGrp v _ _ _ | .unpopulateVpmGrp v | .allRes v _ | .wdogManage v _ _
  | .wakeupAll v | .vcpuRun v _ _ => v

/-- An operation for a VM, whose VMID is not `GH_VMID_INVAL`. -/
def schedStep (s : Sched) (act : SchedAct) : Option Sched :=
  if act.vmid = GH_VMID_INVAL then none
  else
    match act with
    | .populateVcpu p => some (ghPopulateVmVcpuInfo s p).1
    | .unpopulateVcpu v c => some (ghUnpopulateVmVcpuInfo s v c).1
    | .populateVpmGrp v c irq ret => some (ghPopulateVmVpmGrpInfo s v c irq ret).1
    | .unpopulateVpmGrp v => some (ghUnpopulateVmVpmGrpInfo s v).1
    | .allRes v b => some (ghPopulateAllResInfo s v b)
    | .wdogManage v c b => some (ghWdogManage s v c b).1
    | .wakeupAll v => some (ghWakeupAllVcpus s v)
    | .vcpuRun v j ts => (ghVcpuRun s v j ts).map (·.1)

end GH.Impl.Proxy
