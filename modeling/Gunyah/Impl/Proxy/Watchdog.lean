import Gunyah.Impl.Proxy.Sched

/-!
# The hypercalls of running vCPUs

`gh_vcpu_run` of `gh_proxy_sched.c` with the hypercalls it makes for its vCPU,
and with what happens between two accesses to the watchdog's flag: the
invocations on other vCPUs, and the operations on the table of VMs. A turn of
its loop is in two parts, up to where preemption is enabled again
(`vcpuRunHcalls`) and from the test for a signal on (`vcpuRunCheck`).
-/

namespace GH.Impl.Proxy

open GH.Impl.Rm (VmId GH_VMID_INVAL)

/-- A hypercall for a vCPU: `gh_hcall_wdog_manage`, or `gh_hcall_vcpu_run`. -/
inductive VcpuCall where
  | freeze
  | unfreeze
  | run
  deriving DecidableEq, Repr

/-- `gh_vcpu_run` before its loop: the slot, or what it returns; `none` where it
accesses the vCPUs behind their end. -/
def vcpuRunEnter (s : Sched) (vmid : VmId) (vcpuId : Nat) : Option (Except Int Slot) :=
  let i := ghGetVm s vmid
  let vm := s.vms i
  if vm.isActive = false then some (.error (-EPERM))
  else if vcpuId ≥ GH_MAX_VCPUS_PER_VM then none
  else if (vm.vcpu[vcpuId]?).all (·.capId = GH_CAPID_INVAL) then some (.error (-EPERM))
  else some (.ok i)

/-- A turn of the loop, up to where preemption is enabled again, where the
hypervisor answers `ret` and `vcpuState`: the vCPU, and the hypercalls. -/
def vcpuRunHcalls (c : ProxyVcpu) (ret : Int) (vcpuState : VcpuState) (needResched : Bool) :
    ProxyVcpu × List VcpuCall :=
  let thaw := if c.wdogFrozen then [.unfreeze] else []
  let c := { c with abortSleep := false, wdogFrozen := false }
  if ret = GH_ERROR_OK ∧ vcpuState = .ready ∧ needResched then
    ({ c with wdogFrozen := true }, thaw ++ [.run, .freeze])
  else (c, thaw ++ [.run])

/-- The rest of a turn, after the hypervisor answered `ret`: the vCPU, the
hypercalls, and what `gh_vcpu_run` returns, if it does. -/
def vcpuRunCheck (c : ProxyVcpu) (isActive : Bool) (ret : Int) (signal : Bool) :
    ProxyVcpu × List VcpuCall × Option Int :=
  if signal then
    if c.wdogFrozen then (c, [], some (-ERESTARTSYS))
    else ({ c with wdogFrozen := true }, [.freeze], some (-ERESTARTSYS))
  else if (ret = GH_ERROR_OK ∨ ret = GH_ERROR_RETRY) ∧ isActive then (c, [], none)
  else (c, [], some (if ret = -ERESTARTSYS then ret else ghRemapError ret))

/-! ## The invocations as a machine -/

/-- Where an invocation is: at the head of the loop, or before the test for a
signal. -/
inductive RunPc where
  | head
  | ran (ret : Int)
  deriving DecidableEq, Repr

/-- A vCPU: its slot and its index. -/
abbrev VcpuId := Slot × Nat

/-- `calls` are the hypercalls for each vCPU since its slot was last reset. -/
structure Runs where
  sched : Sched
  pc : VcpuId → Option RunPc
  calls : VcpuId → List VcpuCall

/-- No vCPU is run. -/
def Runs.init : Runs where
  sched := .init
  pc := fun _ => none
  calls := fun _ => []

/-- The hypercalls `l` are made for a vCPU, which is changed. -/
def Runs.turn (m : Runs) (p : VcpuId) (f : ProxyVcpu → ProxyVcpu) (pc : Option RunPc) (l : List VcpuCall) : Runs where
  sched := m.sched.modifyVcpu p.1 p.2 f
  pc := Function.update m.pc p pc
  calls := Function.update m.calls p (m.calls p ++ l)

/-- The entry of a vCPU. -/
def Sched.vcpu? (s : Sched) (p : VcpuId) : Option ProxyVcpu := (s.vms p.1).vcpu[p.2]?

/-- The operations, with `gh_vcpu_run` cut at its hypercalls. -/
inductive RunAct where
  /-- An operation that is not `gh_vcpu_run`. -/
  | op (act : SchedAct)
  /-- `gh_vcpu_run` is called. -/
  | enter (vmid : VmId) (vcpuId : Nat)
  | hcalls (p : VcpuId) (ret : Int) (vcpuState : VcpuState) (needResched : Bool)
  | check (p : VcpuId) (signal : Bool)

/-- From `s` to `t`, the slot is reset. -/
def Emptied (s t : Sched) (i : Slot) : Prop := (s.vms i).id ≠ GH_VMID_INVAL ∧ (t.vms i).id = GH_VMID_INVAL

instance (s t : Sched) (i : Slot) : Decidable (Emptied s t i) := inferInstanceAs (Decidable (_ ∧ _))

/-- What `gh_vcpu_run` returns in a step, if it does. -/
def RunAct.returns (m : Runs) : RunAct → Option Int
  | .op _ | .hcalls .. => none
  | .enter v j =>
    match vcpuRunEnter m.sched v j with
    | some (.error r) => some r
    | some (.ok _) | none => none
  | .check p signal =>
    match m.pc p, m.sched.vcpu? p with
    | some (.ran ret), some c => (vcpuRunCheck c (m.sched.vms p.1).isActive ret signal).2.2
    | _, _ => none

/-- A step: invocations on a vCPU follow one another, and a slot is reset
between them. -/
def runStep (m : Runs) : RunAct → Option Runs
  | .op (.vcpuRun ..) => none
  | .op act =>
    (schedStep m.sched act).bind fun t =>
      if ∀ i, Emptied m.sched t i → ∀ j < GH_MAX_VCPUS_PER_VM, m.pc (i, j) = none then
        some { m with sched := t, calls := fun p => if Emptied m.sched t p.1 then [] else m.calls p }
      else none
  | .enter v j =>
    match vcpuRunEnter m.sched v j with
    | none => none
    | some (.error _) => some m
    | some (.ok i) =>
      if m.pc (i, j) = none then some { m with pc := Function.update m.pc (i, j) (some .head) } else none
  | .hcalls p ret st resched =>
    match m.pc p, m.sched.vcpu? p with
    | some .head, some c =>
      some (m.turn p (fun c => (vcpuRunHcalls c ret st resched).1) (some (.ran ret)) (vcpuRunHcalls c ret st resched).2)
    | _, _ => none
  | .check p signal =>
    match m.pc p, m.sched.vcpu? p with
    | some (.ran ret), some c =>
      let isActive := (m.sched.vms p.1).isActive
      let r := vcpuRunCheck c isActive ret signal
      some (m.turn p (fun c => (vcpuRunCheck c isActive ret signal).1) (if r.2.2 = none then some .head else none) r.2.1)
    | _, _ => none

end GH.Impl.Proxy
