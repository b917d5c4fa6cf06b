import Gunyah.Impl.Vm.Main

/-!
# Starting a VM

Threads run the vCPUs of a VM (`GH_VCPU_RUN`), while the notifications about its
status come in. `gh_notif_vm_status` does not take `vm_lock`, and its test of
the status and its write are two steps. The other ioctls that change the VM
hold `vm_lock` meanwhile. The history has the status as each thread has read it
at its test for `READY`, since it has `vm_lock`, and the calls of
`gh_rm_vm_start`.
-/

namespace GH.Spec.Vm

open GH.Impl GH.Impl.Rm GH.Impl.Main

/-- Who holds `vm_lock`. -/
inductive Holder where
  | run (k : Nat)
  /-- Another ioctl. -/
  | other
  deriving DecidableEq, Repr

/-- A call of `gh_rm_vm_start`. -/
structure Start where
  /-- The caller holds `vm_lock`. -/
  locked : Bool
  /-- The status that the caller has read at its test for `READY`, since it holds
  `vm_lock`. -/
  tested : Option (BitVec 8)
  /-- The VM at the call. -/
  vm : GhVm
  ret : Int

/-- The VM, the threads, the notifications, and the history. -/
structure StartState where
  vm : GhVm
  lock : Option Holder
  runs : Nat → RunPc
  /-- The statuses that notifications are going to write. -/
  notifs : Nat → Option (BitVec 8)
  /-- The status that a thread has read at its test for `READY`, since it has taken
  `vm_lock`. -/
  tested : Nat → Option (BitVec 8)
  starts : List Start

/-- A VM after `gh_create_vm`. -/
def StartState.init : StartState := ⟨{}, none, fun _ => .idle, fun _ => none, fun _ => none, []⟩

/-- What another ioctl changes of the VM. -/
inductive VmWrite where
  | createVcpu
  | load (vmid : VmId)
  | secure
  | auth
  | init
  | allowVcpus (n : Nat)

/-- The VM after that. -/
def VmWrite.apply (vm : GhVm) : VmWrite → GhVm
  | .createVcpu => { vm with createdVcpus := vm.createdVcpus + 1 }
  | .load vmid => { vm with vmStatus := GH_RM_VM_STATUS_LOAD, vmid := vmid }
  | .secure => { vm with isSecureVm := true }
  | .auth => { vm with vmStatus := GH_RM_VM_STATUS_AUTH }
  | .init => { vm with vmStatus := GH_RM_VM_STATUS_INIT }
  | .allowVcpus n => { vm with allowedVcpus := n }

/-- What happens: a step of a thread, of a notification, or of another ioctl. -/
inductive StartAct where
  /-- `GH_VCPU_RUN` is called. -/
  | begin (k : Nat)
  /-- A thread makes a step; if it calls `gh_rm_vm_start`, its `gh_rm_call` returns
  `r`, and `respPayloadSize` is what its variable holds before. -/
  | run (k : Nat) (respPayloadSize : Nat) (r : CallRet)
  /-- A `VM_STATUS` notification, up to the write. -/
  | status (k : Nat) (payload : List Byte)
  | statusWrite (k : Nat)
  /-- A `VM_EXITED` notification. -/
  | exited (payload : List Byte)
  /-- Another ioctl takes `vm_lock`, changes the VM, and releases `vm_lock`. -/
  | lock
  | write (w : VmWrite)
  | unlock

/-- A step of a thread that does not wait for `vm_lock`. -/
def StartState.runStep (s : StartState) (k : Nat) (pc : RunPc) (startRet : Int) : StartState :=
  let (vm, next) := ghVcpuIoctlRun s.vm startRet pc
  { s with
    vm := vm
    lock := if pc.locked ∧ ¬ next.locked then none else s.lock
    runs := Function.update s.runs k next
    tested :=
      match pc with
      | .testReady => Function.update s.tested k (some s.vm.vmStatus)
      | _ => s.tested
    starts :=
      match pc with
      | .start => s.starts ++ [⟨s.lock = some (.run k), s.tested k, s.vm, startRet⟩]
      | _ => s.starts }

/-- What happens, where it can. -/
def startStep (s : StartState) : StartAct → Option StartState
  | .begin k => if s.runs k = .idle then some { s with runs := Function.update s.runs k .lock } else none
  | .run k respPayloadSize r =>
    match s.runs k with
    | .idle => none
    | .lock =>
      if s.lock = none then
        some { s with
          lock := some (.run k)
          runs := Function.update s.runs k .testRunning
          tested := Function.update s.tested k none }
      else none
    | pc => some (s.runStep k pc ((ghRmVmStart s.vm.vmid.toNat respPayloadSize).run r))
  | .status k payload =>
    if s.notifs k = none then
      some { s with notifs := Function.update s.notifs k ((ghNotifVmStatusTest s.vm).val payload) }
    else none
  | .statusWrite k =>
    (s.notifs k).map fun vmStatus =>
      { s with vm := { s.vm with vmStatus := vmStatus }, notifs := Function.update s.notifs k none }
  | .exited payload =>
    if s.lock = none then some { s with vm := (ghNotifVmExited s.vm).val payload } else none
  | .lock => if s.lock = none then some { s with lock := some .other } else none
  | .write w => if s.lock = some .other then some { s with vm := w.apply s.vm } else none
  | .unlock => if s.lock = some .other then some { s with lock := none } else none

/-- `gh_rm_vm_start` is called once at most, under `vm_lock`, when the VM is ready
and has its vCPUs, and no vCPU runs before the call has returned 0. -/
structure StartedOnce (s : StartState) : Prop where
  once : s.starts.length ≤ 1
  ready : ∀ x ∈ s.starts, x.locked = true ∧ x.tested = some GH_RM_VM_STATUS_READY
  vcpus : ∀ x ∈ s.starts, x.vm.isSecureVm = true → x.vm.createdVcpus = x.vm.allowedVcpus
  ran : ∀ k, s.runs k = .startVcpuRun ∨ s.runs k = .run → ∃ x ∈ s.starts, x.ret = 0

end GH.Spec.Vm
