import Gunyah.Impl.Rm.Notif

/-!
# Running a VM

`gh_main.c`, from the creation of the vCPUs of a VM to its exit: the ioctls
`GH_CREATE_VCPU` and `GH_VCPU_RUN`, the references that the files of a VM have
to it, and the notifications about its status. `vm_lock` does not protect the
status from a `VM_STATUS` notification, so `gh_vcpu_ioctl_run` is a function of
where the thread is (`RunPc`), which makes one access to the status at a time;
and the file of a new vCPU can be closed before `gh_vm_ioctl_create_vcpu` is at
its end (`CreatePc`).
-/

namespace GH.Impl.Main

open GH.Impl.Rm

/-! ## The VM -/

/-- The statuses of a VM. -/
def GH_RM_VM_STATUS_NO_STATE : BitVec 8 := 0
def GH_RM_VM_STATUS_INIT : BitVec 8 := 1
def GH_RM_VM_STATUS_READY : BitVec 8 := 2
def GH_RM_VM_STATUS_RUNNING : BitVec 8 := 3
def GH_RM_VM_STATUS_LOAD : BitVec 8 := 5
def GH_RM_VM_STATUS_AUTH : BitVec 8 := 6
def GH_RM_VM_STATUS_EXITED : BitVec 8 := 9
def GH_RM_VM_STATUS_RESET : BitVec 8 := 11

/-- `struct gh_vm`, as far as these functions use it. It is as `gh_create_vm` makes
it. -/
structure GhVm where
  isSecureVm : Bool := false
  vmRunOnce : Bool := false
  createdVcpus : Nat := 0
  allowedVcpus : Nat := 0
  vmid : VmId := 0
  vmStatus : BitVec 8 := GH_RM_VM_STATUS_NO_STATE
  exitType : Int := -EINVAL
  deriving DecidableEq, Repr

/-! ## Notifications -/

/-- `gh_notif_vm_status` up to the write of the status: what it is going to write,
if anything. -/
def ghNotifVmStatusTest (vm : GhVm) : ReadM (Option (BitVec 8)) := do
  let vmid ← readU16 0
  if vm.vmid ≠ vmid then pure none
  else
    let vmStatus ← readU8 4
    if vmStatus ≠ vm.vmStatus ∧ (vmStatus = GH_RM_VM_STATUS_RESET ∨ vmStatus = GH_RM_VM_STATUS_READY) then
      pure (some vmStatus)
    else pure none

/-- `gh_notif_vm_status`. -/
def ghNotifVmStatus (vm : GhVm) : ReadM GhVm := do
  match ← ghNotifVmStatusTest vm with
  | some vmStatus => pure { vm with vmStatus := vmStatus }
  | none => pure vm

/-- `gh_notif_vm_exited`. -/
def ghNotifVmExited (vm : GhVm) : ReadM GhVm := do
  let vmid ← readU16 0
  if vm.vmid ≠ vmid then pure vm
  else
    let exitType ← readU16 2
    pure { vm with exitType := exitType.toNat, vmStatus := GH_RM_VM_STATUS_EXITED }

/-- `gh_vm_rm_notifier_fn`, which returns `NOTIFY_DONE`. -/
def ghVmRmNotifierFn (vm : GhVm) (cmd : BitVec 32) : ReadM GhVm :=
  if cmd = GH_RM_NOTIF_VM_STATUS then ghNotifVmStatus vm
  else if cmd = GH_RM_NOTIF_VM_EXITED then ghNotifVmExited vm
  else pure vm

/-! ## `GH_VCPU_RUN` -/

/-- Where a thread is in `gh_vcpu_ioctl_run`. -/
inductive RunPc where
  | idle
  /-- It waits for `vm_lock`. -/
  | lock
  /-- It tests for `RUNNING`. -/
  | testRunning
  /-- It tests `vm_run_once`, and for `RUNNING` again. -/
  | testRunOnce
  /-- It tests the number of vCPUs of a secure VM. -/
  | testVcpus
  /-- It tests for `READY`. -/
  | testReady
  /-- It calls `gh_rm_vm_start`, in `gh_vm_start`. -/
  | start
  /-- It writes `RUNNING`. -/
  | setRunning
  /-- It is at `start_vcpu_run`. -/
  | startVcpuRun
  /-- It is in `gh_vcpu_run`, or waits for `EXITED`. -/
  | run
  deriving DecidableEq, Repr

/-- The thread holds `vm_lock`. -/
def RunPc.locked : RunPc → Bool
  | .idle | .lock | .startVcpuRun | .run => false
  | _ => true

/-- A step of `gh_vcpu_ioctl_run`, other than the wait for `vm_lock`. `startRet` is
what `gh_rm_vm_start` returns. -/
def ghVcpuIoctlRun (vm : GhVm) (startRet : Int) : RunPc → GhVm × RunPc
  | .testRunning => (vm, if vm.vmStatus = GH_RM_VM_STATUS_RUNNING then .startVcpuRun else .testRunOnce)
  | .testRunOnce =>
    if vm.vmRunOnce ∧ vm.vmStatus ≠ GH_RM_VM_STATUS_RUNNING then (vm, .idle)
    else ({ vm with vmRunOnce := true }, .testVcpus)
  | .testVcpus => (vm, if vm.isSecureVm ∧ vm.createdVcpus ≠ vm.allowedVcpus then .idle else .testReady)
  | .testReady => (vm, if vm.vmStatus ≠ GH_RM_VM_STATUS_READY then .idle else .start)
  | .start => (vm, if startRet ≠ 0 then .idle else .setRunning)
  | .setRunning => ({ vm with vmStatus := GH_RM_VM_STATUS_RUNNING }, .startVcpuRun)
  | .startVcpuRun => (vm, .run)
  | _ => (vm, .idle)

/-! ## References -/

/-- The value of a `refcount_t` after an overflow or an underflow. -/
def REFCOUNT_SATURATED : BitVec 32 := 0xC0000000

/-- `refcount_inc`. -/
def refcountInc (r : BitVec 32) : BitVec 32 :=
  if r = 0 ∨ r.msb ∨ (r + 1).msb then REFCOUNT_SATURATED else r + 1

/-- `refcount_dec_and_test`. -/
def refcountDecAndTest (r : BitVec 32) : BitVec 32 × Bool :=
  if r = 1 then (0, true)
  else if r.msb ∨ (r - 1).msb then (REFCOUNT_SATURATED, false)
  else (r - 1, false)

/-- `gh_get_vm`, on `users_count`. -/
def ghGetVm (usersCount : BitVec 32) : BitVec 32 := refcountInc usersCount

/-- `gh_put_vm`, on `users_count`, and whether it calls `gh_destroy_vm`. -/
def ghPutVm (usersCount : BitVec 32) : BitVec 32 × Bool := refcountDecAndTest usersCount

/-! ## `GH_CREATE_VCPU` -/

/-- `GH_MAX_VCPUS`. -/
abbrev GH_MAX_VCPUS : Nat := 8

/-- What the allocations in `gh_vm_ioctl_create_vcpu` return: `kzalloc`,
`get_unused_fd_flags` and `anon_inode_getfile`. -/
structure CreateEnv where
  vcpu : Bool := true
  fd : Int := 3
  file : Except Int Unit := .ok ()

/-- `gh_vm_ioctl_create_vcpu`, from where it has `vm_lock` to `fd_install`: the
error, if it returns one. `vcpus` says which pointers are set. -/
def ghVmIoctlCreateVcpu (vcpus : Fin GH_MAX_VCPUS → Bool) (id : Fin GH_MAX_VCPUS) (env : CreateEnv) :
    Except Int Unit :=
  if vcpus id then .error (-EEXIST)
  else if env.vcpu = false then .error (-ENOMEM)
  else if env.fd < 0 then .error env.fd
  else env.file

/-- Where a thread is in `gh_vm_ioctl_create_vcpu`. -/
inductive CreatePc where
  | idle
  /-- It waits for `vm_lock`. -/
  | lock (id : Fin GH_MAX_VCPUS)
  /-- It calls `fd_install`. -/
  | install (id : Fin GH_MAX_VCPUS)
  /-- It calls `gh_get_vm`. -/
  | get (id : Fin GH_MAX_VCPUS)
  /-- It enters the vCPU into the VM, and releases `vm_lock`. -/
  | enter (id : Fin GH_MAX_VCPUS)
  deriving DecidableEq, Repr

/-- The thread holds `vm_lock`. -/
def CreatePc.locked : CreatePc → Bool
  | .idle | .lock _ => false
  | _ => true

end GH.Impl.Main
