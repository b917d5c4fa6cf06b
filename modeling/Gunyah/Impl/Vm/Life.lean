import Gunyah.Impl.Vm.Loader
import Gunyah.Impl.Vm.Main

/-!
# A VM and the requests to the RM

The requests about a VM that `gh_main.c` and `gh_secure_vm_loader.c` make to the RM, from
`gh_rm_vm_alloc_vmid` to `gh_rm_vm_dealloc_vmid`: by `GH_VM_SET_FW_NAME`
(`gh_vm_ioctl_set_fw_name`, `gh_vm_configure`), by `GH_VCPU_RUN`
(`ghVcpuIoctlRun`), and by `gh_destroy_vm` when the last file of the VM is closed. The notifications
of the RM come in meanwhile. Each access to the status is a step of a thread of its own,
and so is each call; a call is over when its answer is there, and what the RM says
to it after that is a notification. The memory of the VM is in `GH.Impl.Vm`, and how
the threads wait in `GH.Impl.Wait`.
-/

namespace GH.Impl.Life

open GH.Impl.Rm GH.Impl.Main
open GH.Impl.Vm (SecVm SecVmDev)

/-- A request about a VM. -/
inductive Req where
  | allocVmid
  | configImage
  | authImage
  | vmInit
  | populateHypRes
  | vmStart
  | vmStop
  | unpopulateHypRes
  | vmReset
  | deallocVmid
  deriving DecidableEq, Repr

/-- What a notification says of a VM, as far as `gh_vm_rm_notifier_fn` goes by it. -/
inductive Said where
  | ready
  | reset
  | exited
  deriving DecidableEq, Repr

/-- What the log of a VM has. -/
inductive Event where
  /-- A call for this VM, and whether the answer is a success. -/
  | ask (r : Req) (vmid : VmId) (ok : Bool)
  | said (x : Said) (vmid : VmId)
  deriving DecidableEq, Repr

/-- What the functions return that a thread calls. -/
structure Answer where
  ret : Int := 0
  /-- `gh_rm_vm_alloc_vmid` -/
  vmid : VmId := 0
  /-- `gh_get_nr_vcpus` -/
  nrVcpus : Nat := 0
  /-- `gh_sec_load_metadata` gives an offset. -/
  metadata : Bool := true
  /-- `dma_alloc_coherent` gives all that is asked for. -/
  memory : Bool := true

/-- `struct gh_vm`, with its name: `none` for the empty string. -/
structure NamedVm where
  vm : GhVm := {}
  fwName : Option SecVm := none
  deriving DecidableEq, Repr

/-- The status is written. -/
def NamedVm.setStatus (v : NamedVm) (status : BitVec 8) : NamedVm :=
  { v with vm := { v.vm with vmStatus := status } }

/-- The event of a call that returns 0 if it succeeds. -/
def NamedVm.ask (v : NamedVm) (r : Req) (ret : Int) : List Event := [.ask r v.vm.vmid (decide (ret = 0))]

/-! ## `GH_VM_SET_FW_NAME` -/

/-- Where a thread is in `gh_vm_ioctl_set_fw_name`. -/
inductive LoadPc where
  /-- It waits for `vm_lock`. -/
  | lock
  /-- It tests `fw_name`, looks for the device, and allocates its memory in
  `gh_sec_vm_loader_load_fw`. -/
  | testName
  /-- It is in `gh_sec_vm_loader_load_fw`. -/
  | allocVmid
  | setLoad (vmid : VmId)
  | setVmid (vmid : VmId)
  /-- It is in `gh_vm_loader_sec_load`, from the firmware to `gh_provide_mem`. -/
  | provideMem
  | setSecure
  /-- It is in `gh_vm_configure`. -/
  | configImage
  | setAuth
  | authImage
  | setInit
  | vmInit
  | waitReady
  | populate
  | allowVcpus (ret : Int)
  /-- It provides the shared regions. -/
  | provideShmem (ret : Int)
  | setName
  /-- It releases `vm_lock`, and returns `ret`. -/
  | unlock (ret : Int)
  deriving DecidableEq, Repr

/-- The thread holds `vm_lock`. -/
def LoadPc.locked : LoadPc → Bool
  | .lock => false
  | _ => true

/-- The device has memory that is allocated when a VM is loaded. -/
def allocatesMemory (dev : SecVmDev) : Bool := (List.range dev.fwMemCount).any fun i => !(dev.fwMemRegions i).isStatic

/-- A step of `gh_vm_ioctl_set_fw_name` with `name`, behind the wait for `vm_lock`; `none` where the
thread waits, or is at its end. An error of `gh_vm_configure` leads to the shared regions. -/
def ghVmIoctlSetFwName (devs : SecVm → Option SecVmDev) (name : SecVm) (a : Answer) (v : NamedVm) :
    LoadPc → Option (NamedVm × LoadPc × List Event)
  | .lock => none
  | .testName =>
    if v.fwName.isSome then some (v, .unlock (-EEXIST), [])
    else if (devs name).isNone then some (v, .unlock (-EINVAL), [])
    else if (devs name).any allocatesMemory ∧ a.memory = false then some (v, .unlock (-ENOMEM), [])
    else some (v, .allocVmid, [])
  | .allocVmid =>
    if a.ret < 0 then some (v, .unlock a.ret, [.ask .allocVmid a.vmid false])
    else some (v, .setLoad a.vmid, [.ask .allocVmid a.vmid true])
  | .setLoad vmid => some (v.setStatus GH_RM_VM_STATUS_LOAD, .setVmid vmid, [])
  | .setVmid vmid => some ({ v with vm := { v.vm with vmid := vmid } }, .provideMem, [])
  | .provideMem =>
    if a.ret ≠ 0 then some (v, .unlock a.ret, [])
    -- without an offset `ret` is still 0
    else if a.metadata = false then some (v, .setName, [])
    else some (v, .setSecure, [])
  | .setSecure => some ({ v with vm := { v.vm with isSecureVm := true } }, .configImage, [])
  | .configImage =>
    some (v, if a.ret ≠ 0 then .provideShmem a.ret else .setAuth, v.ask .configImage a.ret)
  | .setAuth =>
    let v := v.setStatus GH_RM_VM_STATUS_AUTH
    if (devs name).elim true (·.pasId = 0) then some (v, .provideShmem (-EINVAL), [])
    else some (v, .authImage, [])
  | .authImage => some (v, if a.ret ≠ 0 then .provideShmem a.ret else .setInit, v.ask .authImage a.ret)
  | .setInit => some (v.setStatus GH_RM_VM_STATUS_INIT, .vmInit, [])
  | .vmInit => some (v, if a.ret ≠ 0 then .provideShmem a.ret else .waitReady, v.ask .vmInit a.ret)
  | .waitReady => if v.vm.vmStatus = GH_RM_VM_STATUS_READY then some (v, .populate, []) else none
  | .populate =>
    if a.ret < 0 then some (v, .provideShmem a.ret, [.ask .populateHypRes v.vm.vmid false])
    else some (v, .allowVcpus a.ret, [.ask .populateHypRes v.vm.vmid true])
  | .allowVcpus ret =>
    if v.vm.isSecureVm then
      let vm := { v.vm with allowedVcpus := if a.nrVcpus = 0 then 1 else a.nrVcpus }
      some ({ v with vm := vm }, .provideShmem ret, [])
    else some (v, .provideShmem ret, [])
  | .provideShmem ret =>
    -- the loop overwrites what `gh_vm_configure` has returned
    let ret := if (devs name).elim true (·.shMemCount = 0) then ret else a.ret
    some (v, if ret ≠ 0 then .unlock ret else .setName, [])
  | .setName => some ({ v with fwName := some name }, .unlock 0, [])
  | .unlock _ => none

/-! ## Notifications -/

/-- Where a thread is in `gh_vm_rm_notifier_fn`, behind its tests. -/
inductive NotifPc where
  | writeStatus (status : BitVec 8)
  /-- It waits for `vm_lock`, in `gh_notif_vm_exited`. -/
  | lock (exitType : BitVec 16)
  | writeExitType (exitType : BitVec 16)
  | writeExited
  deriving DecidableEq, Repr

/-- The thread holds `vm_lock`. -/
def NotifPc.locked : NotifPc → Bool
  | .writeStatus _ | .lock _ => false
  | .writeExitType _ | .writeExited => true

/-- `gh_vm_rm_notifier_fn` up to its first write, or its wait for `vm_lock`. -/
def ghVmRmNotifierFnTest (vm : GhVm) (cmd : BitVec 32) : ReadM (Option NotifPc) :=
  if cmd = GH_RM_NOTIF_VM_STATUS then do
    let status ← ghNotifVmStatusTest vm
    pure (status.map .writeStatus)
  else if cmd = GH_RM_NOTIF_VM_EXITED then do
    let vmid ← readU16 0
    if vm.vmid ≠ vmid then pure none
    else
      let exitType ← readU16 2
      pure (some (.lock exitType))
  else pure none

/-- What a notification says, if it is about this VM. -/
def ghVmRmNotifierFnSaid (vm : GhVm) (cmd : BitVec 32) : ReadM (Option Said) :=
  if cmd = GH_RM_NOTIF_VM_STATUS then do
    let vmid ← readU16 0
    let vmStatus ← readU8 4
    pure <|
      if vm.vmid ≠ vmid then none
      else if vmStatus = GH_RM_VM_STATUS_RESET then some .reset
      else if vmStatus = GH_RM_VM_STATUS_READY then some .ready
      else none
  else if cmd = GH_RM_NOTIF_VM_EXITED then do
    let vmid ← readU16 0
    pure (if vm.vmid ≠ vmid then none else some .exited)
  else pure none

/-- A step of a notification; `none` is its end. -/
def notifStep (v : NamedVm) : NotifPc → NamedVm × Option NotifPc
  | .writeStatus status => (v.setStatus status, none)
  | .lock exitType => (v, some (.lock exitType))
  | .writeExitType exitType => ({ v with vm := { v.vm with exitType := exitType.toNat } }, some .writeExited)
  | .writeExited => (v.setStatus GH_RM_VM_STATUS_EXITED, none)

/-! ## `gh_destroy_vm` -/

/-- Where the thread is that closes the last file. -/
inductive DestroyPc where
  | testNoState
  /-- `gh_exit_vm`: with `GH_VM_STOP_RESTART`, or `again` with `GH_VM_STOP_FORCE_STOP`. -/
  | exitVm (again : Bool)
  /-- It waits for `vm_lock`. -/
  | lock (again : Bool)
  | testRunning (again : Bool)
  | vmStop (again : Bool)
  | waitExited
  | destroyVcpus
  /-- `gh_vm_cleanup` reads the status. -/
  | cleanup
  | unpopulate
  | vmReset
  | waitReset
  /-- `gh_virtio_mmio_exit` and `gh_secure_vm_loader_reclaim_fw` -/
  | reclaim
  | deallocVmid
  | setNoState
  /-- It takes the VM off `vm_list`, and unregisters the notifications. -/
  | clean
  deriving DecidableEq, Repr

/-- The thread holds `vm_lock`. -/
def DestroyPc.locked : DestroyPc → Bool
  | .testRunning _ | .vmStop _ => true
  | _ => false

/-- What the `switch` of `gh_vm_cleanup` begins with. -/
def ghVmCleanup (status : BitVec 8) : DestroyPc :=
  if status = GH_RM_VM_STATUS_EXITED ∨ status = GH_RM_VM_STATUS_RUNNING ∨ status = GH_RM_VM_STATUS_READY then
    .unpopulate
  else if status = GH_RM_VM_STATUS_INIT ∨ status = GH_RM_VM_STATUS_AUTH then .vmReset
  else if status = GH_RM_VM_STATUS_LOAD then .deallocVmid
  else .setNoState

/-- A step of `gh_destroy_vm`; `none` where the thread waits, or is at its end. -/
def ghDestroyVm (a : Answer) (v : NamedVm) : DestroyPc → Option (NamedVm × DestroyPc × List Event)
  | .testNoState =>
    some (v, if v.vm.vmStatus = GH_RM_VM_STATUS_NO_STATE then .clean else .exitVm false, [])
  | .exitVm again => some (v, if v.vm.vmid = 0 then .destroyVcpus else .lock again, [])
  | .lock _ => none
  | .testRunning again =>
    some (v, if v.vm.vmStatus ≠ GH_RM_VM_STATUS_RUNNING then .destroyVcpus else .vmStop again, [])
  | .vmStop again =>
    let pc : DestroyPc :=
      if a.ret = 0 then .waitExited else if again = false ∧ a.ret ≠ -ENODEV then .exitVm true else .destroyVcpus
    some (v, pc, v.ask .vmStop a.ret)
  | .waitExited => if v.vm.vmStatus = GH_RM_VM_STATUS_EXITED then some (v, .destroyVcpus, []) else none
  | .destroyVcpus => some ({ v with vm := { v.vm with createdVcpus := 0 } }, .cleanup, [])
  | .cleanup => some (v, ghVmCleanup v.vm.vmStatus, [])
  | .unpopulate => some (v, .vmReset, v.ask .unpopulateHypRes a.ret)
  | .vmReset => some (v, if a.ret = 0 then .waitReset else .reclaim, v.ask .vmReset a.ret)
  | .waitReset => if v.vm.vmStatus = GH_RM_VM_STATUS_RESET then some (v, .reclaim, []) else none
  | .reclaim => some (v, .deallocVmid, [])
  | .deallocVmid => some (v, .setNoState, v.ask .deallocVmid a.ret)
  | .setNoState => some ({ v.setStatus GH_RM_VM_STATUS_NO_STATE with fwName := none }, .clean, [])
  | .clean => none

/-! ## Threads -/

/-- The function that a thread is in. -/
inductive Pc where
  | idle
  | run (pc : RunPc)
  | load (name : SecVm) (pc : LoadPc)
  | notif (pc : NotifPc)
  | destroy (pc : DestroyPc)
  deriving DecidableEq, Repr

/-- The thread holds `vm_lock`. -/
def Pc.locked : Pc → Bool
  | .idle => false
  | .run pc => pc.locked
  | .load _ pc => pc.locked
  | .notif pc => pc.locked
  | .destroy pc => pc.locked

/-- Where a thread is that waits for `vm_lock`, once it has it. -/
def Pc.take : Pc → Option Pc
  | .run .lock => some (.run .testRunning)
  | .load name .lock => some (.load name .testName)
  | .notif (.lock exitType) => some (.notif (.writeExitType exitType))
  | .destroy (.lock again) => some (.destroy (.testRunning again))
  | _ => none

/-- The thread is in a call on a file of the VM. -/
def Pc.inFile : Pc → Bool
  | .run _ | .load .. => true
  | _ => false

/-- The thread is in a notification. -/
def Pc.inNotif : Pc → Bool
  | .notif _ => true
  | _ => false

/-- A thread that has left `gh_vcpu_ioctl_run` is idle. -/
def Pc.ofRun : RunPc → Pc
  | .idle => .idle
  | pc => .run pc

/-- The calls in `gh_vcpu_ioctl_run`. -/
def runLog (a : Answer) (v : NamedVm) : RunPc → List Event
  | .start => v.ask .vmStart a.ret
  | _ => []

/-- A step of a thread that does not wait for `vm_lock`. -/
def Pc.go (devs : SecVm → Option SecVmDev) (a : Answer) (v : NamedVm) : Pc → Option (NamedVm × Pc × List Event)
  | .idle => none
  | .run pc =>
    let (vm, next) := ghVcpuIoctlRun v.vm a.ret pc
    some ({ v with vm := vm }, .ofRun next, runLog a v pc)
  | .load _ (.unlock _) => some (v, .idle, [])
  | .load name pc => (ghVmIoctlSetFwName devs name a v pc).map fun (v, pc, log) => (v, .load name pc, log)
  | .notif pc =>
    let (v, pc) := notifStep v pc
    some (v, pc.elim .idle .notif, [])
  | .destroy pc => (ghDestroyVm a v pc).map fun (v, pc, log) => (v, .destroy pc, log)

/-- The VM, and `n` threads. -/
structure VmLife (n : Nat) where
  v : NamedVm := {}
  lock : Option (Fin n) := none
  threads : Fin n → Pc := fun _ => .idle
  /-- All the files of the VM are closed. -/
  closed : Bool := false
  /-- The VM is freed. -/
  freed : Bool := false
  log : List Event := []

/-- What a thread is called for. -/
inductive Call where
  /-- `GH_CREATE_VCPU`, where it succeeds: under `vm_lock` from beginning to end. -/
  | createVcpu
  /-- `GH_VCPU_RUN` -/
  | run
  /-- `GH_VM_SET_FW_NAME` -/
  | setFwName (name : SecVm)
  /-- A notification of the RM. -/
  | notify (cmd : BitVec 32) (payload : List Byte)
  /-- The last file is closed, with no call on it. -/
  | release
  /-- `gh_destroy_vm` has unregistered the notifications, with none of them under way, and frees the VM. -/
  | free

/-- What happens to a VM. -/
inductive Act (n : Nat) where
  | call (k : Fin n) (c : Call)
  /-- A thread goes on. -/
  | go (k : Fin n) (a : Answer)

variable {n : Nat}

/-- A thread moves. -/
def VmLife.at (s : VmLife n) (k : Fin n) (pc : Pc) : VmLife n := { s with threads := Function.update s.threads k pc }

/-- A thread is called, where it can be: the notifications go up to their first write. -/
def lifeCall (s : VmLife n) (k : Fin n) : Call → Option (VmLife n)
  | .createVcpu =>
    if s.threads k = .idle ∧ s.closed = false ∧ s.lock = none ∧ s.v.vm.createdVcpus < GH_MAX_VCPUS then
      some { s with v := { s.v with vm := { s.v.vm with createdVcpus := s.v.vm.createdVcpus + 1 } } }
    else none
  | .run => if s.threads k = .idle ∧ s.closed = false then some (s.at k (.run .lock)) else none
  | .setFwName name => if s.threads k = .idle ∧ s.closed = false then some (s.at k (.load name .lock)) else none
  | .notify cmd payload =>
    if s.threads k = .idle ∧ s.freed = false then
      let pc := ((ghVmRmNotifierFnTest s.v.vm cmd).val payload).elim Pc.idle .notif
      let said := ((ghVmRmNotifierFnSaid s.v.vm cmd).val payload).toList.map (Event.said · s.v.vm.vmid)
      some { s.at k pc with log := s.log ++ said }
    else none
  | .release =>
    if s.threads k = .idle ∧ s.closed = false ∧ ∀ j, (s.threads j).inFile = false then
      some { s.at k (.destroy .testNoState) with closed := true }
    else none
  | .free =>
    if s.threads k = .destroy .clean ∧ ∀ j, (s.threads j).inNotif = false then
      some { s.at k .idle with freed := true }
    else none

/-- A thread goes on, or takes `vm_lock` if it waits for it. -/
def lifeGo (devs : SecVm → Option SecVmDev) (s : VmLife n) (k : Fin n) (a : Answer) : Option (VmLife n) :=
  match (s.threads k).take with
  | some pc => if s.lock = none then some { s.at k pc with lock := some k } else none
  | none =>
    ((s.threads k).go devs a s.v).map fun (v, pc, log) =>
      { s.at k pc with
        v := v
        lock := if (s.threads k).locked ∧ ¬ pc.locked then none else s.lock
        log := s.log ++ log }

/-- What happens, where it can. -/
def lifeStep (devs : SecVm → Option SecVmDev) (s : VmLife n) : Act n → Option (VmLife n)
  | .call k c => lifeCall s k c
  | .go k a => lifeGo devs s k a

end GH.Impl.Life
