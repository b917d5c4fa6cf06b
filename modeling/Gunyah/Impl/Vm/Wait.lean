import Gunyah.Impl.Vm.Main
import Gunyah.Framework.WaitQueue

/-!
# Waiting for the status of a VM

`gh_main.c`: the functions that wait for a VM to be `READY`, `RESET` or `EXITED`, on
`vm_status_wait` or `vm_exit_ioc_wait`, and the notifications that write the status
and wake the queues. Each access to the status, and to `exit_type`, is a step of its own, and so
is each wake-up. `vm_lock`, which a `VM_EXITED` notification holds, is left out: the waiting
threads do not hold it, and notifications interleave here more freely than
they do. `exits` and `returned` are history.
-/

namespace GH.Impl.Wait

open GH.Impl.Rm GH.Impl.Main GH.WaitQueue

/-- The wait queues of `struct gh_vm`. -/
inductive Queue where
  | vmStatusWait
  | vmExitIocWait
  deriving DecidableEq, Repr

/-- The functions that wait. -/
inductive Waiter where
  /-- `gh_vm_configure` -/
  | configure
  /-- `gh_vm_cleanup` -/
  | cleanup
  /-- `gh_exit_vm` -/
  | exitVm
  /-- `gh_vcpu_ioctl_run`, in `gh_wait_for_vm_status_intr` -/
  | vcpuRun
  /-- `gh_dev_ioctl_wait_for_exit`, in `gh_ioc_wait_for_vm_status` -/
  | waitForExit
  deriving DecidableEq, Repr

/-- The wait queue of a function. -/
def Waiter.queue : Waiter → Queue
  | .configure | .cleanup | .exitVm | .vcpuRun => .vmStatusWait
  | .waitForExit => .vmExitIocWait

/-- The status that the function waits for. -/
def Waiter.status : Waiter → BitVec 8
  | .configure => GH_RM_VM_STATUS_READY
  | .cleanup => GH_RM_VM_STATUS_RESET
  | .exitVm | .vcpuRun | .waitForExit => GH_RM_VM_STATUS_EXITED

/-- The function waits with `wait_event_interruptible`. -/
def Waiter.interruptible : Waiter → Bool
  | .configure | .cleanup | .exitVm => false
  | .vcpuRun | .waitForExit => true

/-- What the function returns once its wait is over: two of them read `exit_type`, which the second
copies to user space. -/
def Waiter.result (exitType : Int) : Waiter → Option Int
  | .configure | .cleanup | .exitVm => none
  | .vcpuRun | .waitForExit => some exitType

/-- `wake_up`, or `wake_up_interruptible`. -/
structure WakeUp where
  queue : Queue
  interruptible : Bool
  deriving DecidableEq, Repr

/-- A wake-up is for the waiters of its queue, and `wake_up_interruptible` only for the ones that sleep interruptibly. -/
def WakeUp.reaches (w : WakeUp) (f : Waiter) : Bool :=
  decide (f.queue = w.queue) && (!w.interruptible || f.interruptible)

/-- The wake-ups of `gh_notif_vm_status`. -/
def statusWakeUps : List WakeUp := [⟨.vmStatusWait, false⟩]

/-- The wake-ups of `gh_notif_vm_exited`. -/
def exitedWakeUps : List WakeUp := [⟨.vmStatusWait, false⟩, ⟨.vmStatusWait, true⟩, ⟨.vmExitIocWait, true⟩]

/-- Where the thread of a notification is. -/
inductive NotifPc where
  | idle
  /-- `gh_notif_vm_status` has made its tests. -/
  | writeStatus (status : BitVec 8)
  | writeExitType (exitType : BitVec 16)
  | writeExited
  | wake (ws : List WakeUp)
  deriving DecidableEq, Repr

/-- `gh_vm_rm_notifier_fn` up to its first write. -/
def ghVmRmNotifierFnTest (vm : GhVm) (cmd : BitVec 32) : ReadM NotifPc :=
  if cmd = GH_RM_NOTIF_VM_STATUS then do
    match ← ghNotifVmStatusTest vm with
    | some status => pure (.writeStatus status)
    | none => pure .idle
  else if cmd = GH_RM_NOTIF_VM_EXITED then do
    let vmid ← readU16 0
    if vm.vmid ≠ vmid then pure .idle
    else
      let exitType ← readU16 2
      pure (.writeExitType exitType)
  else pure .idle

/-- A step of a notification behind its tests, without its effect on the waiting threads. -/
def notifStep (vm : GhVm) : NotifPc → GhVm × NotifPc
  | .idle => (vm, .idle)
  | .writeStatus status => ({ vm with vmStatus := status }, .wake statusWakeUps)
  | .writeExitType exitType => ({ vm with exitType := exitType.toNat }, .writeExited)
  | .writeExited => ({ vm with vmStatus := GH_RM_VM_STATUS_EXITED }, .wake exitedWakeUps)
  | .wake [] => (vm, .idle)
  | .wake (_ :: ws) => (vm, .wake ws)

/-- The wake-up that a step of a notification makes. -/
def NotifPc.wakes : NotifPc → Waiter → Bool
  | .wake (w :: _), f => w.reaches f
  | _, _ => false

/-- A VM with the threads that wait for its status and the notifications that write it. -/
structure VmWait where
  vm : GhVm := {}
  threads : Nat → Place Waiter := fun _ => .out
  notifs : Nat → NotifPc := fun _ => .idle
  /-- The exit types of the `VM_EXITED` notifications for the VM. -/
  exits : List Int := []
  /-- What the functions have returned. -/
  returned : List (Waiter × Option Int) := []

/-- The condition of a wait. -/
def VmWait.holds (s : VmWait) (f : Waiter) : Bool := decide (s.vm.vmStatus = f.status)

/-- The steps of both, and the writers of the status that do not wait. -/
inductive Act where
  /-- The loader gives the VM its VMID. -/
  | setVmid (vmid : VmId)
  /-- `gh_vm_start`, `gh_vm_configure`, the loader or `gh_vm_cleanup` writes the status. -/
  | setStatus (status : BitVec 8)
  | notify (j : Nat) (cmd : BitVec 32) (payload : List Byte)
  /-- The thread of a notification goes on. -/
  | notif (j : Nat)
  | enter (k : Nat) (f : Waiter)
  /-- The thread looks at its condition. -/
  | check (k : Nat)
  | prepare (k : Nat)
  /-- A signal ends the wait, if it is interruptible. -/
  | signal (k : Nat)
  | ret (k : Nat)

/-- The statuses that are written without a notification. -/
def ownStatuses : List (BitVec 8) :=
  [GH_RM_VM_STATUS_NO_STATE, GH_RM_VM_STATUS_LOAD, GH_RM_VM_STATUS_AUTH, GH_RM_VM_STATUS_INIT, GH_RM_VM_STATUS_RUNNING]

/-- The exit type of a `VM_EXITED` notification that passes its test. -/
def NotifPc.exits : NotifPc → List Int
  | .writeExitType exitType => [exitType.toNat]
  | _ => []

/-- A thread goes on. -/
def VmWait.place (s : VmWait) (k : Nat) (p : Place Waiter) : VmWait :=
  { s with threads := Function.update s.threads k p }

/-- One such step, `none` where it is not enabled. -/
def step (s : VmWait) : Act → Option VmWait
  | .setVmid vmid => some { s with vm := { s.vm with vmid := vmid } }
  | .setStatus status => if status ∈ ownStatuses then some { s with vm := { s.vm with vmStatus := status } } else none
  | .notify j cmd payload =>
    if s.notifs j = .idle then
      let pc := (ghVmRmNotifierFnTest s.vm cmd).val payload
      some { s with notifs := Function.update s.notifs j pc, exits := s.exits ++ pc.exits }
    else none
  | .notif j =>
    let (vm, pc) := notifStep s.vm (s.notifs j)
    some { s with
      vm := vm
      notifs := Function.update s.notifs j pc
      threads := fun k => (s.threads k).wake (s.notifs j).wakes }
  | .enter k f => if s.threads k = .out then some (s.place k (.first f)) else none
  | .check k => some (s.place k ((s.threads k).check s.holds))
  | .prepare k => some (s.place k (s.threads k).prepare)
  | .signal k =>
    match (s.threads k).waits with
    | some f => if f.interruptible then some { s.place k .out with returned := (f, some (-ERESTARTSYS)) :: s.returned } else none
    | none => none
  | .ret k =>
    match s.threads k with
    | .past f => some { s.place k .out with returned := (f, f.result s.vm.exitType) :: s.returned }
    | _ => none

end GH.Impl.Wait
