import Gunyah.Impl.Kernel
import Mathlib.Data.Fin.Tuple.Basic

/-!
# Events of a virtio backend device

`gh_secure_vm_virtio_backend.c`: the events that the hypervisor reports for a
device (`vdev_interrupt`), the threads that wait for them
(`GH_WAIT_FOR_EVENT`), and the exit of the VM, which waits until no thread
holds the device.

The code under `vb_dev->lock` is one step. So is a turn of the loop of
`vdev_interrupt`, which runs once for each event, however many it takes. A
thread in `GH_WAIT_FOR_EVENT` looks at `evt_avail`, then takes the lock, and
then looks at `cur_event`, each a step of its own. What the hypervisor and
the kernel answer is part of the action. `signals` and `kicked` are history.
-/

namespace GH.Impl.Virtio

/-- The events of a device. -/
def EVENT_NEW_BUFFER : BitVec 64 := 1
def EVENT_RESET_RQST : BitVec 64 := 2
def EVENT_INTERRUPT_ACK : BitVec 64 := 4
def EVENT_DRIVER_OK : BitVec 64 := 8
def EVENT_DRIVER_FAILED : BitVec 64 := 0x10
def EVENT_MODULE_EXIT : BitVec 64 := 0x20
def EVENT_VM_EXIT : BitVec 64 := 0x40
def EVENT_APP_EXIT : BitVec 64 := 0x100

/-- The number of queues that have an eventfd. -/
abbrev MAX_IO_CONTEXTS : Nat := 16

/-- The number of a queue. -/
abbrev Queue := Fin MAX_IO_CONTEXTS

/-- `struct ioevent_context`. -/
structure IoeventContext where
  fd : Int := 0
  ctx : Option Addr := none
  deriving DecidableEq, Repr

/-- `struct virtio_backend_device`. Of `config_data`, `config_shared_buf` and
`irq` it is kept whether they are set. -/
structure VbDev where
  label : BitVec 32
  refcount : BitVec 32 := 0
  notify : Bool := false
  ackDriverOk : Bool := false
  evtAvail : Bool := false
  curEventData : BitVec 64 := 0
  vdevEventData : BitVec 64 := 0
  curEvent : BitVec 64 := 0
  vdevEvent : BitVec 64 := 0
  ioctx : Queue → IoeventContext := fun _ => {}
  irq : Bool := false
  features : Fin 2 → BitVec 32 := fun _ => 0
  queueNumMax : Queue → BitVec 32 := fun _ => 0
  capId : BitVec 64 := 0
  configData : Bool := false
  configSize : BitVec 32 := 0
  configSharedBuf : Bool := false
  configSharedSize : BitVec 64 := 0

/-- `init_vb_dev_open`. -/
def initVbDevOpen (d : VbDev) : VbDev :=
  { d with evtAvail := false, curEventData := 0, vdevEventData := 0, curEvent := 0, vdevEvent := 0, notify := false }

/-- `vb_dev_get` on the device found: `none` where it is not taken. -/
def vbDevGet (d : VbDev) : Option VbDev :=
  if d.refcount < BitVec.allOnes 32 then some { d with refcount := d.refcount + 1 } else none

/-- `vb_dev_put`. -/
def vbDevPut (d : VbDev) : VbDev := { d with refcount := d.refcount - 1 }

/-- The queue bit of `event_data`. -/
def queueBit (x : BitVec 64) (i : Queue) : Bool := x.getLsbD i

/-- The turn of `signal_vqs` for a queue, with the queues signalled so far. -/
def signalVq (d : VbDev × List Queue) (i : Queue) : VbDev × List Queue :=
  if queueBit d.1.vdevEventData i ∧ (d.1.ioctx i).ctx.isSome then
    ({ d.1 with vdevEventData := d.1.vdevEventData &&& ~~~(1#64 <<< i.val) }, d.2 ++ [i])
  else d

/-- `signal_vqs`, with the queues whose eventfd is signalled. -/
def signalVqs (d : VbDev) : VbDev × List Queue := (List.finRange MAX_IO_CONTEXTS).foldl signalVq (d, [])

/-- A turn of the loop of `vdev_interrupt`, on an event that is not 0. -/
def vdevInterrupt (d : VbDev) (event eventData : BitVec 64) : VbDev × List Queue :=
  if event &&& EVENT_NEW_BUFFER ≠ 0 ∧ d.ackDriverOk then
    let event := event &&& ~~~EVENT_NEW_BUFFER
    let (d, qs) := signalVqs { d with vdevEventData := d.vdevEventData ||| eventData }
    if event = 0 then (d, qs)
    else ({ d with vdevEvent := d.vdevEvent ||| event, evtAvail := true }, qs)
  else
    ({ d with vdevEvent := d.vdevEvent ||| event, vdevEventData := d.vdevEventData ||| eventData,
              evtAvail := true }, [])

/-- The branches of `GH_WAIT_FOR_EVENT`, in their order. -/
inductive WaitBranch where
  | exit
  | resetRqst
  | driverOk
  | newBuffer
  | interruptAck
  | nothing
  deriving DecidableEq, Repr

/-- The branch of `GH_WAIT_FOR_EVENT` that the events lead to. -/
def waitBranch (event : BitVec 64) : WaitBranch :=
  if event &&& (EVENT_MODULE_EXIT ||| EVENT_VM_EXIT) ≠ 0 then .exit
  else if event &&& EVENT_RESET_RQST ≠ 0 then .resetRqst
  else if event &&& EVENT_DRIVER_OK ≠ 0 then .driverOk
  else if event &&& EVENT_NEW_BUFFER ≠ 0 then .newBuffer
  else if event &&& EVENT_INTERRUPT_ACK ≠ 0 then .interruptAck
  else .nothing

/-- The queues are signalled, once the driver has been acknowledged. -/
def signalAcked (d : VbDev) : VbDev × List Queue :=
  if d.vdevEventData ≠ 0 ∧ d.ackDriverOk then signalVqs d else (d, [])

/-- All events that are pending are handed over at once. -/
def handOver (d : VbDev) (ackReg : BitVec 32) : VbDev :=
  if d.vdevEvent ≠ 0 then
    { d with curEvent := d.vdevEvent, vdevEvent := 0,
             curEventData := if d.vdevEvent &&& EVENT_INTERRUPT_ACK ≠ 0 then ackReg.zeroExtend 64
               else d.vdevEventData,
             vdevEventData := 0 }
  else d

/-- The branch for `EVENT_NEW_BUFFER`. -/
def waitNewBuffer (d : VbDev) (ackReg : BitVec 32) : VbDev × List Queue :=
  let (d, qs) := signalAcked { d with vdevEvent := d.vdevEvent &&& ~~~EVENT_NEW_BUFFER }
  (handOver d ackReg, qs)

/-- The code of `GH_WAIT_FOR_EVENT` under the lock; `ackReg` is what the
register for interrupt acknowledgements holds. -/
def waitSection (d : VbDev) (ackReg : BitVec 32) : VbDev × List Queue :=
  let d := { d with curEvent := 0, curEventData := 0, evtAvail := false }
  match waitBranch d.vdevEvent with
  | .exit => ({ d with curEvent := EVENT_APP_EXIT }, [])
  | .resetRqst =>
    let event := d.vdevEvent &&& ~~~EVENT_RESET_RQST
    ({ d with vdevEvent := event, curEvent := EVENT_RESET_RQST, ackDriverOk := false,
              ioctx := fun _ => {}, evtAvail := event ≠ 0 }, [])
  | .driverOk =>
    let event := d.vdevEvent &&& ~~~EVENT_DRIVER_OK
    if d.ackDriverOk then ({ d with vdevEvent := event }, [])
    else ({ d with vdevEvent := event, curEvent := EVENT_DRIVER_OK, evtAvail := event ≠ 0 }, [])
  | .newBuffer => waitNewBuffer d ackReg
  | .interruptAck =>
    ({ d with vdevEvent := d.vdevEvent &&& ~~~EVENT_INTERRUPT_ACK, vdevEventData := 0,
              curEvent := EVENT_INTERRUPT_ACK, curEventData := ackReg.zeroExtend 64 }, [])
  | .nothing => (d, [])

/-- `vb_dev_ioeventfd`; `ctx` is what `eventfd_ctx_fdget` gives. -/
def vbDevIoeventfd (d : VbDev) (i : Queue) (fd : Int) (ctx : Except Int Addr) : VbDev × Int :=
  if fd ≤ 0 then (d, -EINVAL)
  else if (d.ioctx i).fd > 0 then (d, -EBUSY)
  else
    match ctx with
    | .error e => (d, e)
    | .ok a => ({ d with ioctx := Function.update d.ioctx i ⟨fd, some a⟩ }, 0)

/-- The code of `gh_virtio_mmio_app_exit` under the lock. -/
def appExitSection (d : VbDev) : VbDev :=
  { d with vdevEvent := EVENT_VM_EXIT, vdevEventData := 0, evtAvail := true, notify := true }

/-! ## The threads of a device -/

/-- Where a thread is in `GH_WAIT_FOR_EVENT`: outside, at `loop_back` (where it
may be blocked), before the lock, or behind it. -/
inductive WaitPc where
  | out
  | loopBack
  | lock
  | check
  deriving DecidableEq, Repr

/-- A device with the threads that wait for its events. -/
structure Vdev where
  dev : VbDev
  threads : Nat → WaitPc
  /-- `gh_virtio_mmio_app_exit` waits for the references to go. -/
  draining : Bool
  /-- The queues whose eventfd has been signalled. -/
  signals : List Queue
  /-- The queues that have been raised with `EVENT_NEW_BUFFER`, and not signalled since. -/
  kicked : Queue → Bool

/-- A device that has been opened, without threads. -/
def Vdev.opened (d : VbDev) : Vdev where
  dev := initVbDevOpen { d with refcount := 0 }
  threads := fun _ => .out
  draining := false
  signals := []
  kicked := fun _ => false

/-- A device on which `n` threads are blocked. -/
def Vdev.blocked (d : VbDev) (n : BitVec 32) : Vdev where
  dev := { d with refcount := n, evtAvail := false }
  threads := fun k => if k < n.toNat then .loopBack else .out
  draining := false
  signals := []
  kicked := fun _ => false

/-- The interrupt of the device, and the steps of the threads and of the exit. -/
inductive VdevAct where
  | interrupt (event eventData : BitVec 64)
  /-- `GH_WAIT_FOR_EVENT` up to `loop_back`. -/
  | enter (k : Nat)
  /-- The thread finds `evt_avail` set. -/
  | wake (k : Nat)
  /-- A signal ends the wait. -/
  | interrupted (k : Nat)
  /-- The code under the lock. -/
  | locked (k : Nat) (ackReg : BitVec 32)
  /-- The thread looks at `cur_event`, and returns or loops. -/
  | leave (k : Nat)
  | ackDriverOk
  | ioeventfd (i : Queue) (fd : Int) (ctx : Except Int Addr)
  | appExit
  /-- `gh_virtio_mmio_app_exit` finds that the references are gone. -/
  | drained

/-- A thread goes on. -/
def Vdev.setPc (s : Vdev) (k : Nat) (pc : WaitPc) : Vdev :=
  { s with threads := Function.update s.threads k pc }

/-- The device after a step that signals the queues `qs`. -/
def Vdev.signalled (s : Vdev) (r : VbDev × List Queue) : Vdev :=
  { s with dev := r.1, signals := s.signals ++ r.2, kicked := fun i => s.kicked i && !decide (i ∈ r.2) }

/-- The queues raised by an event. -/
def Vdev.kick (s : Vdev) (event eventData : BitVec 64) : Vdev :=
  { s with kicked := fun i => s.kicked i || (decide (event &&& EVENT_NEW_BUFFER ≠ 0) && queueBit eventData i) }

/-- One such step, `none` where it is not enabled. -/
def vdevStep (s : Vdev) : VdevAct → Option Vdev
  | .interrupt event eventData =>
    if event = 0 then none
    else some ((s.kick event eventData).signalled (vdevInterrupt s.dev event eventData))
  | .enter k =>
    if s.threads k = .out then (vbDevGet s.dev).map fun d => { s.setPc k .loopBack with dev := d } else none
  | .wake k => if s.threads k = .loopBack ∧ s.dev.evtAvail then some (s.setPc k .lock) else none
  | .interrupted k =>
    if s.threads k = .loopBack ∧ s.dev.evtAvail = false then
      some { s.setPc k .out with dev := vbDevPut s.dev }
    else none
  | .locked k ackReg =>
    if s.threads k = .lock then some ((s.setPc k .check).signalled (waitSection s.dev ackReg)) else none
  | .leave k =>
    if s.threads k = .check then
      if s.dev.curEvent = 0 then some (s.setPc k .loopBack)
      else some { s.setPc k .out with dev := vbDevPut s.dev }
    else none
  | .ackDriverOk =>
    (vbDevGet s.dev).map fun d => { s with dev := vbDevPut { d with ackDriverOk := true } }
  | .ioeventfd i fd ctx =>
    (vbDevGet s.dev).map fun d => { s with dev := vbDevPut (vbDevIoeventfd d i fd ctx).1 }
  | .appExit => some { s with dev := appExitSection s.dev, draining := s.dev.refcount ≠ 0 }
  | .drained => if s.draining ∧ s.dev.refcount = 0 then some { s with draining := false } else none

end GH.Impl.Virtio
