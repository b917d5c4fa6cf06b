import Gunyah.Impl.Virtio.Device

/-!
# What the events of a device are for

No event that is pending may be left without waking a thread (`EventWakes`);
no queue that the driver has kicked may be forgotten (`KicksKept`), or left
behind when its eventfd could be signalled (`KicksMove`); and the exit of the VM
may not wait for threads that nothing wakes (`Deadlock`).

`NoneStranded` and `NoKickLost` are the conditions on a step under which the
code keeps to this.
-/

namespace GH.Spec.Virtio

open GH.Impl GH.Impl.Virtio

/-- An event is pending only while a waiting thread is woken. -/
def EventWakes (s : Vdev) : Prop := s.dev.vdevEvent ≠ 0 → s.dev.evtAvail = true

/-- What a thread that gets the lock must find: no exit, and no event left over
in the branches that do not set `evt_avail`. -/
def NoneStranded (s : Vdev) : VdevAct → Prop
  | .locked _ _ =>
    match waitBranch s.dev.vdevEvent with
    | .exit => False
    | .resetRqst | .newBuffer => True
    | .driverOk => s.dev.ackDriverOk = false ∨ s.dev.vdevEvent &&& ~~~EVENT_DRIVER_OK = 0
    | .interruptAck => s.dev.vdevEvent &&& ~~~EVENT_INTERRUPT_ACK = 0
    | .nothing => s.dev.vdevEvent = 0
  | _ => True

/-! ## Kicks -/

/-- A kicked queue stays recorded until it is signalled. -/
def KicksKept (s : Vdev) : Prop := ∀ i, s.kicked i = true → queueBit s.dev.vdevEventData i = true

/-- The eventfd of a recorded queue can be signalled. -/
def Ready (d : VbDev) (i : Queue) : Prop :=
  queueBit d.vdevEventData i = true ∧ (d.ioctx i).ctx.isSome ∧ d.ackDriverOk = true

/-- `EVENT_NEW_BUFFER` is pending, and a waiting thread is woken. -/
def NewBufferPending (d : VbDev) : Prop := d.vdevEvent &&& EVENT_NEW_BUFFER ≠ 0 ∧ d.evtAvail = true

/-- A recorded queue that can be signalled will be. -/
def KicksMove (s : Vdev) : Prop := ∀ i, Ready s.dev i → NewBufferPending s.dev

/-- The conditions on a step: events without `EVENT_NEW_BUFFER` bring no queue
that could be signalled; no thread gets the lock while a kick would be dropped
or passed over; and neither `ack_driver_ok` nor an eventfd comes after a kick
that is no longer pending. -/
def NoKickLost (s : Vdev) : VdevAct → Prop
  | .interrupt event eventData =>
    s.dev.ackDriverOk = true → event &&& EVENT_NEW_BUFFER = 0 → s.dev.vdevEvent &&& EVENT_NEW_BUFFER = 0 →
      ∀ i, queueBit eventData i = true → (s.dev.ioctx i).ctx = none
  | .locked _ _ =>
    match waitBranch s.dev.vdevEvent with
    | .exit => ∀ i, ¬ Ready s.dev i
    | .driverOk => ∀ i, ¬ Ready s.dev i
    | .newBuffer => s.dev.vdevEvent &&& ~~~EVENT_NEW_BUFFER = 0 ∨ ∀ i, s.kicked i = true → Ready s.dev i
    | .interruptAck => ∀ i, s.kicked i = false
    | .resetRqst | .nothing => True
  | .ackDriverOk =>
    ∀ i, queueBit s.dev.vdevEventData i = true → (s.dev.ioctx i).ctx.isSome → NewBufferPending s.dev
  | .ioeventfd i fd ctx =>
    0 < fd → (s.dev.ioctx i).fd ≤ 0 → ctx.isOk = true → queueBit s.dev.vdevEventData i = true →
      s.dev.ackDriverOk = true → NewBufferPending s.dev
  | .appExit => ∀ i, s.kicked i = false
  | .enter _ | .wake _ | .interrupted _ | .leave _ | .drained => True

/-! ## The exit of the VM -/

/-- The exit waits for references whose holders are all blocked. -/
def Deadlock (s : Vdev) : Prop :=
  s.draining = true ∧ s.dev.refcount ≠ 0 ∧ ∀ k, s.threads k ≠ .out → s.threads k = .loopBack ∧ s.dev.evtAvail = false

/-- What may happen after the exit: no events of the hypervisor, and `late` threads
or none. -/
def AfterExit (late : Bool) : VdevAct → Prop
  | .interrupt _ _ | .appExit => False
  | .enter _ => late = true
  | _ => True

end GH.Spec.Virtio
