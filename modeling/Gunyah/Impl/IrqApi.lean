import Gunyah.Impl.IrqLend
import Gunyah.Impl.Rm.Payloads

/-!
# Lent interrupts, while others run

The functions of `gh_irq_lend.c` that change the table ask the RM without a lock, so notifications and
other functions can run before its answer is there. Here each of them is a `Split`: what it does
before its request, and what it does to the table that it finds with the answer. Also the functions of
the old interface, and those that only send a notification.
-/

namespace GH.Impl.Irq.Api

open GH.Impl GH.Impl.Rm GH.Impl.Irq

/-- A function up to its request, and from the answer on: it returns an error, or goes on with the table, which
others may have changed. -/
structure Split where
  table : IrqTable
  call : RmCall (Except Int (IrqTable → IrqTable × Int))

namespace Split

/-- The function returns an error before it does anything. -/
def refuse (t : IrqTable) (ret : Int) : Split := ⟨t, .ret (.error ret)⟩

/-- The function where nothing runs before the answer. -/
def whole (s : Split) : RmCall (IrqTable × Int) :=
  s.call.map fun
    | .error ret => (s.table, ret)
    | .ok next => next s.table

end Split

/-! ## Lending and reclaiming -/

/-- `gh_irq_lend_v2`. -/
def ghIrqLendV2 (t : IrqTable) (label : BitVec 32) (virq : Option (BitVec 32)) (vmid : Except Int VmId)
    (cbHandle : Option Addr) (data : Addr) (o : Out) : Split :=
  withLabel label (.refuse t (-EINVAL)) fun l =>
    if cbHandle = none then .refuse t (-EINVAL)
    else
      match virq with
      | none => .refuse t (-EINVAL)
      | some virq =>
        if (t l).state ≠ .none then .refuse t (-EINVAL)
        else
          match vmid with
          | .error ret => .refuse t ret
          | .ok vmid =>
            ⟨Function.update t l { t l with vmid, v2Handle := cbHandle, data, state := .waitReleaseOrAccept },
              (ghRmVmIrqLend vmid virq label o).map fun (ret, h) =>
                if ret ≠ 0 then .error ret
                else .ok fun t => (Function.update t l { t l with virqHandle := h.getD (t l).virqHandle }, 0)⟩

/-- `gh_irq_lend`, of the old interface: `handle` is the field of that name of the entries. -/
def ghIrqLend (handle : IrqLabel → Option Addr) (label : BitVec 32) (cbHandle : Option Addr) : (IrqLabel → Option Addr) × Int :=
  withLabel label (handle, -EINVAL) fun l =>
    if cbHandle = none then (handle, -EINVAL) else (Function.update handle l cbHandle, 0)

/-- `gh_irq_reclaim`. -/
def ghIrqReclaim (t : IrqTable) (label : BitVec 32) (o : Out) : Split :=
  withLabel label (.refuse t (-EINVAL)) fun l =>
    if (t l).state ≠ .waitReleaseOrAccept ∧ (t l).state ≠ .released then .refuse t (-EINVAL)
    else
      ⟨t, (ghRmVmIrqReclaim (t l).virqHandle o).map fun ret =>
        if ret ≠ 0 then .error ret else .ok fun t => (t.setState l .none, 0)⟩

/-! ## Borrowing and releasing -/

/-- `gh_irq_wait_for_lend`, of the old interface. -/
def ghIrqWaitForLend : Int := 0

/-- `gh_irq_accept`. -/
def ghIrqAccept (t : IrqTable) (label : BitVec 32) (irq : Int) (virq : Option (BitVec 32)) (newIrq : Int) (o : Out) : Split :=
  withLabel label (.refuse t (-EINVAL)) fun l =>
    if (t l).state ≠ .lent then .refuse t (-EINVAL)
    else if irq ≠ -1 ∧ virq = none then .refuse t (-EINVAL)
    else
      let virq := if irq ≠ -1 then (virq.getD 0).toInt else -1
      ⟨t, (ghRmVmIrqAccept (t l).virqHandle virq o).map fun ret =>
        if ret < 0 then .error ret else .ok fun t => (t.setState l .accepted, if irq = -1 then newIrq else irq)⟩

/-- `gh_irq_release`. -/
def ghIrqRelease (t : IrqTable) (label : BitVec 32) (o : Out) : Split :=
  withLabel label (.refuse t (-EINVAL)) fun l =>
    if (t l).state ≠ .accepted then .refuse t (-EINVAL)
    else
      ⟨t, (ghRmVmIrqRelease (t l).virqHandle o).map fun ret =>
        if ret ≠ 0 then .error ret else .ok fun t => (t.setState l .waitLend, 0)⟩

/-! ## Telling the other VM -/

/-- The flags of a notification that the callers set, beside `LENT`. -/
def GH_VM_IRQ_NOTIFY_FLAGS_RELEASED : BitVec 16 := 2
def GH_VM_IRQ_NOTIFY_FLAGS_ACCEPTED : BitVec 16 := 4

/-- The functions that notify the other VM of an entry in one of the states `ok`. -/
def notifyIn (ok : IrqState → Bool) (vmids : IrqEntry → List VmId) (flags : BitVec 16) (t : IrqTable) (label : BitVec 32)
    (alloc : Bool) (o : Out) : RmCalls Int :=
  withLabel label (.ret (-EINVAL)) fun l =>
    if ok (t l).state then ghRmVmIrqNotify (vmids (t l)) flags (t l).virqHandle alloc o else .ret (-EINVAL)

/-- `gh_irq_lend_notify`. -/
def ghIrqLendNotify : IrqTable → BitVec 32 → Bool → Out → RmCalls Int :=
  notifyIn (· ≠ .none) (fun e => [e.vmid]) GH_VM_IRQ_NOTIFY_FLAGS_LENT

/-- `gh_irq_accept_notify`. -/
def ghIrqAcceptNotify : IrqTable → BitVec 32 → Bool → Out → RmCalls Int :=
  notifyIn (· = .accepted) (fun _ => []) GH_VM_IRQ_NOTIFY_FLAGS_ACCEPTED

/-- `gh_irq_release_notify`. -/
def ghIrqReleaseNotify : IrqTable → BitVec 32 → Bool → Out → RmCalls Int :=
  notifyIn (fun st => st = .accepted ∨ st = .waitLend) (fun _ => []) GH_VM_IRQ_NOTIFY_FLAGS_RELEASED

end GH.Impl.Irq.Api
