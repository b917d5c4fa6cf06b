import Gunyah.Impl.Virtio.Backend

/-!
# What the reference counts of devices are for

The count of a device is the number of operations that hold it (`RefsCounted`),
so that the exit of a VM can wait for them. `Balanced` is the condition on a
step under which the code keeps to this.
-/

namespace GH.Spec.Virtio

open GH.Impl GH.Impl.Virtio

/-- The number of operations between their `vb_dev_get` and their return. -/
def holding (s : Backend) (name : FwName) (label : BitVec 32) : Nat :=
  (s.ops.filter fun op => op.name = name ∧ op.label = label).length

/-- The count of a device is the number of those who hold a reference to it. -/
def RefsCounted (s : Backend) : Prop :=
  ∀ name label d, s.dev name label = some d → d.refcount.toNat = holding s name label

/-- `GH_ACK_RESET` comes to its check on a device that has been initialised, and no
label is probed twice. -/
def Balanced (s : Backend) : BackendAct → Prop
  | .finish i => ∀ op vm d r, s.op i = some (op, vm, d) → op.call = .ioctl (.ackReset r) → d.capId ≠ 0
  | .probe name p =>
    p.vm = true → name.length < GH_VM_FW_NAME_MAX → ∀ label, p.label = some label → label ≠ 0 →
      s.dev name label = none
  | _ => True

end GH.Spec.Virtio
