import Gunyah.Impl.Virtio.Config

/-!
# Accesses to the configuration

The sizes of the objects that the commands on a device's configuration access,
and the conditions under which each command keeps to them.
-/

namespace GH.Spec.Config

open GH.Impl GH.Impl.Config
open GH.Impl.Virtio (VirtioConfigData)
open GH.Impl.Vm (PAGE_SIZE)

/-- The size of an object: one page, the mapping, or the array in the structure. -/
def objSize (d : ConfigDev) : Obj → Nat
  | .configData => PAGE_SIZE.toNat
  | .configSharedBuf => (d.configSharedBuf.map Mapping.size).getD 0
  | .payload => 128

/-- The access is inside of what it is made to. -/
def Access.Inside (d : ConfigDev) (a : Access) : Prop := a.off + a.len ≤ objSize d a.obj

/-- An operation accesses only what its objects hold. -/
def StaysInside (d : ConfigDev) (act : ConfigAct) : Prop := ∀ a ∈ (act.result d).2, Access.Inside d a

/-- `GH_SET_DEVICE_CONFIG_DATA` gets as far as its copy from user space. -/
def Copies (d : ConfigDev) (c : VirtioConfigData) (page : Bool) : Prop :=
  ¬ ConfigRefused d c ∧ d.configData = none ∧ d.configSharedBuf.isSome ∧ page = true

/-- What is copied fits the page, and what the hypervisor is to read is in the payload. -/
def Fits (d : ConfigDev) : ConfigAct → Prop
  | .set c page _ _ => Copies d c page → c.configSize.toNat ≤ PAGE_SIZE.toNat
  | .input idd _ => idd.label ≠ 0 → idd.size.toNat ≤ 128
  | .mmioInit .. | .mmioExit | .guest _ | .get .. => True

end GH.Spec.Config
