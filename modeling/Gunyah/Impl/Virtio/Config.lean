import Gunyah.Impl.Virtio.Backend
import Gunyah.Impl.Vm.Metadata

/-!
# The configuration of a virtio backend device

`gh_secure_vm_virtio_backend.c`: the commands `GH_SET_DEVICE_CONFIG_DATA` and
`GH_GET_DRIVER_CONFIG_DATA`, which copy a device's configuration to and from the
page that is shared with the frontend, and `GH_SET_INPUT_DEVICE_DATA`, each on
the device that it has found, and the parts of `gh_virtio_mmio_init` and
`gh_virtio_mmio_exit` that set the page up.

Memory is a function of the offset. Beside what it does, a command has the
accesses that it makes to the objects it works on (`Access`). `copy_from_user`
fills up with zeros what it cannot copy, so it writes to its whole destination.
-/

namespace GH.Impl.Config

open GH.Impl.Virtio (VirtioConfigData)
open GH.Impl.Vm (PAGE_SIZE)

/-- What `ioremap` has mapped. -/
structure Mapping where
  size : Nat
  bytes : Nat → Byte

/-- Of `struct virtio_backend_device` what is about the configuration; the size
of the shared page is that of the mapping. -/
structure ConfigDev where
  configData : Option (Nat → Byte) := none
  configSize : BitVec 32 := 0
  configSharedBuf : Option Mapping := none
  configSharedSize : BitVec 64 := 0
  mapped : ∀ m, configSharedBuf = some m → m.size = configSharedSize.toNat

/-- After `gh_virtio_backend_probe`. -/
def ConfigDev.new : ConfigDev where
  mapped _ h := by cases h

/-- What is on the shared page is changed. -/
def ConfigDev.modifyShared (d : ConfigDev) (f : (Nat → Byte) → Nat → Byte) : ConfigDev :=
  { d with
    configSharedBuf := d.configSharedBuf.map fun m => { m with bytes := f m.bytes }
    mapped := fun m h => by
      obtain ⟨m', hm', rfl⟩ := Option.map_eq_some_iff.mp h
      exact d.mapped m' hm' }

/-- The objects whose sizes are given: the page of `config_data`, the shared page,
and the payload of `struct virtio_input_device_data`. -/
inductive Obj where
  | configData
  | configSharedBuf
  | payload
  deriving DecidableEq, Repr

/-- An access to `len` bytes of an object from `off` on. -/
structure Access where
  obj : Obj
  off : Nat
  len : Nat
  deriving DecidableEq, Repr

/-! ## Words -/

/-- Word `i`, as the CPU reads it. -/
def word (x : Nat → Byte) (i : Nat) : BitVec 32 := x (4 * i + 3) ++ x (4 * i + 2) ++ x (4 * i + 1) ++ x (4 * i)

/-- `writel_relaxed`, to word `i`. -/
def writelRelaxed (w : BitVec 32) (p : Nat → Byte) (i : Nat) : Nat → Byte := fun k =>
  if 4 * i ≤ k ∧ k < 4 * i + 4 then w.extractLsb' (8 * (k - 4 * i)) 8 else p k

/-- The loop that writes the first `n` words of `x` to `p`. -/
def copyWords (p x : Nat → Byte) : Nat → Nat → Byte
  | 0 => p
  | n + 1 => writelRelaxed (word x n) (copyWords p x n) n

/-! ## The commands -/

/-- The check that both commands on the configuration make. -/
def ConfigRefused (d : ConfigDev) (c : VirtioConfigData) : Prop :=
  c.label = 0 ∨ c.configSize.zeroExtend 64 > d.configSharedSize ∨ c.configSize = 0 ∨ c.configData = 0

instance (d : ConfigDev) (c : VirtioConfigData) : Decidable (ConfigRefused d c) :=
  inferInstanceAs (Decidable (_ ∨ _ ∨ _ ∨ _))

/-- `GH_GET_DRIVER_CONFIG_DATA`: the bytes that user space gets, the accesses, and
what it returns. `copy_to_user` leaves out the last `left` bytes. -/
def getDriverConfigData (d : ConfigDev) (c : VirtioConfigData) (left : Nat) : List Byte × List Access × Int :=
  if ConfigRefused d c then ([], [], -EINVAL)
  else
    match d.configSharedBuf with
    | none => ([], [], -EINVAL)
    | some m =>
      ((List.range (c.configSize.toNat - left)).map m.bytes, [⟨.configSharedBuf, 0, c.configSize.toNat⟩], left)

/-- The accesses of `GH_SET_DEVICE_CONFIG_DATA` once it has copied the
configuration: the messages of the first words, the copy, and the messages of
the words copied. -/
def setAccesses (nrWords : Nat) : List Access :=
  (List.range 4).map (fun i => ⟨.configData, 4 * i, 4⟩) ++
    (List.range nrWords).flatMap (fun i => [⟨.configData, 4 * i, 4⟩, ⟨.configSharedBuf, 4 * i, 4⟩]) ++
    (List.range nrWords).map fun i => ⟨.configSharedBuf, 4 * i, 4⟩

/-- The configuration as it is copied to a page of zeros. -/
def configPage (user : Nat → Byte) (n : Nat) : Nat → Byte := fun i => if i < n then user i else 0

/-- `GH_SET_DEVICE_CONFIG_DATA`: the device, the accesses, and what it returns.
`page` says whether there is a page, `user` is what user space has at
`config_data`, of which `left` bytes cannot be copied. -/
def setDeviceConfigData (d : ConfigDev) (c : VirtioConfigData) (page : Bool) (user : Nat → Byte) (left : Nat) :
    ConfigDev × List Access × Int :=
  let n := c.configSize.toNat
  let copy : Access := ⟨.configData, 0, n⟩
  if ConfigRefused d c then (d, [], -EINVAL)
  else if d.configData.isSome then (d, [], -EBUSY)
  else if d.configSharedBuf.isNone then (d, [], -EINVAL)
  else if page = false then (d, [], -ENOMEM)
  else if left ≠ 0 then (d, [copy], -EFAULT)
  else
    let data := configPage user n
    ({ d.modifyShared fun p => copyWords p data (n / 4) with configData := some data, configSize := c.configSize },
      copy :: setAccesses (n / 4), 0)

/-- `struct virtio_input_device_data`. -/
structure VirtioInputDeviceData where
  label : BitVec 32
  sel : BitVec 8
  subsel : BitVec 8
  size : BitVec 8
  payload : Fin 128 → Byte

/-- `GH_SET_INPUT_DEVICE_DATA`: the accesses of the hypercall to the payload, and
what it returns; `ret` is what the hypercall answers. -/
def setInputDeviceData (d : VirtioInputDeviceData) (ret : Int) : List Access × Int :=
  if d.label = 0 then ([], -EINVAL) else ([⟨.payload, 0, d.size.toNat⟩], if ret ≠ 0 then ret else 0)

/-! ## Runs -/

/-- The functions that read and write the configuration page, and the frontend's writes to it. -/
inductive ConfigAct where
  /-- `ioremap` maps `size` bytes, with what is there, or fails. -/
  | mmioInit (size : BitVec 64) (bytes : Option (Nat → Byte))
  | mmioExit
  /-- The frontend writes to the shared page. -/
  | guest (bytes : Nat → Byte)
  | get (c : VirtioConfigData) (left : Nat)
  | set (c : VirtioConfigData) (page : Bool) (user : Nat → Byte) (left : Nat)
  | input (idd : VirtioInputDeviceData) (ret : Int)

/-- The part of `gh_virtio_mmio_init` on the shared page. -/
def initConfig (d : ConfigDev) (size : BitVec 64) : Option (Nat → Byte) → ConfigDev
  | none => { d with configSharedBuf := none, mapped := fun m h => by cases h }
  | some bytes =>
    { d with
      configSharedBuf := some ⟨size.toNat, bytes⟩
      configSharedSize := size
      mapped := fun m h => by
        cases h
        rfl }

/-- The part of `gh_virtio_mmio_exit` on the configuration. -/
def exitConfig (d : ConfigDev) : ConfigDev :=
  { d with configData := none, configSharedBuf := none, mapped := fun m h => by cases h }

/-- An operation: the device, and the accesses. -/
def ConfigAct.result (d : ConfigDev) : ConfigAct → ConfigDev × List Access
  | .mmioInit size bytes => (initConfig d size bytes, [])
  | .mmioExit => (exitConfig d, [])
  | .guest bytes => (d.modifyShared fun _ => bytes, [])
  | .get c left => (d, (getDriverConfigData d c left).2.1)
  | .set c page user left =>
    let r := setDeviceConfigData d c page user left
    (r.1, r.2.1)
  | .input idd ret => (d, (setInputDeviceData idd ret).1)

/-- One of these. -/
def configStep (d : ConfigDev) (act : ConfigAct) : Option ConfigDev := some (act.result d).1

end GH.Impl.Config
