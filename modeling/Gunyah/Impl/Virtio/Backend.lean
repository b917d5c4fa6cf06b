import Gunyah.Impl.Virtio.Device

/-!
# The virtio backend

`gh_virtio_backend_ioctl`, `gh_virtio_mmio_init` and `gh_virtio_backend_probe`
of `gh_secure_vm_virtio_backend.c`, with all their return paths. An operation
that takes a reference on a device (`vb_dev_get`) does so in one step, and
comes to its `vb_dev_put` and its return in another; in between it is one of
`ops`. A thread in `GH_WAIT_FOR_EVENT` makes the steps of `Device.lean` there.

VMs are found by their names and devices by their labels: both lists hold at
most one of each, as `gh_virtio_backend_probe` looks before it adds. What user
space passes is in the command (`none` where it cannot be copied), and so is
what the hypervisor and the kernel answer. `returned` is history.
-/

namespace GH.Impl.Virtio

/-- The room for a name, and the flags that assign an eventfd. -/
abbrev GH_VM_FW_NAME_MAX : Nat := 16
def VBE_ASSIGN_IOEVENTFD : BitVec 32 := 1
def VBE_ASSIGN_IRQFD : BitVec 32 := 1

/-- The name of a VM, without the zero byte at its end. -/
abbrev FwName := List Byte

/-- `struct virtio_eventfd`. -/
structure VirtioEventfd where
  label : BitVec 32
  flags : BitVec 32
  queueNum : BitVec 32
  fd : Int

/-- `struct virtio_irqfd`. -/
structure VirtioIrqfd where
  label : BitVec 32
  flags : BitVec 32
  fd : Int

/-- `struct virtio_dev_features`, and of `struct virtio_driver_features` what is passed in. -/
structure VirtioDevFeatures where
  label : BitVec 32
  featuresSel : BitVec 32
  features : BitVec 32

/-- `struct virtio_queue_max`, and of `struct virtio_queue_info` what is passed in. -/
structure VirtioQueueMax where
  label : BitVec 32
  queueSel : BitVec 32
  queueNumMax : BitVec 32

/-- `struct virtio_config_data`. -/
structure VirtioConfigData where
  label : BitVec 32
  configSize : BitVec 32
  configData : BitVec 64

/-- The commands. `ret` is what the hypervisor answers, and `copied` says whether
user space takes the answer. -/
inductive Cmd where
  | getSharedMemorySize (copied : Bool)
  | ioeventfd (efd : Option VirtioEventfd) (ctx : Except Int Addr)
  | irqfd (ifd : Option VirtioIrqfd) (file : Option (Except Int Addr))
  | waitForEvent (label : Option (BitVec 32)) (copied : Bool)
  | getDriverFeatures (df : Option VirtioDevFeatures) (ret : Int) (copied : Bool)
  | getQueueInfo (qi : Option VirtioQueueMax) (ret : Int) (copied : Bool)
  | ackDriverOk (label : BitVec 32)
  | ackReset (label : Option (BitVec 32))
  | setDeviceFeatures (f : Option VirtioDevFeatures) (ret : Int)
  | setQueueNumMax (q : Option VirtioQueueMax) (ret : Int)
  /-- `left` bytes are not copied. -/
  | getDriverConfigData (d : Option VirtioConfigData) (left : Nat)
  /-- `page` says whether `__get_free_pages` gives one. -/
  | setDeviceConfigData (d : Option VirtioConfigData) (page copied : Bool)
  | setInputDeviceConfigData (label : Option (BitVec 32)) (ret : Int)
  | setInputDeviceData (label : Option (BitVec 32)) (ret : Int)
  | other

/-- What `copy_from_user` gives, or `EFAULT`. -/
def copyFromUser {α : Type} : Option α → Except Int α
  | none => .error (-EFAULT)
  | some a => .ok a

/-- A check, with the answer where it fails. -/
def refuse (c : Prop) [Decidable c] (e : Int) : Except Int Unit := if c then .error (-e) else .ok ()

/-- A command up to `vb_dev_get`: the label of the device, or the value that is
returned without one. -/
def Cmd.label : Cmd → Except Int (BitVec 32)
  | .getSharedMemorySize copied => .error (if copied then 0 else -EFAULT)
  | .ioeventfd efd _ => do
    let efd ← copyFromUser efd
    refuse (efd.queueNum.toNat ≥ MAX_IO_CONTEXTS) EINVAL
    refuse (efd.flags ≠ VBE_ASSIGN_IOEVENTFD) EOPNOTSUPP
    return efd.label
  | .irqfd ifd _ => do
    let ifd ← copyFromUser ifd
    refuse (ifd.label = 0 ∨ ifd.fd ≤ 0) EINVAL
    refuse (ifd.flags ≠ VBE_ASSIGN_IRQFD) EOPNOTSUPP
    return ifd.label
  | .getDriverFeatures f _ _ | .setDeviceFeatures f _ => do
    let f ← copyFromUser f
    refuse (f.label = 0 ∨ f.featuresSel > 1) EINVAL
    return f.label
  | .getQueueInfo q _ _ | .setQueueNumMax q _ => do
    let q ← copyFromUser q
    refuse (q.label = 0 ∨ q.queueSel.toNat ≥ MAX_IO_CONTEXTS) EINVAL
    return q.label
  | .ackDriverOk label => do
    refuse (label = 0) EINVAL
    return label
  | .waitForEvent label _ | .ackReset label | .setInputDeviceConfigData label _ | .setInputDeviceData label _ => do
    let label ← copyFromUser label
    refuse (label = 0) EINVAL
    return label
  | .getDriverConfigData d _ | .setDeviceConfigData d _ _ => do
    let d ← copyFromUser d
    return d.label
  | .other => .error (-EINVAL)

/-- `vb_dev_irqfd`; `file` is what `fdget` and `eventfd_ctx_fileget` give. -/
def vbDevIrqfd (d : VbDev) (file : Option (Except Int Addr)) : VbDev × Int :=
  if d.irq then (d, -EBUSY)
  else
    match file with
    | none => (d, -EBUSY)
    | some (.error e) => (d, e)
    | some (.ok _) => ({ d with irq := true }, 0)

/-- The check that both commands on the configuration make under the mutex. -/
def configRefused (d : VbDev) (c : VirtioConfigData) : Prop :=
  c.label = 0 ∨ c.configSize.zeroExtend 64 > d.configSharedSize ∨ c.configSize = 0 ∨ c.configData = 0

instance (d : VbDev) (c : VirtioConfigData) : Decidable (configRefused d c) :=
  inferInstanceAs (Decidable (_ ∨ _ ∨ _ ∨ _))

/-- `GH_SET_DEVICE_CONFIG_DATA` under the mutex. -/
def setConfigSection (d : VbDev) (c : VirtioConfigData) (page copied : Bool) : VbDev × Int :=
  if configRefused d c then (vbDevPut d, -EINVAL)
  else if d.configData then (vbDevPut d, -EBUSY)
  else if d.configSharedBuf = false then (vbDevPut d, -EINVAL)
  else if page = false then (vbDevPut d, -ENOMEM)
  else if copied = false then (vbDevPut { d with configData := false }, -EFAULT)
  else (vbDevPut { d with configData := true, configSize := c.configSize }, 0)

/-- A command from `vb_dev_get` to its return. -/
def Cmd.body (d : VbDev) : Cmd → VbDev × Int
  | .ioeventfd (some efd) ctx =>
    let (d, ret) := vbDevIoeventfd d (Fin.ofNat _ efd.queueNum.toNat) efd.fd ctx
    (vbDevPut d, ret)
  | .irqfd (some _) file =>
    let (d, ret) := vbDevIrqfd d file
    (vbDevPut d, ret)
  | .getDriverFeatures (some _) ret copied | .getQueueInfo (some _) ret copied =>
    if d.capId = 0 then (vbDevPut d, -EINVAL)
    else (vbDevPut d, if ret ≠ 0 then ret else if copied then 0 else -EFAULT)
  | .ackDriverOk _ => (vbDevPut { d with ackDriverOk := true }, 0)
  | .ackReset (some _) => if d.capId = 0 then (d, -EINVAL) else (vbDevPut d, 0)
  | .setDeviceFeatures (some f) ret =>
    let d := { d with features := Function.update d.features (Fin.ofNat _ f.featuresSel.toNat) f.features }
    if ret ≠ 0 then (vbDevPut d, ret) else (vbDevPut d, 0)
  | .setQueueNumMax (some q) ret =>
    let d := { d with queueNumMax := Function.update d.queueNumMax (Fin.ofNat _ q.queueSel.toNat) q.queueNumMax }
    if ret ≠ 0 then (vbDevPut d, ret) else (vbDevPut d, 0)
  | .getDriverConfigData (some c) left =>
    if configRefused d c then (vbDevPut d, -EINVAL)
    else if d.configSharedBuf = false then (vbDevPut d, -EINVAL)
    else (vbDevPut d, left)
  | .setDeviceConfigData (some c) page copied => setConfigSection d c page copied
  | .setInputDeviceConfigData (some _) ret | .setInputDeviceData (some _) ret =>
    if ret ≠ 0 then (vbDevPut d, ret) else (vbDevPut d, 0)
  -- these have returned without a device, or wait (`Call.wait`)
  | _ => (d, 0)

/-- `struct virt_machine`. -/
structure VirtMachine where
  hypAssignDone : Bool := false
  shmemSize : BitVec 64
  devs : BitVec 32 → Option VbDev := fun _ => none

/-- The arguments of `gh_virtio_mmio_init`, and what `share_vm_buffers`,
`request_irq`, `ioremap` and `unshare_vm_buffers` answer. -/
structure MmioInit where
  label : BitVec 32
  capId : BitVec 64
  size : BitVec 64
  share : Int
  irq : Int
  map : Bool
  unshare : Int

/-- `unshare_vm_buffers`. -/
def unshareVmBuffers (vm : VirtMachine) (ret : Int) : VirtMachine :=
  if vm.hypAssignDone = false then vm else if ret ≠ 0 then vm else { vm with hypAssignDone := false }

/-- `gh_virtio_mmio_init` from `vb_dev_get` to its return. -/
def mmioInitBody (vm : VirtMachine) (d : VbDev) (m : MmioInit) : VirtMachine × VbDev × Int :=
  if vm.hypAssignDone = false ∧ m.share ≠ 0 then (vm, vbDevPut d, m.share)
  else
    let vm := { vm with hypAssignDone := true }
    if m.irq ≠ 0 then (unshareVmBuffers vm m.unshare, vbDevPut d, m.irq)
    else if m.map = false then
      (unshareVmBuffers vm m.unshare, vbDevPut { d with configSharedBuf := false }, -ENOMEM)
    else
      (vm, vbDevPut (initVbDevOpen { d with configSharedBuf := true, capId := m.capId, configSharedSize := m.size }),
        0)

/-! ## Operations -/

/-- What an operation that holds a reference is doing. -/
inductive Call where
  | ioctl (cmd : Cmd)
  | wait (copied : Bool) (pc : WaitPc)
  | mmioInit (m : MmioInit)

/-- An operation that is between its `vb_dev_get` and its return. -/
structure Op where
  name : FwName
  label : BitVec 32
  call : Call

/-- The VMs with their devices, the operations under way, and what calls have returned. -/
structure Backend where
  vms : FwName → Option VirtMachine
  ops : List Op
  returned : List Int

/-- The module after its start. -/
def Backend.init : Backend := { vms := fun _ => none, ops := [], returned := [] }

/-- `vb_dev_get` without its reference: the device with a label. -/
def Backend.dev (s : Backend) (name : FwName) (label : BitVec 32) : Option VbDev :=
  (s.vms name).bind fun vm => vm.devs label

/-- A write to a VM. -/
def Backend.setVm (s : Backend) (name : FwName) (vm : VirtMachine) : Backend :=
  { s with vms := Function.update s.vms name (some vm) }

/-- A write to a device. -/
def VirtMachine.setDev (vm : VirtMachine) (label : BitVec 32) (d : VbDev) : VirtMachine :=
  { vm with devs := Function.update vm.devs label (some d) }

/-- An operation returns. -/
def Backend.ret (s : Backend) (v : Int) : Backend := { s with returned := s.returned ++ [v] }

/-- An operation takes a reference on the device of the VM: `missing` is returned
where there is none, or none can be taken. -/
def Backend.get (s : Backend) (vm : VirtMachine) (op : Op) (missing : Int) : Backend :=
  match (vm.devs op.label).bind vbDevGet with
  | none => s.ret missing
  | some d => { s.setVm op.name (vm.setDev op.label d) with ops := s.ops ++ [op] }

/-- What a command does once it has the device. -/
def Cmd.call : Cmd → Call
  | .waitForEvent _ copied => .wait copied .loopBack
  | cmd => .ioctl cmd

/-- `gh_virtio_backend_ioctl`, up to `vb_dev_get`. -/
def ghVirtioBackendIoctl (s : Backend) (name : FwName) (cmd : Cmd) : Backend :=
  match s.vms name with
  | none => s.ret (-EINVAL)
  | some vm =>
    match cmd.label with
    | .error v => s.ret v
    | .ok label => s.get vm ⟨name, label, cmd.call⟩ (-EINVAL)

/-- `gh_virtio_mmio_init`, up to `vb_dev_get`. -/
def ghVirtioMmioInit (s : Backend) (name : FwName) (m : MmioInit) : Backend :=
  match s.vms name with
  | none => s.ret (-ENODEV)
  | some vm =>
    if name.length ≥ GH_VM_FW_NAME_MAX then s.ret (-EINVAL)
    else s.get vm ⟨name, m.label, .mmioInit m⟩ (-ENODEV)

/-- What `gh_virtio_backend_probe` finds in the device tree, and what `new_vm`
and `devm_kzalloc` answer. -/
structure Probe where
  vm : Bool
  label : Option (BitVec 32)
  newVm : Option (BitVec 64)
  alloc : Bool

/-- The part of `gh_virtio_backend_probe` on a VM. -/
def probeVm (s : Backend) (name : FwName) (vm : VirtMachine) (label : BitVec 32) (alloc : Bool) : Backend × Int :=
  match vm.devs label with
  | some d => (s.setVm name (vm.setDev label (vbDevPut d)), -EINVAL)
  | none =>
    if alloc = false then (s, -ENOMEM)
    else (s.setVm name (vm.setDev label { label := label }), 0)

/-- `gh_virtio_backend_probe`. -/
def ghVirtioBackendProbe (s : Backend) (name : FwName) (p : Probe) : Backend × Int :=
  if p.vm = false then (s, -EINVAL)
  else if name.length ≥ GH_VM_FW_NAME_MAX then (s, -EINVAL)
  else
    match p.label with
    | none => (s, -EINVAL)
    | some label =>
      if label = 0 then (s, -EINVAL)
      else
        match s.vms name with
        | some vm => probeVm s name vm label p.alloc
        | none =>
          match p.newVm with
          | none => (s, -ENODEV)
          | some size =>
            let vm := { shmemSize := size }
            probeVm (s.setVm name vm) name vm label p.alloc

/-- The entry points of the driver, and the steps of the operations that wait. -/
inductive BackendAct where
  | ioctl (name : FwName) (cmd : Cmd)
  | mmioInit (name : FwName) (m : MmioInit)
  | probe (name : FwName) (p : Probe)
  | interrupt (name : FwName) (label : BitVec 32) (event eventData : BitVec 64)
  /-- The thread of an operation finds `evt_avail` set, or takes the lock. -/
  | turn (i : Nat) (ackReg : BitVec 32)
  /-- A signal ends the wait. -/
  | interrupted (i : Nat)
  /-- An operation comes to its return, or a thread that waits loops. -/
  | finish (i : Nat)

/-- The steps of a thread in `GH_WAIT_FOR_EVENT` up to its look at `cur_event`. -/
def waitTurn (d : VbDev) (ackReg : BitVec 32) : WaitPc → Option (VbDev × WaitPc)
  | .loopBack => if d.evtAvail then some (d, .lock) else none
  | .lock => some ((waitSection d ackReg).1, .check)
  | .check | .out => none

/-- Operation `i` goes on as `call`. -/
def Backend.go (s : Backend) (i : Nat) (op : Op) (vm : VirtMachine) (d : VbDev) (call : Call) : Backend :=
  { s.setVm op.name (vm.setDev op.label d) with ops := s.ops.set i { op with call := call } }

/-- Operation `i` returns. -/
def Backend.done (s : Backend) (i : Nat) (op : Op) (vm : VirtMachine) (d : VbDev) (v : Int) : Backend :=
  { (s.setVm op.name (vm.setDev op.label d)).ret v with ops := s.ops.eraseIdx i }

/-- The last part of operation `i`. -/
def finishOp (s : Backend) (i : Nat) (op : Op) (vm : VirtMachine) (d : VbDev) : Option Backend :=
  match op.call with
  | .ioctl cmd =>
    let (d, v) := cmd.body d
    some (s.done i op vm d v)
  | .mmioInit m =>
    let (vm, d, v) := mmioInitBody vm d m
    some (s.done i op vm d v)
  | .wait copied .check =>
    if d.curEvent = 0 then some (s.go i op vm d (.wait copied .loopBack))
    else some (s.done i op vm (vbDevPut d) (if copied then 0 else -EFAULT))
  | .wait _ _ => none

/-- An operation with its VM and its device. -/
def Backend.op (s : Backend) (i : Nat) : Option (Op × VirtMachine × VbDev) := do
  let op ← s.ops[i]?
  let vm ← s.vms op.name
  let d ← vm.devs op.label
  return (op, vm, d)

/-- One such step, `none` where it is not enabled. -/
def backendStep (s : Backend) : BackendAct → Option Backend
  | .ioctl name cmd => some (ghVirtioBackendIoctl s name cmd)
  | .mmioInit name m => some (ghVirtioMmioInit s name m)
  | .probe name p =>
    let (s, v) := ghVirtioBackendProbe s name p
    some (s.ret v)
  | .interrupt name label event eventData => do
    let vm ← s.vms name
    let d ← vm.devs label
    if event = 0 then none
    else some (s.setVm name (vm.setDev label (vdevInterrupt d event eventData).1))
  | .turn i ackReg => do
    let (op, vm, d) ← s.op i
    match op.call with
    | .wait copied pc => do
      let (d, pc) ← waitTurn d ackReg pc
      some (s.go i op vm d (.wait copied pc))
    | _ => none
  | .interrupted i => do
    let (op, vm, d) ← s.op i
    match op.call with
    | .wait _ .loopBack => if d.evtAvail then none else some (s.done i op vm (vbDevPut d) (-ERESTARTSYS))
    | _ => none
  | .finish i => do
    let (op, vm, d) ← s.op i
    finishOp s i op vm d

end GH.Impl.Virtio
