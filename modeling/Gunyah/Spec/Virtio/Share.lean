import Gunyah.Impl.Virtio.Share

/-!
# Who has the buffers of a VM

What the SCM and the RM have of a buffer (`BufMem`): where it is, its owners,
and the memparcels made of it. A call changes a buffer where it succeeds and
names the memory of the buffer (`BufMem.call`), and `memAfter` is what they have
after a list of calls.
-/

namespace GH.Spec.Share

open GH.Impl GH.Impl.Share
open GH.Impl.Rm (VmId)
open GH.Impl.Shmem (VmPerm QCOM_SCM_PERM_RWX)

/-- A buffer: its memory, the owners, and its memparcels that have not been
reclaimed. -/
structure BufMem where
  start : BitVec 64
  size : BitVec 64
  owners : List VmPerm
  parcels : List (BitVec 32) := []
  deriving DecidableEq

/-- The memory is that of the buffer that the driver has noted. -/
def BufMem.IsOf (m : BufMem) (b : SharedMemory) : Prop := m.start = b.start ∧ m.size = b.size

/-- What a call that is answered so makes of a buffer. A call for other memory
changes nothing. -/
def BufMem.call (m : BufMem) : ShareCall → BufMem
  | .assignMem phys size _ newvm ret =>
    if ret = 0 ∧ phys = m.start ∧ size = m.size then { m with owners := newvm } else m
  | .memShare _ _ sgl ret handle =>
    if ret = 0 ∧ sgl = [⟨m.start, m.size⟩] then { m with parcels := handle :: m.parcels } else m
  | .memReclaim handle ret => if ret = 0 then { m with parcels := m.parcels.erase handle } else m

/-- The calls for the buffer with an index, in their order. -/
def callsOf (i : Nat) (cs : List (Nat × ShareCall)) : List ShareCall :=
  cs.filterMap fun p => if p.1 = i then some p.2 else none

/-- What a buffer is after calls. -/
def memAfter (w : Nat → BufMem) (cs : List (Nat × ShareCall)) : Nat → BufMem := fun i =>
  (callsOf i cs).foldl BufMem.call (w i)

/-- A call is for a buffer: for its memory, and under its label. -/
def ShareCall.IsFor (b : SharedMemory) : ShareCall → Prop
  | .assignMem phys size _ _ _ => phys = b.start ∧ size = b.size
  | .memShare label _ sgl _ _ => label = b.gunyahLabel ∧ sgl = [⟨b.start, b.size⟩]
  | .memReclaim .. => True

/-- The memparcel that a call makes. -/
def ShareCall.obtains : ShareCall → Option (BitVec 32)
  | .memShare _ _ _ ret handle => if ret = 0 then some handle else none
  | .assignMem .. | .memReclaim .. => none

/-- The memparcel that a call reclaims. -/
def ShareCall.reclaims : ShareCall → Option (BitVec 32)
  | .memReclaim handle ret => if ret = 0 then some handle else none
  | .assignMem .. | .memShare .. => none

/-- The memparcels that calls make. -/
def obtained (cs : List ShareCall) : List (BitVec 32) := cs.filterMap ShareCall.obtains

/-- The memparcels that calls reclaim. -/
def reclaimed (cs : List ShareCall) : List (BitVec 32) := cs.filterMap ShareCall.reclaims

/-- A buffer is the VM's alone. -/
def Alone (vmid : VmId) (m : BufMem) : Prop := m.owners.map VmPerm.vmid = [vmid]

/-- `share_a_vm_buffer` fails. -/
def ShareAnswers.Fails (a : ShareAnswers) : Prop := a.acl = false ∨ a.sgl = false ∨ a.assign ≠ 0 ∨ a.share ≠ 0

/-- The calls that take a buffer back succeed. -/
def Compensates (a : BufAnswers) (i : Nat) : Prop :=
  (a.share i).back = 0 ∧ (a.unshare i).reclaim = 0 ∧ (a.unshare i).assign = 0

/-- What is left of a call of `share_vm_buffers` that comes to nothing. -/
structure NothingShared (vm : ShmVm) (a : BufAnswers) (r : ShmVm × List (Nat × ShareCall) × Int) : Prop where
  ret : r.2.2 ≠ 0
  flag : r.1.hypAssignDone = vm.hypAssignDone
  /-- The calls for a buffer are for its memory, and under its label. -/
  own (i : Nat) : ∀ c ∈ callsOf i r.2.1, ShareCall.IsFor (vm.shmem i) c
  /-- Where a buffer was the primary VM's alone, it is so again. -/
  alone (w : Nat → BufMem) (i : Nat) : (w i).IsOf (vm.shmem i) → Alone a.self (w i) →
    Alone a.self (memAfter w r.2.1 i)
  /-- Every memparcel that was made of a buffer is reclaimed, once. -/
  reclaimed (i : Nat) : reclaimed (callsOf i r.2.1) = obtained (callsOf i r.2.1)
  parcels (w : Nat → BufMem) (i : Nat) : (w i).IsOf (vm.shmem i) → (memAfter w r.2.1 i).parcels = (w i).parcels

/-- A call of `share_vm_buffers` that shares every buffer. -/
structure AllShared (vm : ShmVm) (peer : VmId) (a : BufAnswers) (r : ShmVm × List (Nat × ShareCall) × Int) : Prop where
  ret : r.2.2 = 0
  flag : r.1.hypAssignDone = true
  /-- The calls for a buffer are for its memory, and under its label. -/
  own (i : Nat) : ∀ c ∈ callsOf i r.2.1, ShareCall.IsFor (vm.shmem i) c
  owners (w : Nat → BufMem) (i : Nat) : i < vm.shmemEntries → (w i).IsOf (vm.shmem i) →
    (memAfter w r.2.1 i).owners = dstPerms a.self peer
  /-- One memparcel is made of every buffer, and kept. -/
  once (i : Nat) : i < vm.shmemEntries →
    obtained (callsOf i r.2.1) = [(r.1.shmem i).shmMemparcel] ∧ reclaimed (callsOf i r.2.1) = []
  parcels (w : Nat → BufMem) (i : Nat) : i < vm.shmemEntries → (w i).IsOf (vm.shmem i) →
    (memAfter w r.2.1 i).parcels = (r.1.shmem i).shmMemparcel :: (w i).parcels

/-- A step of `share_vm_buffers` fails. -/
def ShareFails (vm : ShmVm) (a : BufAnswers) : Prop :=
  a.vmidRet ≠ 0 ∨ ∃ i < vm.shmemEntries, ShareAnswers.Fails (a.share i)

/-! ## Runs -/

/-- A VM's buffers, as the driver and as the hypervisor have them. -/
structure ShmState where
  vm : ShmVm
  mem : Nat → BufMem

/-- A VM whose buffers nobody else has yet. -/
def ShmState.new (self : VmId) (vm : ShmVm) : ShmState where
  vm := vm
  mem i := ⟨(vm.shmem i).start, (vm.shmem i).size, [⟨self, QCOM_SCM_PERM_RWX⟩], []⟩

/-- The operations on the VM's devices. -/
inductive ShmAct where
  | init (a : InitAnswers)
  | exit (a : BufAnswers)

/-- An operation for the VM `peer`: the VM's buffers, the calls, and what it returns. -/
def ShmAct.result (peer : VmId) (vm : ShmVm) : ShmAct → ShmVm × List (Nat × ShareCall) × Int
  | .init a => ghVirtioMmioInit vm peer a
  | .exit a => ghVirtioMmioExit vm peer a

/-- An operation, with what its calls make of the buffers. -/
def shmStep (peer : VmId) (s : ShmState) (act : ShmAct) : Option ShmState :=
  let r := act.result peer s.vm
  some ⟨r.1, memAfter s.mem r.2.1⟩

/-- A buffer is shared: it belongs to the VM too, and the memparcel that the
driver keeps has not been reclaimed. -/
def Shared (peer : VmId) (b : SharedMemory) (m : BufMem) : Prop :=
  (∃ p ∈ m.owners, p.vmid = peer) ∧ b.shmMemparcel ∈ m.parcels

/-- `hyp_assign_done` says whether every buffer is shared. -/
def FlagRight (peer : VmId) (s : ShmState) : Prop :=
  s.vm.hypAssignDone = true ↔ ∀ i < s.vm.shmemEntries, Shared peer (s.vm.shmem i) (s.mem i)

/-- Of a buffer only a memparcel that it has is reclaimed. -/
def ReclaimsLive (m : BufMem) (cs : List ShareCall) : Prop :=
  ∀ l handle ret r, cs = l ++ .memReclaim handle ret :: r → handle ∈ (l.foldl BufMem.call m).parcels

/-- The calls of a step reclaim no memparcel that is gone. -/
def StepReclaimsLive (peer : VmId) (s : ShmState) (act : ShmAct) : Prop :=
  ∀ i, ReclaimsLive (s.mem i) (callsOf i (act.result peer s.vm).2.1)

/-- `gh_virtio_mmio_init` succeeds only with every buffer shared. -/
def InitShares (peer : VmId) (s : ShmState) (act : ShmAct) (t : ShmState) : Prop :=
  ∀ a, act = .init a → (act.result peer s.vm).2.2 = 0 →
    ∀ i < t.vm.shmemEntries, Shared peer (t.vm.shmem i) (t.mem i)

/-- `unshare_vm_buffers` takes back all buffers, or none: the VMID of the primary
VM is not known, the first memparcel cannot be reclaimed, or no call fails. -/
def CleanUnshare (n : Nat) (a : BufAnswers) : Prop :=
  a.vmidRet ≠ 0 ∨ (a.unshare 0).reclaim ≠ 0 ∨ ∀ i < n, (a.unshare i).reclaim = 0 ∧ (a.unshare i).assign = 0

/-- Where an operation takes back the buffers that are shared, it takes back all
or none. -/
def Clean (s : ShmState) : ShmAct → Prop
  | .init a =>
    s.vm.hypAssignDone = true ∨ ¬ ShareFails s.vm a.share → a.irq ≠ 0 ∨ a.map = false →
      CleanUnshare s.vm.shmemEntries a.unshare
  | .exit a => s.vm.hypAssignDone = true → CleanUnshare s.vm.shmemEntries a

end GH.Spec.Share
