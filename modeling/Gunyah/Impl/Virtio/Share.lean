import Gunyah.Impl.Vm.Shmem

/-!
# The buffers that a virtio backend shares

`gh_secure_vm_virtio_backend.c`: the buffers of a VM (`note_shared_buffers`),
how they are shared with it (`share_vm_buffers`) and taken back
(`unshare_vm_buffers`), and `gh_virtio_mmio_init` and `gh_virtio_mmio_exit`,
which do so.

The array `vm->shmem` is a function of the index. What the kernel, the SCM and
the RM answer is part of an operation's arguments, by the index of the buffer.
Of the operations on a device it is kept which of them fail. A call is kept
with the index of the buffer that it is for.
-/

namespace GH.Impl.Share

open GH.Impl.Rm (VmId AclEntry SglEntry GH_RM_ACL_R GH_RM_ACL_W)
open GH.Impl.Shmem (VmPerm bit QCOM_SCM_PERM_RWX)

/-- The permission to read and write. -/
def QCOM_SCM_PERM_RW : BitVec 32 := 6

/-- `struct shared_memory`, with `r.start` and `resource_size(&r)`. -/
structure SharedMemory where
  start : BitVec 64
  size : BitVec 64
  gunyahLabel : BitVec 32
  shmMemparcel : BitVec 32 := 0
  deriving DecidableEq, Repr

/-- Of `struct virt_machine` what is about the buffers. -/
structure ShmVm where
  hypAssignDone : Bool := false
  shmem : Nat → SharedMemory
  shmemEntries : Nat

/-- A node of `shared-buffers`, as far as it can be parsed. -/
structure SharedNode where
  resource : Option (BitVec 64 × BitVec 64)
  gunyahLabel : Option (BitVec 32)

/-- The turn of the loop of `note_shared_buffers` for a node, which is `none`
where the property cannot be parsed. -/
def noteSharedBuffer : Option SharedNode → Except Int SharedMemory
  | none => .error (-EINVAL)
  | some n =>
    match n.resource, n.gunyahLabel with
    | some (start, size), some label => .ok { start := start, size := size, gunyahLabel := label }
    | _, _ => .error (-EINVAL)

/-- The loop of `note_shared_buffers`, over the first `n` nodes. -/
def noteLoop (nodes : Nat → Option SharedNode) (shmem : Nat → SharedMemory) : Nat → Except Int (Nat → SharedMemory)
  | 0 => .ok shmem
  | n + 1 => do
    let shmem ← noteLoop nodes shmem n
    let b ← noteSharedBuffer (nodes n)
    return Function.update shmem n b

/-- `note_shared_buffers`, on a new VM; `len` is the length of the property. -/
def noteSharedBuffers (len : Option (BitVec 32)) (alloc : Bool) (nodes : Nat → Option SharedNode) : Except Int ShmVm :=
  let nrEntries := (len.getD 0).toNat / 4
  if nrEntries = 0 then .error (-EINVAL)
  else if alloc = false then .error (-ENOMEM)
  else do
    let shmem ← noteLoop nodes (fun _ => ⟨0, 0, 0, 0⟩) nrEntries
    return { shmem := shmem, shmemEntries := nrEntries }

/-! ## One buffer -/

/-- A call, with what it answers. -/
inductive ShareCall where
  | assignMem (phys size srcvm : BitVec 64) (newvm : List VmPerm) (ret : Int)
  | memShare (label : BitVec 32) (acl : List AclEntry) (sgl : List SglEntry) (ret : Int) (handle : BitVec 32)
  | memReclaim (handle : BitVec 32) (ret : Int)
  deriving DecidableEq

/-- The answers to `share_a_vm_buffer`; `handle` is the memparcel that the RM
makes, and `back` answers the attempt to assign the buffer back. -/
structure ShareAnswers where
  acl : Bool := true
  sgl : Bool := true
  assign : Int := 0
  share : Int := 0
  handle : BitVec 32
  back : Int := 0

/-- The answers to `unshare_a_vm_buffer`. -/
structure UnshareAnswers where
  reclaim : Int := 0
  assign : Int := 0

/-- `unshare_a_vm_buffer`: its calls, and what it returns. -/
def unshareAVmBuffer (self peer : VmId) (b : SharedMemory) (a : UnshareAnswers) : List ShareCall × Int :=
  let reclaim := ShareCall.memReclaim b.shmMemparcel a.reclaim
  if a.reclaim ≠ 0 then ([reclaim], a.reclaim)
  else
    ([reclaim, .assignMem b.start b.size (bit self.toNat ||| bit peer.toNat) [⟨self, QCOM_SCM_PERM_RWX⟩] a.assign],
      a.assign)

/-- The owners of a buffer that is shared. -/
def dstPerms (self peer : VmId) : List VmPerm := [⟨self, QCOM_SCM_PERM_RW⟩, ⟨peer, QCOM_SCM_PERM_RW⟩]

/-- `share_a_vm_buffer`: the buffer, the calls, and what it returns. The RM
stores a handle only where it succeeds. -/
def shareAVmBuffer (self peer : VmId) (b : SharedMemory) (a : ShareAnswers) : SharedMemory × List ShareCall × Int :=
  if a.acl = false then (b, [], -ENOMEM)
  else if a.sgl = false then (b, [], -ENOMEM)
  else
    let assign := ShareCall.assignMem b.start b.size (bit self.toNat) (dstPerms self peer) a.assign
    if a.assign ≠ 0 then (b, [assign], a.assign)
    else
      let acl : List AclEntry := [⟨self, GH_RM_ACL_R ||| GH_RM_ACL_W⟩, ⟨peer, GH_RM_ACL_R ||| GH_RM_ACL_W⟩]
      let share := ShareCall.memShare b.gunyahLabel acl [⟨b.start, b.size⟩] a.share a.handle
      if a.share ≠ 0 then
        (b, [assign, share, .assignMem b.start b.size (bit self.toNat ||| bit peer.toNat)
          [⟨self, QCOM_SCM_PERM_RWX⟩] a.back], a.share)
      else ({ b with shmMemparcel := a.handle }, [assign, share], 0)

/-! ## All buffers of a VM -/

/-- Calls for the buffer with an index. -/
def callsFor (i : Nat) (cs : List ShareCall) : List (Nat × ShareCall) := cs.map fun c => (i, c)

/-- The answers to `share_vm_buffers` and `unshare_vm_buffers`: of
`gh_rm_get_vmid`, and for each buffer. -/
structure BufAnswers where
  vmidRet : Int := 0
  self : VmId
  share : Nat → ShareAnswers
  unshare : Nat → UnshareAnswers

/-- The loop of `unshare_vm_buffers` from `i` on, where `n` buffers are left. -/
def unshareLoop (self peer : VmId) (a : BufAnswers) (shmem : Nat → SharedMemory) (i : Nat) :
    Nat → List (Nat × ShareCall) × Int
  | 0 => ([], 0)
  | n + 1 =>
    let r := unshareAVmBuffer self peer (shmem i) (a.unshare i)
    if r.2 ≠ 0 then (callsFor i r.1, r.2)
    else
      let rest := unshareLoop self peer a shmem (i + 1) n
      (callsFor i r.1 ++ rest.1, rest.2)

/-- `unshare_vm_buffers`: the VM, the calls, and what it returns. -/
def unshareVmBuffers (vm : ShmVm) (peer : VmId) (a : BufAnswers) : ShmVm × List (Nat × ShareCall) × Int :=
  if vm.hypAssignDone = false then (vm, [], 0)
  else if a.vmidRet ≠ 0 then (vm, [], a.vmidRet)
  else
    let r := unshareLoop a.self peer a vm.shmem 0 vm.shmemEntries
    if r.2 ≠ 0 then (vm, r.1, r.2) else ({ vm with hypAssignDone := false }, r.1, 0)

/-- Where the loop of `share_vm_buffers` stops, with what it returns. -/
structure ShareStop where
  shmem : Nat → SharedMemory
  calls : List (Nat × ShareCall)
  ret : Int
  i : Nat

/-- The loop of `share_vm_buffers` from `i` on, where `n` buffers are left. -/
def shareLoop (self peer : VmId) (a : BufAnswers) (shmem : Nat → SharedMemory) (i : Nat) : Nat → ShareStop
  | 0 => ⟨shmem, [], 0, i⟩
  | n + 1 =>
    let r := shareAVmBuffer self peer (shmem i) (a.share i)
    let shmem := Function.update shmem i r.1
    if r.2.2 ≠ 0 then ⟨shmem, callsFor i r.2.1, r.2.2, i⟩
    else
      let rest := shareLoop self peer a shmem (i + 1) n
      { rest with calls := callsFor i r.2.1 ++ rest.calls }

/-- The loop at `unshare:` of `share_vm_buffers`, for the buffers below `i`. -/
def unshareBack (self peer : VmId) (a : BufAnswers) (shmem : Nat → SharedMemory) : Nat → List (Nat × ShareCall)
  | 0 => []
  | i + 1 =>
    callsFor i (unshareAVmBuffer self peer (shmem i) (a.unshare i)).1 ++ unshareBack self peer a shmem i

/-- `share_vm_buffers`: the VM, the calls, and what it returns. -/
def shareVmBuffers (vm : ShmVm) (peer : VmId) (a : BufAnswers) : ShmVm × List (Nat × ShareCall) × Int :=
  if a.vmidRet ≠ 0 then (vm, [], a.vmidRet)
  else
    let r := shareLoop a.self peer a vm.shmem 0 vm.shmemEntries
    if r.ret ≠ 0 then
      ({ vm with shmem := r.shmem }, r.calls ++ unshareBack a.self peer a r.shmem r.i, r.ret)
    else ({ vm with shmem := r.shmem, hypAssignDone := true }, r.calls, 0)

/-! ## The operations on a VM's devices -/

/-- What `share_vm_buffers`, `request_irq`, `ioremap` and `unshare_vm_buffers`
answer in `gh_virtio_mmio_init`. -/
structure InitAnswers where
  share : BufAnswers
  irq : Int := 0
  map : Bool := true
  unshare : BufAnswers

/-- `gh_virtio_mmio_init` on a device that is found: the VM, the calls, and what
it returns. -/
def ghVirtioMmioInit (vm : ShmVm) (vmid : VmId) (a : InitAnswers) : ShmVm × List (Nat × ShareCall) × Int :=
  let s := if vm.hypAssignDone = false then shareVmBuffers vm vmid a.share else (vm, [], 0)
  if s.2.2 ≠ 0 then s
  else
    let u := unshareVmBuffers s.1 vmid a.unshare
    if a.irq ≠ 0 then (u.1, s.2.1 ++ u.2.1, a.irq)
    else if a.map = false then (u.1, s.2.1 ++ u.2.1, -ENOMEM)
    else (s.1, s.2.1, 0)

/-- `gh_virtio_mmio_exit`, after the loop over the devices. -/
def ghVirtioMmioExit (vm : ShmVm) (vmid : VmId) (a : BufAnswers) : ShmVm × List (Nat × ShareCall) × Int :=
  unshareVmBuffers vm vmid a

end GH.Impl.Share
