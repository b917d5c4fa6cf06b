import Gunyah.Impl.Rm.MemReq
import Gunyah.Impl.Vm.Loader

/-!
# Shared memory regions

`gh_provide_shmem` and `gh_reclaim_shmem` of `gh_main.c`, with the bitmaps of owners and the
arrays of owners and permissions that they make of a region's descriptor, and
the calls to the SCM and the RM that they pass them to. An array is a function of
the index, and the bitmaps have a bit for each VMID below 64.
-/

namespace GH.Impl.Shmem

open GH.Impl.Rm GH.Impl.Vm

/-- The number of VMIDs of a shared region at most. -/
def GH_MAX_VMIDS : Nat := 16

/-- All permissions. -/
def QCOM_SCM_PERM_RWX : BitVec 32 := 7

/-- `struct gh_shmem`. -/
structure GhShmem where
  base : BitVec 64
  size : BitVec 64
  srcVmids : Nat → BitVec 32
  srcVmidsCount : Nat
  dstVmids : Nat → BitVec 32
  dstVmidsCount : Nat
  srcPerms : Nat → BitVec 32
  dstPerms : Nat → BitVec 32
  gunyahLabel : BitVec 32
  isShared : Bool
  shmemHandle : BitVec 32

/-- `struct qcom_scm_vmperm`. -/
structure VmPerm where
  vmid : VmId
  perm : BitVec 32
  deriving DecidableEq, Repr

/-- `BIT`. -/
def bit (n : Nat) : BitVec 64 := 1#64 <<< n

/-- An array of owners as far as it is filled in, and the bitmap of the owners in it. -/
structure Owners where
  vmperm : List VmPerm := []
  bitVmid : BitVec 64 := 0
  deriving DecidableEq

/-- `set_vmperm_bit`, on the next element of the array. -/
def setVmpermBit (o : Owners) (vmid : VmId) (perm : BitVec 32) : Owners where
  vmperm := o.vmperm ++ [⟨vmid, perm⟩]
  bitVmid := o.bitVmid ||| bit vmid.toNat

/-- The loop over the VMIDs of a descriptor. -/
def setVmpermBits (vmids perms : Nat → BitVec 32) (count : Nat) : Owners :=
  (List.range count).foldl (fun o i => setVmpermBit o ((vmids i).setWidth 16) (perms i)) {}

/-- The VMID of Linux. -/
def HLOS : VmId := BitVec.ofNat 16 QCOM_SCM_VMID_HLOS

/-- `srcVM` and `srcvmid` of `gh_provide_shmem`. -/
def provideSrc (r : GhShmem) : Owners :=
  setVmpermBit (setVmpermBits r.srcVmids r.srcPerms r.srcVmidsCount) HLOS QCOM_SCM_PERM_RWX

/-- `dstVM` and `dstvmid` of `gh_provide_shmem`. -/
def provideDst (r : GhShmem) (vmid : VmId) : Owners :=
  let dst := setVmpermBits r.dstVmids r.dstPerms r.dstVmidsCount
  if r.isShared then setVmpermBit (setVmpermBit dst HLOS QCOM_SCM_PERM_RWX) vmid QCOM_SCM_PERM_RWX
  else setVmpermBit dst vmid QCOM_SCM_PERM_RWX

/-- `dstVM` and `dstvmid` of `gh_reclaim_shmem`. -/
def reclaimDst (r : GhShmem) : Owners :=
  setVmpermBit (setVmpermBits r.srcVmids r.srcPerms r.srcVmidsCount) HLOS QCOM_SCM_PERM_RWX

/-- `srcvmid` of `gh_reclaim_shmem`. -/
def reclaimSrc (r : GhShmem) (vmid : VmId) : BitVec 64 :=
  let srcvmid := (List.range r.dstVmidsCount).foldl (fun b i => b ||| bit (r.dstVmids i).toNat) 0
  let srcvmid := srcvmid ||| bit vmid.toNat
  if r.isShared then srcvmid ||| bit QCOM_SCM_VMID_HLOS else srcvmid

/-- A call, with what it returns. -/
inductive ShmemCall where
  | assignMem (phys size srcvm : BitVec 64) (newvm : List VmPerm) (ret : Int)
  | memShare (label : BitVec 32) (acl : List AclEntry) (sgl : List SglEntry) (ret : Int)
  | memLend (label : BitVec 32) (acl : List AclEntry) (sgl : List SglEntry) (ret : Int)
  | memReclaim (handle : BitVec 32) (ret : Int)
  deriving DecidableEq

/-- The entries of the ACL that `gh_provide_shmem` passes to the RM. -/
def aclEntries (o : Owners) : List AclEntry := o.vmperm.map fun p => ⟨p.vmid, p.perm.setWidth 8⟩

/-- `gh_provide_shmem`: its calls, and what it returns. -/
def ghProvideShmem (vmid : VmId) (r : GhShmem) (a : ShmemAnswers) : List ShmemCall × Int :=
  if a.srcVM = false then ([], -ENOMEM)
  else if a.dstVM = false then ([], -ENOMEM)
  else if a.acl = false then ([], -ENOMEM)
  else if a.sgl = false then ([], -ENOMEM)
  else
    let src := provideSrc r
    let dst := provideDst r vmid
    let assign := ShmemCall.assignMem r.base r.size src.bitVmid dst.vmperm a.assign
    if a.assign ≠ 0 then ([assign], a.assign)
    else
      let sgl := [⟨r.base, r.size⟩]
      let share :=
        if r.isShared then ShmemCall.memShare r.gunyahLabel (aclEntries dst) sgl a.share
        else ShmemCall.memLend r.gunyahLabel (aclEntries dst) sgl a.share
      if a.share ≠ 0 then
        ([assign, share, .assignMem r.base r.size dst.bitVmid src.vmperm a.back], a.back)
      else ([assign, share], 0)

/-- `gh_reclaim_shmem`; `reclaim` and `assign` are what its calls return. -/
def ghReclaimShmem (vmid : VmId) (r : GhShmem) (alloc : Bool) (reclaim assign : Int) : List ShmemCall × Int :=
  if alloc = false then ([], -ENOMEM)
  else
    ([.memReclaim r.shmemHandle reclaim,
      .assignMem r.base r.size (reclaimSrc r vmid) (reclaimDst r).vmperm assign], assign)

end GH.Impl.Shmem
