import Gunyah.Impl.Vm.Shmem

/-!
# Providing memory

`gh_provide_mem` of `gh_main.c`, call by call: the parcels go to the VM one after the other,
the RM is told of all of them at once, and where it refuses, they come back.
`gh_provide_shmem`, whose calls are in `Impl.Vm.Shmem`, is joined to the
requests that `gh_rm_mem_share` and `gh_rm_mem_lend` make.
-/

namespace GH.Impl.Provide

open GH.Impl.Rm GH.Impl.Vm GH.Impl.Shmem

/-- `struct gh_mem_parcel`. -/
structure GhMemParcel where
  memPhys : BitVec 64
  memSize : BitVec 64
  deriving DecidableEq, Repr

/-- A call of `gh_provide_mem`. -/
inductive ProvideCall where
  | assignMem (parcel : GhMemParcel) (srcvm : BitVec 64) (newvm : List VmPerm) (ret : Int)
  | rm (args : CallArgs)

/-- What a function that provides memory has done: its calls, what the function of the
RM's interface returned and stored as a handle, if it was called, and what it returns itself. -/
structure Provided (κ : Type) where
  calls : List κ
  rm : Option (Int × Option (BitVec 32)) := none
  ret : Int

/-- The answers in `gh_provide_mem`: the allocations, `qcom_scm_assign_mem` for each parcel, and
what the requests to the RM do not decide. -/
structure ProvideAnswers where
  acl : Bool := true
  sgl : Bool := true
  assign : Nat → Int := fun _ => 0
  back : Nat → Int := fun _ => 0
  env : ShareEnv

/-- `srcVM` of `gh_provide_mem`. -/
def srcVM : List VmPerm := [⟨HLOS, QCOM_SCM_PERM_RWX⟩]

/-- `destVM` of `gh_provide_mem`. -/
def destVM (vmid : VmId) : List VmPerm := [⟨HLOS, QCOM_SCM_PERM_RWX⟩, ⟨vmid, QCOM_SCM_PERM_RWX⟩]

/-- `srcvmid` and `dstvmid`, as bit masks. -/
def srcvmid : BitVec 64 := bit HLOS.toNat
def dstvmid (vmid : VmId) : BitVec 64 := bit HLOS.toNat ||| bit vmid.toNat

/-- `acl_desc` of `gh_provide_mem`. -/
def provideAcl (vmid : VmId) : AclDesc where
  aclEntries :=
    [⟨HLOS, GH_RM_ACL_X ||| GH_RM_ACL_R ||| GH_RM_ACL_W⟩, ⟨vmid, GH_RM_ACL_X ||| GH_RM_ACL_R ||| GH_RM_ACL_W⟩]
  length_lt := by simp

/-- `sgl_desc` of `gh_provide_mem`: `n_sgl_entries` is a `u16`. -/
def provideSgl (parcels : List GhMemParcel) : SglDesc where
  sglEntries := (parcels.take (parcels.length % 2 ^ 16)).map fun p => ⟨p.memPhys, p.memSize⟩
  length_lt := by
    rw [List.length_map, List.length_take]
    omega

/-- The first loop of `gh_provide_mem`, from parcel `i` on: it ends at the first error. -/
def assignParcels (ans : Nat → Int) (vmid : VmId) : Nat → List GhMemParcel → List ProvideCall × Int
  | _, [] => ([], 0)
  | i, p :: ps =>
    if ans i ≠ 0 then ([.assignMem p srcvmid (destVM vmid) (ans i)], ans i)
    else
      let (calls, ret) := assignParcels ans vmid (i + 1) ps
      (.assignMem p srcvmid (destVM vmid) (ans i) :: calls, ret)

/-- The second loop of `gh_provide_mem`, from parcel `i` on: `ret` is overwritten. -/
def assignParcelsBack (ans : Nat → Int) (vmid : VmId) : Nat → List GhMemParcel → Int → List ProvideCall × Int
  | _, [], ret => ([], ret)
  | i, p :: ps, _ =>
    let (calls, ret) := assignParcelsBack ans vmid (i + 1) ps (ans i)
    (.assignMem p (dstvmid vmid) srcVM (ans i) :: calls, ret)

/-- What `gh_provide_mem` passes to the RM's interface. -/
def provideArgs (vmid : VmId) (parcels : List GhMemParcel) : MemArgs where
  memType := GH_RM_MEM_TYPE_NORMAL
  label := 0
  aclDesc := some (provideAcl vmid)
  sglDesc := some (provideSgl parcels)
  memAttrDesc := none

/-- The function of the RM's interface that `gh_provide_mem` calls. -/
def provideRm (vmid : VmId) (parcels : List GhMemParcel) (isSystemVm : Bool) (env : ShareEnv) :
    RmCalls (Int × Option (BitVec 32)) :=
  if isSystemVm then ghRmMemDonate (provideArgs vmid parcels) env else ghRmMemShare (provideArgs vmid parcels) env

/-- `gh_provide_mem`, where request `k` to the RM returns `r k`. -/
def ghProvideMem (vmid : VmId) (parcels : List GhMemParcel) (isSystemVm : Bool) (a : ProvideAnswers)
    (r : Nat → CallRet) : Option (Provided ProvideCall) :=
  match kzalloc a.acl (aclSize 2) with
  | none => some { calls := [], ret := -ENOMEM }
  | some _ =>
    match kzalloc a.sgl (sglSize parcels.length) with
    | none => some { calls := [], ret := -ENOMEM }
    | some _ =>
      let (calls, ret) := assignParcels a.assign vmid 0 parcels
      if ret ≠ 0 then some { calls, ret }
      else
        let (sent, res) := (provideRm vmid parcels isSystemVm a.env).run r
        match res with
        | none => none
        | some (ret, handle) =>
          let calls := calls ++ sent.map ProvideCall.rm
          if ret ≠ 0 then
            let back := assignParcelsBack a.back vmid 0 parcels ret
            some { calls := calls ++ back.1, rm := some (ret, handle), ret := back.2 }
          else some { calls, rm := some (ret, handle), ret }

/-! ## Shared regions -/

/-- `acl_desc` of `gh_provide_shmem`. -/
def shmemAcl (o : Owners) : Option AclDesc :=
  if h : (aclEntries o).length < 2 ^ 32 then some ⟨aclEntries o, h⟩ else none

/-- What `gh_provide_shmem` passes to the RM's interface. -/
def shmemArgs (vmid : VmId) (r : GhShmem) : MemArgs where
  memType := GH_RM_MEM_TYPE_NORMAL
  label := r.gunyahLabel
  aclDesc := shmemAcl (provideDst r vmid)
  sglDesc := some ⟨[⟨r.base, r.size⟩], by simp⟩
  memAttrDesc := none

/-- The function of the RM's interface that `gh_provide_shmem` calls. -/
def shmemRm (vmid : VmId) (r : GhShmem) (env : ShareEnv) : RmCalls (Int × Option (BitVec 32)) :=
  if r.isShared then ghRmMemShare (shmemArgs vmid r) env else ghRmMemLend (shmemArgs vmid r) env

/-- A call to the RM that gives it the region. -/
def isRmCall : ShmemCall → Bool
  | .memShare .. | .memLend .. => true
  | .assignMem .. | .memReclaim .. => false

/-- `gh_provide_shmem`, where request `k` to the RM returns `rets k`: `a.share` is what the
function of the RM's interface returns. -/
def ghProvideShmem (vmid : VmId) (r : GhShmem) (a : ShmemAnswers) (env : ShareEnv) (rets : Nat → CallRet) :
    Option (Provided ShmemCall) :=
  match ((shmemRm vmid r env).run rets).2 with
  | none => none
  | some (share, handle) =>
    let (calls, ret) := Shmem.ghProvideShmem vmid r { a with share := share }
    some { calls, rm := if calls.any isRmCall then some (share, handle) else none, ret }

end GH.Impl.Provide
