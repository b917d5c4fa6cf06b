import Gunyah.Impl.Vm.Shmem

/-!
# Who owns a shared memory region

The region that a descriptor is for, as the hypervisor has it: its owners, and the
permissions of each. Its owners are changed by `qcom_scm_assign_mem` only, which has to name
those that it has.
-/

namespace GH.Spec.Shmem

open GH.Impl GH.Impl.Rm GH.Impl.Vm GH.Impl.Shmem

/-- The VMIDs of a descriptor fit its arrays, and have a bit in the bitmaps. -/
structure Valid (r : GhShmem) : Prop where
  srcCount : r.srcVmidsCount ≤ GH_MAX_VMIDS
  dstCount : r.dstVmidsCount ≤ GH_MAX_VMIDS
  src : ∀ i < r.srcVmidsCount, (r.srcVmids i).toNat < 64
  dst : ∀ i < r.dstVmidsCount, (r.dstVmids i).toNat < 64

/-- The VMIDs in a bitmap are those of a list of owners. -/
def Names (bitVmid : BitVec 64) (owners : List VmPerm) : Prop :=
  ∀ v, bitVmid.getLsbD v = true ↔ ∃ p ∈ owners, p.vmid.toNat = v

/-- The owners of the region after a call. Where it gives the region to others, it is for the
whole region, and takes it from all those that own it. -/
def OwnersAfter (r : GhShmem) (owners : List VmPerm) : ShmemCall → List VmPerm → Prop
  | .assignMem phys size srcvm newvm ret, owners' =>
    if ret = 0 then phys = r.base ∧ size = r.size ∧ Names srcvm owners ∧ owners' = newvm else owners' = owners
  | .memShare .., owners' | .memLend .., owners' | .memReclaim .., owners' => owners' = owners

/-- The owners of the region after several calls. -/
inductive Owned (r : GhShmem) : List VmPerm → List ShmemCall → List VmPerm → Prop where
  | nil (owners : List VmPerm) : Owned r owners [] owners
  | cons {owners owners' owners'' : List VmPerm} {c : ShmemCall} {cs : List ShmemCall} :
      OwnersAfter r owners c owners' → Owned r owners' cs owners'' → Owned r owners (c :: cs) owners''

/-- The owners that a descriptor tells a region to have had: the sources, and HLOS with all
permissions. -/
def sources (r : GhShmem) : List VmPerm :=
  (List.range r.srcVmidsCount).map (fun i => ⟨(r.srcVmids i).setWidth 16, r.srcPerms i⟩) ++
    [⟨HLOS, QCOM_SCM_PERM_RWX⟩]

/-- The owners it is to have: the destinations, HLOS where the region is shared, and the VM. -/
def destinations (r : GhShmem) (vmid : VmId) : List VmPerm :=
  (List.range r.dstVmidsCount).map (fun i => ⟨(r.dstVmids i).setWidth 16, r.dstPerms i⟩) ++
    (if r.isShared then [⟨HLOS, QCOM_SCM_PERM_RWX⟩] else []) ++ [⟨vmid, QCOM_SCM_PERM_RWX⟩]

/-- The allocations of `gh_provide_shmem` are made, and the region goes to the destinations. -/
structure Assigned (a : ShmemAnswers) : Prop where
  srcVM : a.srcVM = true
  dstVM : a.dstVM = true
  acl : a.acl = true
  sgl : a.sgl = true
  assign : a.assign = 0

end GH.Spec.Shmem
