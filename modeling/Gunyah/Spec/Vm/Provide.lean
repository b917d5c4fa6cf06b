import Gunyah.Impl.Vm.Provide
import Gunyah.Spec.Rm.Share
import Gunyah.Spec.Vm.Shmem

/-!
# All or nothing

Providing memory either succeeds, with a memparcel that the RM knows, or leaves the memory
with those that had it (`AllOrNothing`). The parcels are known by their addresses and sizes;
`ownersAfter` is what a call does to their owners.
-/

namespace GH.Spec.Provide

open GH.Impl GH.Impl.Rm GH.Impl.Vm GH.Impl.Shmem GH.Impl.Provide GH.Spec.Rm GH.Spec.Shmem

/-- The owners of the parcels after a call. -/
def ownersAfter (owners : GhMemParcel → List VmPerm) : ProvideCall → GhMemParcel → List VmPerm
  | .assignMem p _ newvm ret => if ret = 0 then Function.update owners p newvm else owners
  | .rm _ => owners

/-- 0 is returned exactly if the RM has taken the memory and its handle is stored, and with any
other value the memory is `back` with its owners. -/
structure AllOrNothing {κ : Type} (p : Provided κ) (back : Prop) : Prop where
  ret : p.ret = 0 ↔ ∃ handle, p.rm = some (0, some handle)
  back : p.ret ≠ 0 → back

/-- The parcels have the owners that `gh_provide_mem` takes them from. -/
def Original (owners : GhMemParcel → List VmPerm) (parcels : List GhMemParcel) : Prop := ∀ q ∈ parcels, owners q = srcVM

/-- The RM takes an SG list of `n` entries: the requests are made, and answered as they should be. -/
structure Takes (env : ShareEnv) (n : Nat) (xs : Nat → Outcome) : Prop where
  some : n ≠ 0
  alloc : env.alloc = true
  shared : ∃ handle, Shared (xs 0) handle
  appends : AllAppend env n xs

/-- The allocations of `gh_provide_mem` are made. -/
def Allocated (a : ProvideAnswers) (n : Nat) : Prop := a.acl = true ∧ a.sgl = true ∧ sglSize n ≤ KMALLOC_MAX_SIZE

/-- `gh_provide_mem` gets no further than its first assignment, or all its calls succeed; a list
of no parcels is refused by the RM, and there is nothing to bring back. A donation to a system VM
is always refused: `gh_rm_mem_donate` takes a single ACL entry, and gets two. -/
def MemHolds (parcels : List GhMemParcel) (isSystemVm : Bool) (a : ProvideAnswers) (xs : Nat → Outcome) : Prop :=
  ¬ Allocated a parcels.length ∨ parcels = [] ∨ a.assign 0 ≠ 0 ∨
    (∀ k < parcels.length, a.assign k = 0) ∧ isSystemVm = false ∧ Takes a.env (parcels.length % 2 ^ 16) xs

/-- `gh_provide_shmem` does not get to its call to the RM, or this succeeds. -/
def ShmemHolds (a : ShmemAnswers) (env : ShareEnv) (xs : Nat → Outcome) : Prop := Assigned a → Takes env 1 xs

end GH.Spec.Provide
