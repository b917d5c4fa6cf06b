import Gunyah.Impl.Vm.Loader

/-!
# What loading a VM is for

A load that returns 0 has loaded the VM (`Loaded`), and one that fails leaves
nothing behind once the VM is destroyed (`GivenBack`). `Honest` and
`NothingTaken` are the conditions on the answers under which the code keeps to
this.
-/

namespace GH.Spec.Vm

open GH.Impl GH.Impl.Vm

/-! ## Loading -/

/-- The metadata is placed, the image is loaded, the memory is provided, the VM is
ready with its resources populated, and every shared region is provided. -/
structure Loaded (dev : SecVmDev) (vm : GhVm) (m : DevMem) : Prop where
  placed : m.placed = true
  image : m.imageLoaded = true
  owners : ∀ i < dev.fwMemCount, m.fwOwners i = [QCOM_SCM_VMID_HLOS, vm.vmid]
  parcel : m.memParcel = true
  ready : vm.status = .ready
  populated : m.populated = true
  shared : ∀ i < dev.shMemCount, m.shOwners i = (dev.shMemRegions i).dstOwners vm.vmid ∧ m.shParcel i = true

/-- A load returns 0 exactly when the VM is loaded. -/
def ReportsTruth (dev : SecVmDev) (r : GhVm × DevMem × Int) : Prop := r.2.2 = 0 ↔ Loaded dev r.1 r.2.1

/-- `gh_provide_mem` assigns all regions to the VM. -/
def Assigned (dev : SecVmDev) (e : LoadAnswers) : Prop :=
  e.acl = true ∧ e.sgl = true ∧ ∀ i < dev.fwMemCount, e.assign i = 0

/-- `gh_provide_mem` comes to an end without an error of its own, or with its last
one gone: the RM takes the memory, or the last region goes back. -/
def MemReported (dev : SecVmDev) (e : LoadAnswers) : Prop :=
  Assigned dev e ∧ (e.share = 0 ∨ e.back (dev.fwMemCount - 1) = 0)

/-- Every step of `gh_vm_configure` goes well. -/
def Configured (dev : SecVmDev) (e : LoadAnswers) : Prop :=
  e.configImage = 0 ∧ dev.pasId ≠ 0 ∧ e.authImage = 0 ∧ e.vmInit = 0 ∧ 0 ≤ e.populate

/-- `gh_provide_shmem` assigns the region to the VM. -/
def ShAssigned (a : ShmemAnswers) : Prop :=
  a.srcVM = true ∧ a.dstVM = true ∧ a.acl = true ∧ a.sgl = true ∧ a.assign = 0

/-- `gh_provide_shmem` returns 0. -/
def ShReported (a : ShmemAnswers) : Prop := ShAssigned a ∧ (a.share = 0 ∨ a.back = 0)

/-- No failure is reported as success, and no success as a failure: the metadata is
not refused; and where `gh_provide_mem` is over without an error, either there
are no shared regions, and a VM that is configured has its memory exactly when
`gh_rm_populate_hyp_res` answers 0, or there are some, and they do not hide
an error before them or of their own. -/
def Honest (dev : SecVmDev) (fw : FwMem) (e : LoadAnswers) : Prop :=
  e.requestFirmware = 0 → ∀ md, e.metadata = .ok md →
    ghSecLoadMetadata fw md e.stack ≠ 0 ∧
    (e.mdtLoad = 0 → MemReported dev e →
      (dev.shMemCount = 0 → Configured dev e → (e.populate = 0 ↔ e.share = 0)) ∧
      (0 < dev.shMemCount → (∀ i < dev.shMemCount, ShReported (e.shmem i)) →
        e.share = 0 ∧ Configured dev e ∧ ∀ i < dev.shMemCount, (e.shmem i).share = 0))

/-! ## Giving the memory back -/

/-- Every region is with its owners, every memparcel is reclaimed, and what has
been allocated has been freed as often. -/
structure GivenBack (dev : SecVmDev) (m : DevMem) : Prop where
  owners : ∀ i < dev.fwMemCount, m.fwOwners i = [QCOM_SCM_VMID_HLOS]
  shOwners : ∀ i < dev.shMemCount, m.shOwners i = (dev.shMemRegions i).srcOwners
  parcel : m.memParcel = false
  shParcel : ∀ i < dev.shMemCount, m.shParcel i = false
  freed : ∀ i < dev.fwMemCount, m.frees i = m.allocs i

/-- `gh_provide_mem` leaves nothing with the VM: it fails before the first region
is assigned, or the RM refuses the memory and all regions go back. -/
def MemUntaken (dev : SecVmDev) (e : LoadAnswers) : Prop :=
  e.acl = false ∨ e.sgl = false ∨ e.assign 0 ≠ 0 ∨
    ((∀ i < dev.fwMemCount, e.assign i = 0) ∧ e.share ≠ 0 ∧ ∀ i < dev.fwMemCount, e.back i = 0)

/-- `gh_provide_shmem` leaves the region with the VM. -/
def ShTaken (r : Shmem) (a : ShmemAnswers) (vmid : Nat) : Prop :=
  ShAssigned a ∧ (a.share = 0 ∨ (a.back ≠ 0 ∧ r.dstOwners vmid ≠ r.srcOwners))

/-- The load comes to `gh_provide_mem`. -/
def ImageLoaded (fw : FwMem) (e : LoadAnswers) : Prop :=
  e.requestFirmware = 0 ∧ (∃ md, e.metadata = .ok md ∧ ghSecLoadMetadata fw md e.stack ≠ 0) ∧ e.mdtLoad = 0

/-- What is assigned to the VM is given back by the load itself. -/
def LoadUntaken (dev : SecVmDev) (fw : FwMem) (e : LoadAnswers) : Prop :=
  ImageLoaded fw e → MemUntaken dev e ∧
    (MemReported dev e → ∀ i < dev.shMemCount, (∀ j < i, ShReported (e.shmem j)) →
      ¬ ShTaken (dev.shMemRegions i) (e.shmem i) e.vmid)

/-- The load fails with nothing taken: the first region that is not static cannot
be allocated; or all can, and there is no VMID; or all regions are static, and
nothing stays assigned. -/
def NothingTaken (dev : SecVmDev) (e : LoadAnswers) : Prop :=
  (∃ i < dev.fwMemCount, (dev.fwMemRegions i).isStatic = false ∧ e.dma i = none ∧
    ∀ j < i, (dev.fwMemRegions j).isStatic = true) ∨
  ((∀ i < dev.fwMemCount, (dev.fwMemRegions i).isStatic = false → (e.dma i).isSome) ∧ e.allocVmid < 0) ∨
  ((∀ i < dev.fwMemCount, (dev.fwMemRegions i).isStatic = true) ∧
    LoadUntaken dev (dev.fwMemRegions dev.fwIndex) e)

end GH.Spec.Vm
