import Gunyah.Impl.Vm.Metadata

/-!
# Loading a secure VM

`GH_VM_SET_FW_NAME` from `gh_vm_ioctl_set_fw_name` down: the firmware regions
that are allocated, the VMID, the image and its metadata
(`gh_vm_loader_sec_load`), the memory that is provided to the VM
(`gh_provide_mem`, `gh_provide_shmem`) and its configuration
(`gh_vm_configure`); and `gh_destroy_vm`, which takes the memory back
(`gh_vm_cleanup`, `gh_secure_vm_loader_reclaim_fw`).

`DevMem` is what the SCM, the RM and the allocator know of the memory of a
device: who owns each region, which memparcels there are, and how often a
region has been allocated and freed. What the calls answer is a record
(`LoadAnswers`, `CleanupAnswers`). A wait for a status of the VM returns with
that status.
-/

namespace GH.Impl.Vm

/-- The VMID of Linux, and the mechanism that an image is authenticated by. -/
def QCOM_SCM_VMID_HLOS : Nat := 3
def GH_VM_AUTH_PIL_ELF : BitVec 16 := 1

/-- `GH_RM_VM_STATUS_*`. -/
inductive VmStatus where
  | noState
  | init
  | ready
  | running
  | paused
  | load
  | auth
  | initFailed
  | exited
  | resetting
  | reset
  deriving DecidableEq, Repr

/-- The names of `fw_name_to_vm_name`: the probe accepts no others, and each once. -/
inductive SecVm where
  | pvm
  | trustedvm
  | cpusysVm
  | oemvm
  | autoghgvm
  | autoghgvmlv
  deriving DecidableEq, Repr

/-- `struct gh_shmem`. -/
structure Shmem where
  srcVmids : List Nat
  dstVmids : List Nat
  isShared : Bool

/-- `struct gh_sec_vm_dev`. The probe checks `fw_index`. -/
structure SecVmDev where
  systemVm : Bool
  fwMemRegions : Nat → FwMem
  fwMemCount : Nat
  pasId : BitVec 32
  fwIndex : Nat
  fwIndex_lt : fwIndex < fwMemCount
  shMemRegions : Nat → Shmem
  shMemCount : Nat

/-- `struct gh_vm`. `fwName` is `none` for the empty string. -/
structure GhVm where
  isSecureVm : Bool := false
  status : VmStatus := .noState
  vmid : Nat := 0
  fwName : Option SecVm := none
  allowedVcpus : Nat := 0

/-- What is known of the memory of a device, and of its image. -/
structure DevMem where
  fwOwners : Nat → List Nat
  shOwners : Nat → List Nat
  memParcel : Bool := false
  shParcel : Nat → Bool := fun _ => false
  allocs : Nat → Nat := fun _ => 0
  frees : Nat → Nat := fun _ => 0
  placed : Bool := false
  imageLoaded : Bool := false
  populated : Bool := false

/-- The owners of a shared region before it is provided: `srcVM` of `gh_provide_shmem`. -/
def Shmem.srcOwners (r : Shmem) : List Nat := r.srcVmids ++ [QCOM_SCM_VMID_HLOS]

/-- The owners of a shared region after it is provided: `dstVM`. -/
def Shmem.dstOwners (r : Shmem) (vmid : Nat) : List Nat :=
  if r.isShared then r.dstVmids ++ [QCOM_SCM_VMID_HLOS, vmid] else r.dstVmids ++ [vmid]

/-- The memory of a device that no VM has. -/
def DevMem.initial (dev : SecVmDev) : DevMem where
  fwOwners := fun _ => [QCOM_SCM_VMID_HLOS]
  shOwners := fun i => (dev.shMemRegions i).srcOwners

/-- The values of `IS_ERR` pointers. -/
abbrev Errno := { e : Int // e < 0 }

/-- The answers in `gh_provide_shmem`: the allocations, `qcom_scm_assign_mem`,
`gh_rm_mem_share` or `gh_rm_mem_lend`, and the second `qcom_scm_assign_mem`. -/
structure ShmemAnswers where
  srcVM : Bool := true
  dstVM : Bool := true
  acl : Bool := true
  sgl : Bool := true
  assign : Int := 0
  share : Int := 0
  back : Int := 0

/-- The answers while a VM is loaded. Those with an index are for a region. -/
structure LoadAnswers where
  /-- `dma_alloc_coherent`: the addresses `fw_virt` and `fw_phys`. -/
  dma : Nat → Option (BitVec 64 × BitVec 64)
  /-- `gh_rm_vm_alloc_vmid`, and the VMID it gives. -/
  allocVmid : Int := 0
  vmid : Nat
  requestFirmware : Int := 0
  metadata : Except Errno Metadata
  /-- What `image_end_addr` holds before it is set. -/
  stack : BitVec 64 := 0
  mdtLoad : Int := 0
  /-- `gh_provide_mem`. -/
  acl : Bool := true
  sgl : Bool := true
  assign : Nat → Int := fun _ => 0
  share : Int := 0
  back : Nat → Int := fun _ => 0
  /-- `gh_vm_configure`. -/
  configImage : Int := 0
  authImage : Int := 0
  vmInit : Int := 0
  populate : Int := 0
  nrVcpus : Nat := 0
  shmem : Nat → ShmemAnswers := fun _ => {}

/-! ## Memory -/

/-- The first loop of `gh_provide_mem`: it ends at the first error. -/
def assignRegions (ans : Nat → Int) (dst : List Nat) : List Nat → DevMem → DevMem × Int
  | [], m => (m, 0)
  | i :: is, m =>
    if ans i ≠ 0 then (m, ans i)
    else assignRegions ans dst is { m with fwOwners := Function.update m.fwOwners i dst }

/-- A turn of the second loop of `gh_provide_mem`: `ret` is overwritten. -/
def assignBack (ans : Nat → Int) (s : DevMem × Int) (i : Nat) : DevMem × Int :=
  if ans i ≠ 0 then (s.1, ans i)
  else ({ s.1 with fwOwners := Function.update s.1.fwOwners i [QCOM_SCM_VMID_HLOS] }, 0)

/-- `gh_provide_mem`. -/
def ghProvideMem (dev : SecVmDev) (e : LoadAnswers) (vm : GhVm) (m : DevMem) : DevMem × Int :=
  if e.acl = false then (m, -ENOMEM)
  else if e.sgl = false then (m, -ENOMEM)
  else
    let (m, ret) := assignRegions e.assign [QCOM_SCM_VMID_HLOS, vm.vmid] (List.range dev.fwMemCount) m
    if ret ≠ 0 then (m, ret)
    else if e.share ≠ 0 then (List.range dev.fwMemCount).foldl (assignBack e.back) (m, e.share)
    else ({ m with memParcel := true }, 0)

/-- `gh_provide_shmem`, on shared region `i`. -/
def ghProvideShmem (r : Shmem) (a : ShmemAnswers) (vm : GhVm) (i : Nat) (m : DevMem) : DevMem × Int :=
  if a.srcVM = false then (m, -ENOMEM)
  else if a.dstVM = false then (m, -ENOMEM)
  else if a.acl = false then (m, -ENOMEM)
  else if a.sgl = false then (m, -ENOMEM)
  else if a.assign ≠ 0 then (m, a.assign)
  else
    let m := { m with shOwners := Function.update m.shOwners i (r.dstOwners vm.vmid) }
    if a.share ≠ 0 then
      if a.back ≠ 0 then (m, a.back)
      else ({ m with shOwners := Function.update m.shOwners i r.srcOwners }, 0)
    else ({ m with shParcel := Function.update m.shParcel i true }, 0)

/-! ## Loading -/

/-- `gh_vm_configure`. -/
def ghVmConfigure (authMech : BitVec 16) (pasId : BitVec 32) (e : LoadAnswers) (vm : GhVm) (m : DevMem) :
    GhVm × DevMem × Int :=
  if authMech ≠ GH_VM_AUTH_PIL_ELF then (vm, m, -EINVAL)
  else if e.configImage ≠ 0 then (vm, m, e.configImage)
  else
    let vm := { vm with status := .auth }
    if pasId = 0 then (vm, m, -EINVAL)
    else if e.authImage ≠ 0 then (vm, m, e.authImage)
    else
      let vm := { vm with status := .init }
      if e.vmInit ≠ 0 then (vm, m, e.vmInit)
      else
        let vm := { vm with status := .ready }
        if e.populate < 0 then (vm, m, e.populate)
        else
          let m := { m with populated := true }
          -- `gh_get_nr_vcpus` gives a count, never an error
          if vm.isSecureVm then ({ vm with allowedVcpus := if e.nrVcpus = 0 then 1 else e.nrVcpus }, m, e.populate)
          else (vm, m, e.populate)

/-- The loop over the shared regions: `ret` is that of the last one. -/
def provideShmems (dev : SecVmDev) (e : LoadAnswers) (vm : GhVm) : List Nat → DevMem → Int → DevMem × Int
  | [], m, ret => (m, ret)
  | i :: is, m, _ =>
    let (m, ret) := ghProvideShmem (dev.shMemRegions i) (e.shmem i) vm i m
    if ret ≠ 0 then (m, ret) else provideShmems dev e vm is m ret

/-- `gh_vm_loader_sec_load`; `fw` is the region of the image. -/
def ghVmLoaderSecLoad (dev : SecVmDev) (fw : FwMem) (e : LoadAnswers) (vm : GhVm) (m : DevMem) : GhVm × DevMem × Int :=
  if e.requestFirmware ≠ 0 then (vm, m, e.requestFirmware)
  else
    match e.metadata with
    | .error err => (vm, m, err)
    | .ok md =>
      let ret := 0
      let m := { m with placed := (placeMetadata fw md e.stack).isSome }
      if ghSecLoadMetadata fw md e.stack = 0 then (vm, m, ret)
      else if e.mdtLoad ≠ 0 then (vm, m, e.mdtLoad)
      else
        let m := { m with imageLoaded := true }
        let (m, ret) := ghProvideMem dev e vm m
        if ret ≠ 0 then (vm, m, ret)
        else
          let vm := { vm with isSecureVm := true }
          let (vm, m, ret) := ghVmConfigure GH_VM_AUTH_PIL_ELF dev.pasId e vm m
          let (m, ret) := provideShmems dev e vm (List.range dev.shMemCount) m ret
          (vm, m, ret)

/-- The loop that allocates the regions: it ends at the first one that cannot be. -/
def allocRegions (e : LoadAnswers) : List Nat → (Nat → FwMem) → DevMem → (Nat → FwMem) × DevMem × Bool
  | [], fw, m => (fw, m, true)
  | i :: is, fw, m =>
    if (fw i).isStatic then allocRegions e is fw m
    else
      match e.dma i with
      | none => (fw, m, false)
      | some (virt, phys) =>
        allocRegions e is (Function.update fw i { fw i with virt := virt, phys := phys })
          { m with allocs := Function.update m.allocs i (m.allocs i + 1) }

/-- `dma_free_coherent` of a region that is not static. -/
def freeRegion (fw : Nat → FwMem) (m : DevMem) (i : Nat) : DevMem :=
  if (fw i).isStatic then m else { m with frees := Function.update m.frees i (m.frees i + 1) }

/-- `gh_sec_vm_loader_load_fw`. -/
def ghSecVmLoaderLoadFw (dev : SecVmDev) (e : LoadAnswers) (vm : GhVm) (m : DevMem) : GhVm × DevMem × Int :=
  let (fw, m, ok) := allocRegions e (List.range dev.fwMemCount) dev.fwMemRegions m
  if ok = false then (vm, m, -ENOMEM)
  else if e.allocVmid < 0 then (vm, (List.range dev.fwMemCount).foldl (freeRegion fw) m, e.allocVmid)
  else ghVmLoaderSecLoad dev (fw dev.fwIndex) e { vm with status := .load, vmid := e.vmid } m

/-- The VM, the devices and their memory. -/
structure VmState where
  vm : GhVm
  mem : SecVm → DevMem

/-- A VM after `gh_create_vm`. -/
def VmState.created (devs : SecVm → Option SecVmDev) : VmState where
  vm := {}
  mem := fun n =>
    match devs n with
    | none => { fwOwners := fun _ => [], shOwners := fun _ => [] }
    | some dev => .initial dev

/-- `gh_vm_ioctl_set_fw_name`. `arg` is the name that user space passes, `none`
where it cannot be copied, and `some none` where it is not a name of a VM. -/
def ghVmIoctlSetFwName (devs : SecVm → Option SecVmDev) (arg : Option (Option SecVm)) (e : LoadAnswers) (s : VmState) :
    VmState × Int :=
  match arg with
  | none => (s, -EFAULT)
  | some name =>
    if s.vm.fwName.isSome then (s, -EEXIST)
    else
      match name.bind fun n => (devs n).map (n, ·) with
      | none => (s, -EINVAL)
      | some (n, dev) =>
        let (vm, m, ret) := ghSecVmLoaderLoadFw dev e s.vm (s.mem n)
        let mem := Function.update s.mem n m
        if ret ≠ 0 then (⟨vm, mem⟩, ret) else (⟨{ vm with fwName := some n }, mem⟩, 0)

/-! ## Destroying -/

/-- The answers of `gh_secure_vm_loader_reclaim_fw`: `gh_rm_mem_reclaim` and
`qcom_scm_assign_mem`, and for a shared region also its allocation. -/
structure CleanupAnswers where
  reclaim : Int
  assign : Nat → Int
  shAlloc : Nat → Bool
  shReclaim : Nat → Int
  shAssign : Nat → Int

/-- `gh_reclaim_shmem`, on shared region `i`; the caller overwrites what it returns. -/
def ghReclaimShmem (dev : SecVmDev) (c : CleanupAnswers) (m : DevMem) (i : Nat) : DevMem :=
  if c.shAlloc i = false then m
  else
    let m := if c.shReclaim i ≠ 0 then m else { m with shParcel := Function.update m.shParcel i false }
    if c.shAssign i ≠ 0 then m
    else { m with shOwners := Function.update m.shOwners i (dev.shMemRegions i).srcOwners }

/-- `gh_reclaim_mem`. -/
def ghReclaimMem (dev : SecVmDev) (c : CleanupAnswers) (m : DevMem) : DevMem × Int :=
  let m := if dev.systemVm = false ∧ c.reclaim = 0 then { m with memParcel := false } else m
  assignRegions c.assign [QCOM_SCM_VMID_HLOS] (List.range dev.fwMemCount) m

/-- `gh_secure_vm_loader_reclaim_fw`. -/
def ghSecureVmLoaderReclaimFw (devs : SecVm → Option SecVmDev) (c : CleanupAnswers) (s : VmState) : VmState × Int :=
  match s.vm.fwName.bind fun n => (devs n).map (n, ·) with
  | none => (s, -EINVAL)
  | some (n, dev) =>
    let m := (List.range dev.shMemCount).foldl (ghReclaimShmem dev c) (s.mem n)
    let (m, ret) := ghReclaimMem dev c m
    let m := if ret = 0 then (List.range dev.fwMemCount).foldl (freeRegion dev.fwMemRegions) m else m
    ({ s with mem := Function.update s.mem n m }, ret)

/-- `gh_vm_cleanup`, on the memory: what the other calls answer is not used. -/
def ghVmCleanup (devs : SecVm → Option SecVmDev) (c : CleanupAnswers) (s : VmState) : VmState :=
  let s :=
    match s.vm.status with
    | .exited | .running | .ready | .init | .auth =>
      if s.vm.isSecureVm then (ghSecureVmLoaderReclaimFw devs c s).1 else s
    | _ => s
  { s with vm := { s.vm with status := .noState } }

/-- `gh_destroy_vm`. -/
def ghDestroyVm (devs : SecVm → Option SecVmDev) (c : CleanupAnswers) (s : VmState) : VmState :=
  if s.vm.status = .noState then s
  else
    let s := ghVmCleanup devs c s
    { s with vm := { s.vm with fwName := none } }

end GH.Impl.Vm
