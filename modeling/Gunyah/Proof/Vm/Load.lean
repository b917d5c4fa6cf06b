import Gunyah.Proof.Vm.Memory

/-!
# What a load reports

The ways through `gh_vm_loader_sec_load` (`Loads`), and when each returns 0. A
load that refuses the metadata returns 0, an error of `gh_vm_configure` is lost
if there are shared regions, and a refusal of the RM is lost where the memory
goes back. The load returns 0 exactly when the VM is loaded, if and only if
none of these happens (`secLoad_truthful_iff`).
-/

namespace GH.Proof.Vm

open GH.Impl GH.Impl.Vm GH.Spec.Vm

/-! ## `gh_vm_configure` -/

/-- The configuration of a secure VM. -/
def configure (dev : SecVmDev) (e : LoadAnswers) (vm : GhVm) (m : DevMem) : GhVm × DevMem × Int :=
  ghVmConfigure GH_VM_AUTH_PIL_ELF dev.pasId e { vm with isSecureVm := true } m

/-- What `gh_vm_configure` leads to, whatever the RM answers. -/
structure Configures (dev : SecVmDev) (e : LoadAnswers) (vm : GhVm) (m : DevMem) (r : GhVm × DevMem × Int) : Prop where
  vmid : r.1.vmid = vm.vmid
  mem : r.2.1 = { m with populated := r.2.1.populated }
  ret : r.2.2 = 0 ↔ Configured dev e ∧ e.populate = 0
  ready : r.1.status = .ready ∧ r.2.1.populated = true ↔ Configured dev e
  fwName : r.1.fwName = vm.fwName

theorem configure_spec {dev : SecVmDev} {e : LoadAnswers} {vm : GhVm} {m : DevMem} (hm : m.populated = false) :
    Configures dev e vm m (configure dev e vm m) := by
  have hno : ∀ {P : Prop}, ¬ (P ∧ m.populated = true) := fun hc => absurd (hm.symm.trans hc.2) (by decide)
  unfold configure ghVmConfigure
  rw [if_neg (by decide)]
  split
  · rename_i h
    exact ⟨rfl, rfl, iff_of_false h fun hc => h hc.1.1, iff_of_false hno fun hc => h hc.1, rfl⟩
  simp only
  split
  · rename_i h
    exact ⟨rfl, rfl, iff_of_false (show -EINVAL ≠ 0 by decide) fun hc => hc.1.2.1 h,
      iff_of_false hno fun hc => hc.2.1 h, rfl⟩
  split
  · rename_i h
    exact ⟨rfl, rfl, iff_of_false h fun hc => h hc.1.2.2.1, iff_of_false hno fun hc => h hc.2.2.1, rfl⟩
  split
  · rename_i h
    exact ⟨rfl, rfl, iff_of_false h fun hc => h hc.1.2.2.2.1, iff_of_false hno fun hc => h hc.2.2.2.1, rfl⟩
  split
  · rename_i h
    exact ⟨rfl, rfl, iff_of_false (Int.ne_of_lt h) fun hc => absurd hc.1.2.2.2.2 (by omega),
      iff_of_false hno fun hc => absurd hc.2.2.2.2 (by omega), rfl⟩
  · rename_i h₁ h₂ h₃ h₄ h₅
    have hc : Configured dev e := ⟨not_not.mp h₁, h₂, not_not.mp h₃, not_not.mp h₄, by omega⟩
    exact ⟨rfl, rfl, (and_iff_right hc).symm, iff_of_true ⟨rfl, rfl⟩ hc, rfl⟩

/-! ## `gh_vm_loader_sec_load` -/

/-- The memory once the image is loaded, and what follows it. -/
def withImage (m : DevMem) : DevMem := { m with placed := true, imageLoaded := true }

/-- The ways through `gh_vm_loader_sec_load`. -/
inductive Loads (dev : SecVmDev) (fw : FwMem) (e : LoadAnswers) (vm : GhVm) (m : DevMem) : GhVm × DevMem × Int → Prop where
  /-- There is no image to load. -/
  | noImage {p i : Bool} {ret : Int} (h : ¬ ImageLoaded fw e)
      (hmd : ∀ md, e.requestFirmware = 0 → e.metadata = .ok md → ghSecLoadMetadata fw md e.stack ≠ 0) (hr : ret ≠ 0) :
      Loads dev fw e vm m (vm, { m with placed := p, imageLoaded := i }, ret)
  /-- The metadata is refused, without an error. -/
  | noMetadata {p : Bool} {md : Metadata} (hf : e.requestFirmware = 0) (hmd : e.metadata = .ok md)
      (h : ghSecLoadMetadata fw md e.stack = 0) : Loads dev fw e vm m (vm, { m with placed := p }, 0)
  | noMem (h : ImageLoaded fw e) (hm : ¬ MemReported dev e) :
      Loads dev fw e vm m (vm, ghProvideMem dev e vm (withImage m))
  | full (h : ImageLoaded fw e) (hm : MemReported dev e) (c : GhVm × DevMem × Int)
      (hc : c = configure dev e vm (ghProvideMem dev e vm (withImage m)).1) :
      Loads dev fw e vm m (c.1, provideShmems dev e c.1 (List.range dev.shMemCount) c.2.1 c.2.2)

theorem placed_of_ne_zero {fw : FwMem} {md : Metadata} {stack : BitVec 64} (h : ghSecLoadMetadata fw md stack ≠ 0) :
    (placeMetadata fw md stack).isSome = true := by
  unfold ghSecLoadMetadata at h
  cases hp : placeMetadata fw md stack with
  | none =>
    rw [hp] at h
    exact absurd rfl h
  | some o => rfl

theorem secLoad_loads (dev : SecVmDev) (fw : FwMem) (e : LoadAnswers) (vm : GhVm) (m : DevMem) :
    Loads dev fw e vm m (ghVmLoaderSecLoad dev fw e vm m) := by
  unfold ghVmLoaderSecLoad
  split
  · rename_i hf
    exact .noImage (p := m.placed) (i := m.imageLoaded) (fun h => hf h.1) (fun md h => absurd h hf) hf
  rename_i hf
  have hf' := not_not.mp hf
  split
  · rename_i err hmd
    refine .noImage (p := m.placed) (i := m.imageLoaded) ?_ (fun md _ h => nomatch hmd.symm.trans h) (by omega)
    rintro ⟨-, ⟨md, h, -⟩, -⟩
    cases hmd.symm.trans h
  rename_i md hmd
  simp only
  split
  · rename_i h₀
    exact .noMetadata hf' hmd h₀
  rename_i h₀
  split
  · rename_i hl
    refine .noImage (i := m.imageLoaded) (fun h => hl h.2.2) (fun md' _ h => ?_) hl
    cases hmd.symm.trans h
    exact h₀
  rename_i hl
  have himg : ImageLoaded fw e := ⟨hf', ⟨md, hmd, h₀⟩, not_not.mp hl⟩
  rw [placed_of_ne_zero h₀]
  have hret := provideMem_ret dev e vm (withImage m)
  split
  · rename_i hr
    exact .noMem himg fun h => hr (hret.mpr h)
  · rename_i hr
    exact .full himg (hret.mp (not_not.mp hr)) _ rfl

/-- Once the image is loaded and the memory reported, the VM is loaded exactly when
nothing has failed. -/
theorem full_loaded {dev : SecVmDev} {e : LoadAnswers} {vm : GhVm} {allocs : Nat → Nat} (hrep : MemReported dev e)
    {c : GhVm × DevMem × Int}
    (hc : c = configure dev e vm (ghProvideMem dev e vm (withImage { DevMem.initial dev with allocs := allocs })).1) :
    Loaded dev c.1 (provideShmems dev e c.1 (List.range dev.shMemCount) c.2.1 c.2.2).1 ↔
      e.share = 0 ∧ Configured dev e ∧ ∀ i < dev.shMemCount, ShAssigned (e.shmem i) ∧ (e.shmem i).share = 0 := by
  have hprov := provideMem_provided vm (m := withImage { DevMem.initial dev with allocs := allocs }) hrep rfl
  have hp := provideMem_mem dev e vm (withImage { DevMem.initial dev with allocs := allocs })
  generalize (ghProvideMem dev e vm (withImage { DevMem.initial dev with allocs := allocs })).1 = p at hprov hp hc
  have hconf : Configures dev e vm p c := hc ▸ configure_spec (by rw [hp]; rfl)
  have hshared := provideShmems_provided dev e c.1 (List.nodup_range (n := dev.shMemCount)) (m := c.2.1) c.2.2
    fun i _ => by rw [hconf.mem, hp]; rfl
  have hq := provideShmems_mem dev e c.1 (List.range dev.shMemCount) c.2.1 c.2.2
  generalize (provideShmems dev e c.1 (List.range dev.shMemCount) c.2.1 c.2.2).1 = q at hshared hq
  simp only [List.mem_range] at hshared
  -- the shared regions leave the rest as it was, and so does the configuration
  have howners : q.fwOwners = p.fwOwners := by rw [hq, hconf.mem]
  have hparcel : q.memParcel = p.memParcel := by rw [hq, hconf.mem]
  have hpop : q.populated = c.2.1.populated := by rw [hq]
  constructor
  · intro h
    refine ⟨hprov.mp ⟨fun i hi => ?_, hparcel ▸ h.parcel⟩, hconf.ready.mp ⟨h.ready, hpop ▸ h.populated⟩,
      hshared.mp h.shared⟩
    rw [← howners, ← hconf.vmid]
    exact h.owners i hi
  · rintro ⟨hshare, hconfd, hsh⟩
    obtain ⟨ho, hpar⟩ := hprov.mpr hshare
    obtain ⟨hready, hpopd⟩ := hconf.ready.mpr hconfd
    refine ⟨?_, ?_, fun i hi => ?_, hparcel ▸ hpar, hready, hpop ▸ hpopd, hshared.mpr hsh⟩
    · rw [hq, hconf.mem, hp]
      rfl
    · rw [hq, hconf.mem, hp]
      rfl
    · rw [howners, hconf.vmid]
      exact ho i hi

/-- The load returns 0 exactly when the VM is loaded, if and only if the answers are
such that no error is lost. -/
theorem secLoad_truthful_iff (dev : SecVmDev) (fw : FwMem) (e : LoadAnswers) (vm : GhVm) (allocs : Nat → Nat) :
    ReportsTruth dev (ghVmLoaderSecLoad dev fw e { vm with status := .load, vmid := e.vmid }
      { DevMem.initial dev with allocs := allocs }) ↔ Honest dev fw e := by
  have hl := secLoad_loads dev fw e { vm with status := .load, vmid := e.vmid } { DevMem.initial dev with allocs := allocs }
  generalize ghVmLoaderSecLoad dev fw e { vm with status := .load, vmid := e.vmid }
    { DevMem.initial dev with allocs := allocs } = r at hl
  cases hl with
  | noImage h hmd hr =>
    refine iff_of_true (iff_of_false hr fun hl => nomatch hl.ready) fun hf md hmd' => ?_
    have h₀ := hmd md hf hmd'
    exact ⟨h₀, fun hload => absurd ⟨hf, ⟨md, hmd', h₀⟩, hload⟩ h⟩
  | noMetadata hf hmd h =>
    exact iff_of_false (fun ht => nomatch (ht.mp rfl).ready) fun hh => (hh hf _ hmd).1 h
  | noMem h hm =>
    have hr := mt (provideMem_ret dev e { vm with status := .load, vmid := e.vmid }
      (withImage { DevMem.initial dev with allocs := allocs })).mp hm
    refine iff_of_true (iff_of_false hr fun hl => nomatch hl.ready) fun hf md hmd => ?_
    obtain ⟨-, ⟨md', hmd', h₀⟩, -⟩ := h
    cases hmd.symm.trans hmd'
    exact ⟨h₀, fun _ h' => absurd h' hm⟩
  | full h hm c hc =>
    obtain ⟨hf, ⟨md, hmd, h₀⟩, hload⟩ := h
    have hloaded := full_loaded hm hc
    have hret := @provideShmems_ret dev e c.1 (List.range dev.shMemCount) c.2.1 c.2.2
    have hconf : Configures dev e _ _ c := hc ▸ configure_spec (by rw [provideMem_mem]; rfl)
    have hhonest : Honest dev fw e ↔
        (dev.shMemCount = 0 → Configured dev e → (e.populate = 0 ↔ e.share = 0)) ∧
        (0 < dev.shMemCount → (∀ i < dev.shMemCount, ShReported (e.shmem i)) →
          e.share = 0 ∧ Configured dev e ∧ ∀ i < dev.shMemCount, (e.shmem i).share = 0) := by
      refine ⟨fun hh => (hh hf md hmd).2 hload hm, fun hh _ md' hmd' => ?_⟩
      cases hmd.symm.trans hmd'
      exact ⟨h₀, fun _ _ => hh⟩
    rw [hhonest, ReportsTruth, hloaded, hret]
    simp only [List.mem_range, List.range_eq_nil]
    by_cases hn : dev.shMemCount = 0
    · simp only [hn, Nat.not_lt_zero, false_implies, implies_true, true_and, and_true, true_implies, hconf.ret]
      rw [and_comm (a := e.share = 0)]
      exact and_congr_right_iff
    · simp only [hn, false_implies, and_true, true_and, Nat.pos_of_ne_zero hn, true_implies]
      constructor
      · intro hh hrep
        obtain ⟨h₁, h₂, h₃⟩ := hh.mp hrep
        exact ⟨h₁, h₂, fun i hi => (h₃ i hi).2⟩
      · intro hh
        refine ⟨fun hrep => ?_, fun hall i hi => ⟨(hall.2.2 i hi).1, .inl (hall.2.2 i hi).2⟩⟩
        obtain ⟨h₁, h₂, h₃⟩ := hh hrep
        exact ⟨h₁, h₂, fun i hi => ⟨(hrep i hi).1, h₃ i hi⟩⟩

/-- A device with one static region at `0x80000000` and no shared ones. -/
def staticDev (size : BitVec 64) : SecVmDev where
  systemVm := false
  fwMemRegions := fun _ => { phys := 0x80000000, virt := 0xffffffc010000000, size := size, isStatic := true }
  fwMemCount := 1
  pasId := 28
  fwIndex := 0
  fwIndex_lt := by decide
  shMemRegions := fun _ => { srcVmids := [], dstVmids := [], isShared := true }
  shMemCount := 0

/-- Metadata of a little more than a page, for an image of eight pages. -/
def mdt : Metadata where
  phdrs := [{ flags := 0x07000000, paddr := 0, memsz := 0 }, { flags := 0x02200000, paddr := 0, memsz := 0 },
    { flags := 0x5, paddr := 0x80000000, memsz := 0x8000 }]
  size := 0x1094

/-- Metadata that the region has no room for is reported as a load that went well. -/
theorem no_room_reports_success : ¬ ReportsTruth (staticDev 0x1000)
    (ghVmLoaderSecLoad (staticDev 0x1000) ((staticDev 0x1000).fwMemRegions 0)
      { dma := fun _ => none, vmid := 45, metadata := .ok mdt } { status := .load, vmid := 45 }
      (.initial (staticDev 0x1000))) := by
  intro h
  have hret : (ghVmLoaderSecLoad (staticDev 0x1000) ((staticDev 0x1000).fwMemRegions 0)
      { dma := fun _ => none, vmid := 45, metadata := .ok mdt } { status := .load, vmid := 45 }
      (.initial (staticDev 0x1000))).2.2 = 0 := by decide
  exact absurd (h.mp hret).ready (by decide)

end GH.Proof.Vm
