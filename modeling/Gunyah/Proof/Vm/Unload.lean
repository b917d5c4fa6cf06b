import Gunyah.Proof.Vm.Load

/-!
# What a failed load leaves behind

`gh_destroy_vm` reclaims the memory of a VM by its `fw_name`, which is set at
the end of a load that succeeds. After one that fails it reclaims nothing
(`destroy_unnamed`), so that the memory is given back exactly when the load
itself has left nothing with the VM, and nothing allocated
(`failed_load_iff`).
-/

namespace GH.Proof.Vm

open GH.Impl GH.Impl.Vm GH.Spec.Vm

/-! ## Assigned memory -/

/-- Every region is with its owners, and there are no memparcels. -/
structure Untouched (dev : SecVmDev) (m : DevMem) : Prop where
  fw : (∀ i < dev.fwMemCount, m.fwOwners i = [QCOM_SCM_VMID_HLOS]) ∧ m.memParcel = false
  sh : ∀ i < dev.shMemCount, m.shOwners i = (dev.shMemRegions i).srcOwners ∧ m.shParcel i = false

theorem Untouched.congr {dev : SecVmDev} {m m' : DevMem} (h : Untouched dev m) (h₁ : m'.fwOwners = m.fwOwners)
    (h₂ : m'.memParcel = m.memParcel) (h₃ : m'.shOwners = m.shOwners) (h₄ : m'.shParcel = m.shParcel) :
    Untouched dev m' := by
  obtain ⟨hfw, hsh⟩ := h
  rw [← h₁, ← h₂] at hfw
  rw [← h₃, ← h₄] at hsh
  exact ⟨hfw, hsh⟩

theorem secLoad_untouched {dev : SecVmDev} {fw : FwMem} {e : LoadAnswers} {vm : GhVm} {m : DevMem}
    (hm : Untouched dev m) (hpop : m.populated = false) (hvmid : vm.vmid = e.vmid) :
    Untouched dev (ghVmLoaderSecLoad dev fw e vm m).2.1 ↔ LoadUntaken dev fw e := by
  have hl := secLoad_loads dev fw e vm m
  generalize ghVmLoaderSecLoad dev fw e vm m = r at hl
  cases hl with
  | noImage h hmd hr => exact iff_of_true (hm.congr rfl rfl rfl rfl) fun h' => absurd h' h
  | noMetadata hf hmd h =>
    refine iff_of_true (hm.congr rfl rfl rfl rfl) ?_
    rintro ⟨-, ⟨md', hmd', h'⟩, -⟩
    cases hmd.symm.trans hmd'
    exact absurd h h'
  | noMem h hrep =>
    have huntaken := provideMem_untaken e vm (m := withImage m) hm.fw.2 hm.fw.1
    have hmem := provideMem_mem dev e vm (withImage m)
    generalize ghProvideMem dev e vm (withImage m) = p at huntaken hmem
    constructor
    · intro hu _
      exact ⟨huntaken.mp hu.fw, fun h' => absurd h' hrep⟩
    · intro hu
      refine ⟨huntaken.mpr (hu h).1, ?_⟩
      rw [hmem]
      exact hm.sh
  | full h hrep c hc =>
    have huntaken := provideMem_untaken e vm (m := withImage m) hm.fw.2 hm.fw.1
    have hmem := provideMem_mem dev e vm (withImage m)
    generalize ghProvideMem dev e vm (withImage m) = p at huntaken hmem hc
    have hconf : Configures dev e vm p.1 c := hc ▸ configure_spec (by rw [hmem]; exact hpop)
    have hsh := provideShmems_untaken dev e c.1 (List.nodup_range (n := dev.shMemCount)) (m := c.2.1) c.2.2
      fun i hi => by rw [hconf.mem, hmem]; exact hm.sh i (List.mem_range.mp hi)
    have hq := provideShmems_mem dev e c.1 (List.range dev.shMemCount) c.2.1 c.2.2
    rw [List.range_eq_range', untakenIn_range', ← List.range_eq_range', hconf.vmid, hvmid] at hsh
    simp only [List.mem_range, Nat.zero_le, true_implies, Nat.zero_add] at hsh
    generalize (provideShmems dev e c.1 (List.range dev.shMemCount) c.2.1 c.2.2).1 = q at hsh hq
    have howners : q.fwOwners = p.1.fwOwners := by rw [hq, hconf.mem]
    have hparcel : q.memParcel = p.1.memParcel := by rw [hq, hconf.mem]
    constructor
    · intro hu _
      refine ⟨huntaken.mp ?_, fun _ => hsh.mp hu.sh⟩
      rw [← howners, ← hparcel]
      exact hu.fw
    · intro hu
      refine ⟨?_, hsh.mpr ((hu h).2 hrep)⟩
      rw [howners, hparcel]
      exact huntaken.mpr (hu h).1

/-! ## Allocated memory -/

section Alloc

variable {e : LoadAnswers}

theorem allocRegions_static {i : Nat} {is : List Nat} {fw : Nat → FwMem} {m : DevMem} (h : (fw i).isStatic = true) :
    allocRegions e (i :: is) fw m = allocRegions e is fw m := if_pos h

theorem allocRegions_fails {i : Nat} {is : List Nat} {fw : Nat → FwMem} {m : DevMem} (h : (fw i).isStatic = false)
    (hd : e.dma i = none) : allocRegions e (i :: is) fw m = (fw, m, false) := by
  rw [allocRegions, if_neg (by simp [h]), hd]

theorem allocRegions_next {i : Nat} {is : List Nat} {fw : Nat → FwMem} {m : DevMem} {a : BitVec 64 × BitVec 64}
    (h : (fw i).isStatic = false) (hd : e.dma i = some a) :
    allocRegions e (i :: is) fw m = allocRegions e is (Function.update fw i { fw i with virt := a.1, phys := a.2 })
      { m with allocs := Function.update m.allocs i (m.allocs i + 1) } := by
  rw [allocRegions, if_neg (by simp [h]), hd]

/-- Allocation keeps which regions are static. -/
theorem isStatic_update (fw : Nat → FwMem) (i : Nat) (a : BitVec 64 × BitVec 64) (j : Nat) :
    (Function.update fw i { fw i with virt := a.1, phys := a.2 } j).isStatic = (fw j).isStatic := by
  by_cases hj : j = i
  · simp [hj]
  · simp [hj]

/-- What the loop over the regions does. -/
structure Allocates (e : LoadAnswers) (is : List Nat) (fw : Nat → FwMem) (m : DevMem)
    (r : (Nat → FwMem) × DevMem × Bool) : Prop where
  static : ∀ j, (r.1 j).isStatic = (fw j).isStatic
  mem : r.2.1 = { m with allocs := r.2.1.allocs }
  ok : r.2.2 = true ↔ ∀ i ∈ is, (fw i).isStatic = false → (e.dma i).isSome
  grows : ∀ j, m.allocs j ≤ r.2.1.allocs j
  other : ∀ j, j ∉ is → r.2.1.allocs j = m.allocs j
  all : r.2.2 = true → ∀ j, r.2.1.allocs j = m.allocs j + if (fw j).isStatic then 0 else is.countP (· = j)

theorem allocRegions_allocates (is : List Nat) (fw : Nat → FwMem) (m : DevMem) :
    Allocates e is fw m (allocRegions e is fw m) := by
  induction is generalizing fw m with
  | nil => exact ⟨fun _ => rfl, rfl, by simp [allocRegions], fun _ => Nat.le_refl _, fun _ _ => rfl,
      by simp [allocRegions]⟩
  | cons i is ih =>
    cases hs : (fw i).isStatic with
    | true =>
      rw [allocRegions_static hs]
      obtain ⟨h₁, h₂, h₃, h₄, h₆, h₅⟩ := ih fw m
      refine ⟨h₁, h₂, ?_, h₄, fun j hj => h₆ j (List.not_mem_of_not_mem_cons hj), fun hok j => ?_⟩
      · rw [h₃, List.forall_mem_cons]
        simp [hs]
      · rw [h₅ hok j]
        by_cases hj : i = j
        · simp [← hj, hs]
        · simp [hj]
    | false =>
      cases hd : e.dma i with
      | none =>
        rw [allocRegions_fails hs hd]
        refine ⟨fun _ => rfl, rfl, ?_, fun _ => Nat.le_refl _, fun _ _ => rfl, nofun⟩
        rw [List.forall_mem_cons]
        simp [hs, hd]
      | some a =>
        rw [allocRegions_next hs hd]
        obtain ⟨h₁, h₂, h₃, h₄, h₆, h₅⟩ := ih (Function.update fw i { fw i with virt := a.1, phys := a.2 })
          { m with allocs := Function.update m.allocs i (m.allocs i + 1) }
        refine ⟨fun j => (h₁ j).trans (isStatic_update fw i a j), h₂, ?_, fun j => ?_, fun j hj => ?_, fun hok j => ?_⟩
        · rw [h₃, List.forall_mem_cons]
          simp only [isStatic_update]
          simp [hs, hd]
        · refine Nat.le_trans ?_ (h₄ j)
          by_cases hj : j = i
          · simp [hj]
          · simp [hj]
        · obtain ⟨hji, hjs⟩ := List.ne_and_not_mem_of_not_mem_cons hj
          exact (h₆ j hjs).trans (Function.update_of_ne hji ..)
        · rw [h₅ hok j, isStatic_update, List.countP_cons]
          by_cases hj : i = j
          · subst hj
            simp [hs]
            omega
          · simp [hj, Ne.symm hj]

/-- Nothing is allocated exactly when all regions are static, or the first one that
is not cannot be. -/
theorem allocs_untouched {k n : Nat} {fw : Nat → FwMem} {m : DevMem} :
    (∀ j, (allocRegions e (List.range' k n) fw m).2.1.allocs j = m.allocs j) ↔
      (∀ i, k ≤ i → i < k + n → (fw i).isStatic = true) ∨
      ∃ i, k ≤ i ∧ i < k + n ∧ (fw i).isStatic = false ∧ e.dma i = none ∧
        ∀ j, k ≤ j → j < i → (fw j).isStatic = true := by
  induction n generalizing k with
  | zero => exact iff_of_true (fun _ => rfl) (.inl fun i hi hn => by omega)
  | succ n ih =>
    rw [List.range'_succ]
    cases hs : (fw k).isStatic with
    | true =>
      rw [allocRegions_static hs, ih]
      refine or_congr ⟨fun h i hi hn => ?_, fun h i hi hn => h i (by omega) (by omega)⟩ ⟨?_, ?_⟩
      · by_cases hik : i = k
        · exact hik ▸ hs
        · exact h i (by omega) (by omega)
      · rintro ⟨i, hi, hin, hsi, hdi, hall⟩
        refine ⟨i, by omega, by omega, hsi, hdi, fun j hj hji => ?_⟩
        by_cases hjk : j = k
        · exact hjk ▸ hs
        · exact hall j (by omega) hji
      · rintro ⟨i, hi, hin, hsi, hdi, hall⟩
        have hik : i ≠ k := by
          rintro rfl
          exact absurd (hs.symm.trans hsi) (by decide)
        exact ⟨i, by omega, by omega, hsi, hdi, fun j hj hji => hall j (by omega) hji⟩
    | false =>
      have hno : ¬ ∀ i, k ≤ i → i < k + (n + 1) → (fw i).isStatic = true := by
        intro h
        exact absurd (hs.symm.trans (h k (by omega) (by omega))) (by decide)
      cases hd : e.dma k with
      | none =>
        rw [allocRegions_fails hs hd]
        refine iff_of_true (fun _ => rfl) (.inr ⟨k, by omega, by omega, hs, hd, fun j hj hjk => ?_⟩)
        omega
      | some a =>
        refine iff_of_false (fun h => ?_) fun h => ?_
        · have hk := h k
          rw [allocRegions_next hs hd] at hk
          have hgrows := (allocRegions_allocates (e := e) (List.range' (k + 1) n)
            (Function.update fw k { fw k with virt := a.1, phys := a.2 })
            { m with allocs := Function.update m.allocs k (m.allocs k + 1) }).grows k
          rw [hk] at hgrows
          simp only [Function.update_self] at hgrows
          omega
        · obtain ⟨i, hi, hin, hsi, hdi, hall⟩ := h.resolve_left hno
          by_cases hik : i = k
          · subst hik
            cases hd.symm.trans hdi
          · exact absurd (hs.symm.trans (hall k (by omega) (by omega))) (by decide)

theorem freeRegion_mem {fw : Nat → FwMem} {is : List Nat} {m : DevMem} :
    is.foldl (freeRegion fw) m = { m with
      frees := fun j => m.frees j + if (fw j).isStatic then 0 else is.countP (· = j) } := by
  induction is generalizing m with
  | nil => simp
  | cons i is ih =>
    rw [List.foldl_cons, ih, freeRegion]
    cases hs : (fw i).isStatic with
    | true =>
      simp only [if_true]
      congr 1
      funext j
      by_cases hj : i = j
      · simp [← hj, hs]
      · simp [hj]
    | false =>
      simp only [Bool.false_eq_true, if_false]
      congr 1
      funext j
      by_cases hj : i = j
      · subst hj
        simp [hs]
        omega
      · simp [hj, Ne.symm hj]

end Alloc

/-! ## Loads that fail -/

theorem givenBack_iff {dev : SecVmDev} {m : DevMem} :
    GivenBack dev m ↔ Untouched dev m ∧ ∀ i < dev.fwMemCount, m.frees i = m.allocs i := by
  constructor
  · rintro ⟨h₁, h₂, h₃, h₄, h₅⟩
    exact ⟨⟨⟨h₁, h₃⟩, fun i hi => ⟨h₂ i hi, h₄ i hi⟩⟩, h₅⟩
  · rintro ⟨⟨⟨h₁, h₃⟩, hsh⟩, h₅⟩
    exact ⟨h₁, fun i hi => (hsh i hi).1, h₃, fun i hi => (hsh i hi).2, h₅⟩

theorem untouched_initial (dev : SecVmDev) (allocs frees : Nat → Nat) :
    Untouched dev { DevMem.initial dev with allocs := allocs, frees := frees } :=
  ⟨⟨fun _ _ => rfl, rfl⟩, fun _ _ => ⟨rfl, rfl⟩⟩

/-- The load itself changes neither what has been allocated nor what has been freed. -/
theorem secLoad_allocs (dev : SecVmDev) (fw : FwMem) (e : LoadAnswers) (vm : GhVm) (m : DevMem) (hpop : m.populated = false) :
    (ghVmLoaderSecLoad dev fw e vm m).2.1.allocs = m.allocs ∧ (ghVmLoaderSecLoad dev fw e vm m).2.1.frees = m.frees ∧
      (ghVmLoaderSecLoad dev fw e vm m).1.fwName = vm.fwName := by
  have hl := secLoad_loads dev fw e vm m
  generalize ghVmLoaderSecLoad dev fw e vm m = r at hl
  cases hl with
  | noImage h hmd hr => exact ⟨rfl, rfl, rfl⟩
  | noMetadata hf hmd h => exact ⟨rfl, rfl, rfl⟩
  | noMem h hm =>
    rw [provideMem_mem]
    exact ⟨rfl, rfl, rfl⟩
  | full h hm c hc =>
    have hconf : Configures dev e vm _ c := hc ▸ configure_spec (by rw [provideMem_mem]; exact hpop)
    rw [provideShmems_mem, hconf.mem, provideMem_mem]
    exact ⟨rfl, rfl, hconf.fwName⟩

/-- Where all regions are static there is nothing to allocate. -/
theorem allocRegions_allStatic {e : LoadAnswers} {is : List Nat} {fw : Nat → FwMem} {m : DevMem}
    (h : ∀ i ∈ is, (fw i).isStatic = true) : allocRegions e is fw m = (fw, m, true) := by
  induction is with
  | nil => rfl
  | cons i is ih =>
    obtain ⟨hi, his⟩ := List.forall_mem_cons.mp h
    rw [allocRegions_static hi, ih his]

/-- What the load leaves allocated: what cannot be counted as freed. -/
theorem freed_initial_iff {dev : SecVmDev} {m : DevMem} (hfrees : m.frees = (DevMem.initial dev).frees)
    (hother : ∀ j, ¬ j < dev.fwMemCount → m.allocs j = (DevMem.initial dev).allocs j) :
    (∀ i < dev.fwMemCount, m.frees i = m.allocs i) ↔ ∀ j, m.allocs j = (DevMem.initial dev).allocs j := by
  rw [hfrees]
  constructor
  · intro h j
    by_cases hj : j < dev.fwMemCount
    · exact (h j hj).symm
    · exact hother j hj
  · intro h j _
    exact (h j).symm

/-- A load gives back what it takes exactly when it takes nothing. -/
theorem loadFw_givenBack (dev : SecVmDev) (e : LoadAnswers) (vm : GhVm) :
    GivenBack dev (ghSecVmLoaderLoadFw dev e vm (.initial dev)).2.1 ↔ NothingTaken dev e := by
  have ha := allocRegions_allocates (e := e) (List.range dev.fwMemCount) dev.fwMemRegions (.initial dev)
  have hu := @allocs_untouched e 0 dev.fwMemCount dev.fwMemRegions (.initial dev)
  have hsame : (∀ i < dev.fwMemCount, (dev.fwMemRegions i).isStatic = true) →
      allocRegions e (List.range dev.fwMemCount) dev.fwMemRegions (.initial dev) =
        (dev.fwMemRegions, .initial dev, true) :=
    fun h => allocRegions_allStatic fun i hi => h i (List.mem_range.mp hi)
  rw [← List.range_eq_range'] at hu
  unfold ghSecVmLoaderLoadFw NothingTaken
  generalize allocRegions e (List.range dev.fwMemCount) dev.fwMemRegions (.initial dev) = r at ha hu hsame
  obtain ⟨fw, m, ok⟩ := r
  obtain ⟨hstatic, hmem, hok, -, hother, hall⟩ := ha
  simp only at hstatic hmem hok hother hall hu
  simp only [List.mem_range] at hok hother
  simp only [Nat.zero_le, true_implies, Nat.zero_add, true_and] at hu
  have huntouched : Untouched dev m := hmem ▸ untouched_initial dev _ _
  have hfrees : m.frees = (DevMem.initial dev).frees := by rw [hmem]
  have hpop : m.populated = false := by rw [hmem]; rfl
  cases ok with
  | false =>
    have hsome : ¬ ∀ i < dev.fwMemCount, (dev.fwMemRegions i).isStatic = false → (e.dma i).isSome :=
      fun h => absurd (hok.mpr h) nofun
    have hnot : ¬ ∀ i < dev.fwMemCount, (dev.fwMemRegions i).isStatic = true :=
      fun h => hsome fun i hi hs => absurd (hs.symm.trans (h i hi)) nofun
    simp only [if_true, hsome, hnot, false_and, or_false]
    rw [givenBack_iff, freed_initial_iff hfrees hother, hu, or_iff_right hnot]
    exact and_iff_right huntouched
  | true =>
    have hsome := hok.mp rfl
    have hfirst : ¬ ∃ i < dev.fwMemCount, (dev.fwMemRegions i).isStatic = false ∧ e.dma i = none ∧
        ∀ j < i, (dev.fwMemRegions j).isStatic = true := by
      rintro ⟨i, hi, hs, hd, -⟩
      have := hsome i hi hs
      rw [hd] at this
      exact absurd this nofun
    simp only [Bool.true_eq_false, if_false, hfirst, false_or]
    by_cases hvmid : e.allocVmid < 0
    · rw [if_pos hvmid]
      refine iff_of_true ?_ (.inl ⟨hsome, hvmid⟩)
      rw [givenBack_iff, freeRegion_mem]
      refine ⟨huntouched.congr rfl rfl rfl rfl, fun i hi => ?_⟩
      simp only [hall rfl i, hfrees, hstatic]
      rfl
    · rw [if_neg hvmid]
      obtain ⟨hallocs, hfrees', -⟩ := secLoad_allocs dev (fw dev.fwIndex) e { vm with status := .load, vmid := e.vmid } m hpop
      have hload := @secLoad_untouched dev (fw dev.fwIndex) e { vm with status := .load, vmid := e.vmid } m
        huntouched hpop rfl
      rw [givenBack_iff, hload, hallocs, hfrees', freed_initial_iff hfrees hother, hu]
      simp only [hfirst, or_false, hvmid, and_false, false_or]
      constructor
      · rintro ⟨hl, hs⟩
        cases hsame hs
        exact ⟨hs, hl⟩
      · rintro ⟨hs, hl⟩
        cases hsame hs
        exact ⟨hl, hs⟩

theorem loadFw_fwName (dev : SecVmDev) (e : LoadAnswers) (vm : GhVm) :
    (ghSecVmLoaderLoadFw dev e vm (.initial dev)).1.fwName = vm.fwName := by
  have ha := allocRegions_allocates (e := e) (List.range dev.fwMemCount) dev.fwMemRegions (.initial dev)
  unfold ghSecVmLoaderLoadFw
  generalize allocRegions e (List.range dev.fwMemCount) dev.fwMemRegions (.initial dev) = r at ha
  obtain ⟨fw, m, ok⟩ := r
  have hmem : m = { DevMem.initial dev with allocs := m.allocs } := ha.mem
  have hpop : m.populated = false := by rw [hmem]; rfl
  simp only
  split
  · rfl
  split
  · rfl
  · exact (secLoad_allocs dev (fw dev.fwIndex) e { vm with status := .load, vmid := e.vmid } m hpop).2.2

/-- A VM without a name has nothing reclaimed. -/
theorem destroy_unnamed {devs : SecVm → Option SecVmDev} {c : CleanupAnswers} {s : VmState} (h : s.vm.fwName = none) :
    (ghDestroyVm devs c s).mem = s.mem := by
  have hreclaim : (ghSecureVmLoaderReclaimFw devs c s).1 = s := by
    unfold ghSecureVmLoaderReclaimFw
    rw [h]
    rfl
  unfold ghDestroyVm ghVmCleanup
  rw [hreclaim, ite_self]
  split
  · rfl
  · split <;> rfl

/-- After a load that fails and `gh_destroy_vm`, the memory is given back exactly
when the load has taken nothing. -/
theorem failed_load_iff (devs : SecVm → Option SecVmDev) (n : SecVm) (dev : SecVmDev) (hdev : devs n = some dev)
    (e : LoadAnswers) (c : CleanupAnswers)
    (h : (ghVmIoctlSetFwName devs (some (some n)) e (.created devs)).2 ≠ 0) :
    GivenBack dev ((ghDestroyVm devs c (ghVmIoctlSetFwName devs (some (some n)) e (.created devs)).1).mem n) ↔
      NothingTaken dev e := by
  have hname := loadFw_fwName dev e {}
  have hback := loadFw_givenBack dev e {}
  have hinit : (VmState.created devs).mem n = .initial dev := by simp only [VmState.created, hdev]
  have heq : ghVmIoctlSetFwName devs (some (some n)) e (.created devs) =
      let r := ghSecVmLoaderLoadFw dev e {} (.initial dev)
      let mem := Function.update (VmState.created devs).mem n r.2.1
      if r.2.2 ≠ 0 then (⟨r.1, mem⟩, r.2.2) else (⟨{ r.1 with fwName := some n }, mem⟩, 0) := by
    simp only [ghVmIoctlSetFwName, Option.bind_some, hdev, Option.map_some, hinit]
    rfl
  rw [heq] at h ⊢
  simp only at h ⊢
  generalize ghSecVmLoaderLoadFw dev e {} (.initial dev) = r at h hname hback ⊢
  by_cases hr : r.2.2 ≠ 0
  · rw [if_pos hr, destroy_unnamed hname]
    simpa using hback
  · rw [if_neg hr] at h
    exact absurd rfl h

/-- A platform with one secure VM. -/
def oneVm (n : SecVm) : Option SecVmDev := if n = .trustedvm then some (staticDev 0x100000) else none

/-- The RM and the SCM do all that they are asked to. -/
def allGoesWell : CleanupAnswers where
  reclaim := 0
  assign := fun _ => 0
  shAlloc := fun _ => true
  shReclaim := fun _ => 0
  shAssign := fun _ => 0

/-- An image that is not found. -/
def notFound : LoadAnswers where
  dma := fun _ => none
  vmid := 45
  requestFirmware := -2
  metadata := .ok mdt

/-- An image that the RM refuses to authenticate. -/
def authRefused : LoadAnswers where
  dma := fun _ => none
  vmid := 45
  metadata := .ok mdt
  authImage := -EINVAL

theorem not_found_gives_back : GivenBack (staticDev 0x100000) ((ghDestroyVm oneVm allGoesWell
    (ghVmIoctlSetFwName oneVm (some (some .trustedvm)) notFound (.created oneVm)).1).mem .trustedvm) :=
  (failed_load_iff oneVm .trustedvm (staticDev 0x100000) rfl notFound allGoesWell (by decide)).mpr
    (.inr (.inr ⟨fun _ _ => rfl, fun h => absurd h.1 (by decide)⟩))

/-- The memory stays with the VM whose image is not authenticated. -/
theorem auth_refused_keeps_memory :
    (ghVmIoctlSetFwName oneVm (some (some .trustedvm)) authRefused (.created oneVm)).2 = -EINVAL ∧
      ¬ GivenBack (staticDev 0x100000) ((ghDestroyVm oneVm allGoesWell
        (ghVmIoctlSetFwName oneVm (some (some .trustedvm)) authRefused (.created oneVm)).1).mem .trustedvm) := by
  refine ⟨by decide, fun h => ?_⟩
  have howners := h.owners 0 (by decide)
  exact absurd howners (by decide)

end GH.Proof.Vm
