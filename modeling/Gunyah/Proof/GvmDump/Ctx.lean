import Gunyah.Proof.GvmDump.Name
import Gunyah.Framework.Run
import Gunyah.Spec.GvmDump

/-!
# The arrays of the context, and the regions

`get_gvm_resource` sets an element of two arrays for each region (`Loaded`), but
allocates one element for each array. No call changes what is set or allocated, and each
access is to an element of a region (`Grows`), since a name's number is that
of a region. So the accesses are within the arrays exactly if there is at
most one region (`allWithin_iff`), and the file of a region gives the region
exactly if its number has one digit (`dumpsRegion_iff`).
-/

namespace GH.Proof.GvmDump

open GH.Impl GH.Impl.GvmDump GH.Impl.GvmDump.GvmRamdumpCtx GH.Spec.GvmDump

variable {c t u : GvmRamdumpCtx} {dev : Device} {file : Dentry} {accesses : List Access} {idx : Nat}

/-! ## What no call takes back -/

/-- The accesses are to elements of regions. -/
def OfRegions (c : GvmRamdumpCtx) (accesses : List Access) : Prop := ∀ a ∈ accesses, (a.idx : Int) < c.numMemRegions

/-- A function keeps the regions, and accesses the arrays only at these. -/
structure Grows (c t : GvmRamdumpCtx) : Prop where
  num : t.numMemRegions = c.numMemRegions
  start : t.ramdumpStartAddr = c.ramdumpStartAddr
  size : t.ramdumpSize = c.ramdumpSize
  allocated : t.allocated = c.allocated
  accesses : ∃ new, t.accesses = c.accesses ++ new ∧ OfRegions c new

namespace Grows

/-- The arrays that are not set, the lock and the directory may change. -/
theorem same (hnum : t.numMemRegions = c.numMemRegions) (hstart : t.ramdumpStartAddr = c.ramdumpStartAddr)
    (hsize : t.ramdumpSize = c.ramdumpSize) (halloc : t.allocated = c.allocated) (hacc : t.accesses = c.accesses) :
    Grows c t :=
  ⟨hnum, hstart, hsize, halloc, [], by rw [hacc, List.append_nil], fun _ h => absurd h List.not_mem_nil⟩

theorem refl (c : GvmRamdumpCtx) : Grows c c := same rfl rfl rfl rfl rfl

theorem trans (h : Grows c t) (h' : Grows t u) : Grows c u := by
  obtain ⟨new, hnew, hof⟩ := h.accesses
  obtain ⟨new', hnew', hof'⟩ := h'.accesses
  refine ⟨h'.num.trans h.num, h'.start.trans h.start, h'.size.trans h.size, h'.allocated.trans h.allocated,
    new ++ new', by rw [hnew', hnew, List.append_assoc], fun a ha => ?_⟩
  obtain ha | ha := List.mem_append.mp ha
  · exact hof a ha
  · exact h.num ▸ hof' a ha

theorem touch (h : OfRegions c accesses) : Grows c (c.touch accesses) := ⟨rfl, rfl, rfl, rfl, accesses, rfl, h⟩

end Grows

/-- Accesses to the elements of one region. -/
theorem ofRegions_of_idx (h : (idx : Int) < c.numMemRegions) (hidx : ∀ a ∈ accesses, a.idx = idx) :
    OfRegions c accesses :=
  fun a ha => hidx a ha ▸ h

/-- An element for each region. -/
theorem lt_of_mem_range (h : idx ∈ List.range c.numMemRegions.toNat) : (idx : Int) < c.numMemRegions := by
  have hlt := List.mem_range.mp h
  omega

/-! ## The calls -/

theorem cleanup_grows (h : c.cleanupSingleGvm = some t) : Grows c t := by
  unfold cleanupSingleGvm at h
  split at h
  · cases h
  · cases h
    exact Grows.same rfl rfl rfl rfl rfl

theorem createFiles_grows : Grows c c.createFiles := by
  refine (Grows.touch fun a ha => ?_).trans (Grows.same rfl rfl rfl rfl rfl)
  obtain ⟨idx, hidx, rfl⟩ := List.mem_map.mp ha
  exact lt_of_mem_range hidx

/-- A region is mapped. -/
theorem map_grows (h : (idx : Int) < c.numMemRegions) (addr : BitVec 64) : Grows c ((c.setMapped idx addr).touch
    [⟨.ramdumpStartAddr, idx⟩, ⟨.ramdumpSize, idx⟩, ⟨.mappedAddr, idx⟩, ⟨.mappedAddr, idx⟩]) := by
  have hset : Grows c (c.setMapped idx addr) := Grows.same rfl rfl rfl rfl rfl
  exact hset.trans (Grows.touch (ofRegions_of_idx h (by simp)))

theorem sanitizeOne_grows (memremap : BitVec 64 → BitVec 64 → BitVec 64) (h : (idx : Int) < c.numMemRegions) :
    Grows c (sanitizeOne memremap c idx) := by
  have hmap := map_grows h (memremap (c.ramdumpStartAddr idx) (c.ramdumpSize idx))
  simp only [sanitizeOne]
  split
  · exact hmap
  · exact hmap.trans (Grows.touch (ofRegions_of_idx (hmap.num ▸ h) (by simp)))

theorem sanitizeLoop_grows (memremap : BitVec 64 → BitVec 64 → BitVec 64) (idxs : List Nat)
    (h : ∀ idx ∈ idxs, (idx : Int) < c.numMemRegions) : Grows c (idxs.foldl (sanitizeOne memremap) c) := by
  induction idxs generalizing c with
  | nil => exact Grows.refl c
  | cons i idxs ih =>
    rw [List.forall_mem_cons] at h
    have hone := sanitizeOne_grows memremap h.1
    exact hone.trans (ih (hone.num ▸ h.2))

theorem sanitize_grows {memremap : BitVec 64 → BitVec 64 → BitVec 64} (h : c.sanitizeGvmRegion memremap = some t) :
    Grows c t := by
  unfold sanitizeGvmRegion at h
  split at h
  · cases h
  · cases h
    exact sanitizeLoop_grows memremap _ fun idx hidx => lt_of_mem_range hidx

/-- The number of a name, where it has one, is that of a region. -/
theorem ramdumpId_lt (h : ¬ getRamdumpId file c.numMemRegions < 0) :
    ((getRamdumpId file c.numMemRegions).toNat : Int) < c.numMemRegions := by
  obtain herr | ⟨id, hid, -, hlt⟩ := getRamdumpId_cases file c.numMemRegions
  · rw [herr] at h
    exact absurd (by decide : (-EINVAL : Int) < 0) h
  · rw [hid]
    omega

theorem open_grows {memremap : BitVec 64 → BitVec 64 → BitVec 64} {ret : Int}
    (h : c.gvmDebugfsOpen file memremap = some (ret, t)) : Grows c t := by
  simp only [gvmDebugfsOpen] at h
  split at h
  · obtain ⟨t', hclean, he⟩ := Option.map_eq_some_iff.mp h
    cases he
    exact cleanup_grows hclean
  · rename_i hid
    split at h
    · cases h
    · have hmap := map_grows (ramdumpId_lt hid) (memremap (c.ramdumpStartAddr (getRamdumpId file c.numMemRegions).toNat)
        (c.ramdumpSize (getRamdumpId file c.numMemRegions).toNat))
      split at h
      · obtain ⟨t', hclean, he⟩ := Option.map_eq_some_iff.mp h
        cases he
        exact hmap.trans (cleanup_grows hclean)
      · cases h
        exact hmap.trans (Grows.same rfl rfl rfl rfl rfl)

theorem read_grows (mem : BitVec 64 → BitVec 64 → List Byte) (req : Req) :
    Grows c (c.gvmDebugfsRead file mem req).2 := by
  simp only [gvmDebugfsRead]
  split
  · exact Grows.refl c
  · rename_i hid
    exact Grows.touch (ofRegions_of_idx (ramdumpId_lt hid) (by simp))

theorem release_grows : Grows c (c.gvmDebugfsRelease file).2 := by
  simp only [gvmDebugfsRelease]
  split
  · exact Grows.refl c
  · rename_i hid
    have hone (d : GvmRamdumpCtx) (hd : d.numMemRegions = c.numMemRegions) :
        Grows d (d.touch [⟨.mappedAddr, (getRamdumpId file c.numMemRegions).toNat⟩]) :=
      Grows.touch (ofRegions_of_idx (by rw [hd]; exact ramdumpId_lt hid) (by simp))
    split
    · exact (hone c rfl).trans (Grows.same rfl rfl rfl rfl rfl)
    · exact ((hone c rfl).trans (hone _ rfl)).trans (Grows.same rfl rfl rfl rfl rfl)

/-- The accesses of a reader are among those of its operations. -/
theorem mem_reads {size : Nat} {text : Text} {ops : List TextOp} {a : Access} (h : a ∈ text.reads size ops) :
    ∃ op ∈ ops, a ∈ op.reads := by
  induction ops generalizing text with
  | nil => exact absurd h List.not_mem_nil
  | cons op ops ih =>
    have hhead (ha : a ∈ op.reads) : ∃ o ∈ op :: ops, a ∈ o.reads := ⟨op, List.mem_cons_self, ha⟩
    simp only [Text.reads] at h
    split at h
    · obtain h | h := List.mem_append.mp h
      · exact hhead h
      · obtain ⟨o, ho, ha⟩ := ih h
        exact ⟨o, List.mem_cons_of_mem _ ho, ha⟩
    · exact hhead h

theorem dumpInfoOps_ofRegions {op : TextOp} (h : op ∈ c.dumpInfoOps) : OfRegions c op.reads := by
  obtain h | h := List.mem_append.mp h
  · have hnone : op.reads = [] := by
      obtain rfl | rfl : op = .strlcpy header ∨ op = .strlcat dotLine := by simpa using h
      · rfl
      · rfl
    exact fun a ha => absurd (hnone ▸ ha) List.not_mem_nil
  · obtain ⟨idx, hidx, hop⟩ := List.mem_flatMap.mp h
    refine ofRegions_of_idx (lt_of_mem_range hidx) fun a ha => ?_
    simp only [dumpInfoLine, List.mem_cons, List.not_mem_nil, or_false] at hop
    rcases hop with rfl | rfl | rfl | rfl | rfl | rfl | rfl | rfl
    all_goals simp_all [TextOp.reads]

theorem loadCmmOps_ofRegions {op : TextOp} (h : op ∈ c.loadCmmOps) : OfRegions c op.reads := by
  obtain ⟨idx, hidx, hop⟩ := List.mem_flatMap.mp h
  refine ofRegions_of_idx (lt_of_mem_range hidx) fun a ha => ?_
  simp only [loadCmmLine, List.mem_cons, List.not_mem_nil, or_false] at hop
  rcases hop with rfl | rfl | rfl | rfl | rfl | rfl | rfl
  all_goals simp_all [TextOp.reads]

theorem reads_grows {size : Nat} {ops : List TextOp} (text : Text) (h : ∀ op ∈ ops, OfRegions c op.reads) :
    Grows c (c.touch (text.reads size ops)) := by
  refine Grows.touch fun a ha => ?_
  obtain ⟨op, hop, ha⟩ := mem_reads ha
  exact h op hop a ha

theorem step_grows (c : GvmRamdumpCtx) (op : Op) (t : GvmRamdumpCtx) (h : c.step op = some t) : Grows c t := by
  cases op with
  | createFiles =>
    cases h
    exact createFiles_grows
  | sanitize memremap => exact sanitize_grows h
  | cleanup => exact cleanup_grows h
  | openFile file memremap =>
    obtain ⟨⟨ret, t'⟩, hopen, he⟩ := Option.map_eq_some_iff.mp h
    cases he
    exact open_grows hopen
  | read file mem req =>
    cases h
    exact read_grows mem req
  | release file =>
    cases h
    exact release_grows
  | dumpInfo req =>
    cases h
    exact reads_grows _ fun _ => dumpInfoOps_ofRegions
  | loadCmm req =>
    cases h
    exact reads_grows _ fun _ => loadCmmOps_ofRegions

theorem exec_grows {ops : List Op} (h : exec GvmRamdumpCtx.step c ops = some t) : Grows c t :=
  inv_exec (I := Grows c) (fun s op u hs hu => hs.trans (step_grows s op u hu)) (Grows.refl c) h

/-! ## `get_gvm_resource` -/

/-- The arrays have the region. -/
def HasRegion (dev : Device) (c : GvmRamdumpCtx) (idx : Nat) : Prop :=
  ∀ res, regionOf dev idx = some res → c.ramdumpStartAddr idx = res.start ∧ c.ramdumpSize idx = resourceSize res

/-- What the loop has done: `c` is the context before it. -/
structure Loaded (dev : Device) (idxs : List Nat) (c t : GvmRamdumpCtx) : Prop where
  num : t.numMemRegions = c.numMemRegions
  allocated : t.allocated = c.allocated
  accesses : t.accesses = c.accesses ++ idxs.flatMap fun idx => [⟨.ramdumpStartAddr, idx⟩, ⟨.ramdumpSize, idx⟩]
  regions : ∀ idx, idx ∈ idxs ∨ HasRegion dev c idx → HasRegion dev t idx

theorem hasRegion_setRegion {res : Resource} {i : Nat} (hres : regionOf dev i = some res)
    (h : idx = i ∨ HasRegion dev c idx) : HasRegion dev (c.setRegion i res) idx := by
  intro res' hres'
  by_cases hi : idx = i
  · subst hi
    rw [hres, Option.some.injEq] at hres'
    subst hres'
    exact ⟨Function.update_self .., Function.update_self ..⟩
  · obtain ⟨hstart, hsize⟩ := h.resolve_left hi res' hres'
    exact ⟨(Function.update_of_ne hi ..).trans hstart, (Function.update_of_ne hi ..).trans hsize⟩

theorem resourceLoop_loaded {idxs : List Nat} (h : resourceLoop dev idxs c = (0, t)) : Loaded dev idxs c t := by
  induction idxs generalizing c with
  | nil =>
    cases h
    exact ⟨rfl, rfl, (List.append_nil _).symm, fun idx h => h.resolve_left List.not_mem_nil⟩
  | cons i idxs ih =>
    unfold resourceLoop at h
    cases hnode : ofParsePhandle dev i with
    | missing =>
      rw [hnode] at h
      cases h
    | node address =>
      rw [hnode] at h
      cases address with
      | none => cases h
      | some res =>
        have hres : regionOf dev i = some res := by rw [regionOf, hnode]
        have hrest := ih h
        refine ⟨hrest.num, hrest.allocated, ?_, fun idx hidx => hrest.regions idx ?_⟩
        · rw [hrest.accesses, List.flatMap_cons, ← List.append_assoc]
          rfl
        · rw [List.mem_cons, or_assoc] at hidx
          obtain hi | hidx | hold := hidx
          · exact Or.inr (hasRegion_setRegion hres (Or.inl hi))
          · exact Or.inl hidx
          · exact Or.inr (hasRegion_setRegion hres (Or.inr hold))

/-- One element is allocated for each array, and the regions are loaded. -/
structure Ready (dev : Device) (c : GvmRamdumpCtx) : Prop where
  num : c.numMemRegions = ofCountPhandleWithArgs dev
  allocated : c.allocated = elemSize
  accesses : c.accesses = (List.range (ofCountPhandleWithArgs dev).toNat).flatMap fun idx =>
    [⟨.ramdumpStartAddr, idx⟩, ⟨.ramdumpSize, idx⟩]
  regions : ∀ idx : Nat, (idx : Int) < c.numMemRegions → HasRegion dev c idx

theorem getGvmResource_ready {mem : Arr → Bool} (h : getGvmResource {} dev mem = (0, c)) : Ready dev c := by
  simp only [getGvmResource] at h
  split at h
  · cases h
  split at h
  · cases h
  split at h
  · cases h
  split at h
  · cases h
  split at h
  · cases h
  split at h
  · cases h
  have hloaded := resourceLoop_loaded h
  refine ⟨hloaded.num, hloaded.allocated.trans ?_, hloaded.accesses, fun idx hidx => hloaded.regions idx (Or.inl ?_)⟩
  · funext arr
    cases arr <;> rfl
  · rw [hloaded.num] at hidx
    rw [List.mem_range]
    omega

/-! ## The arrays -/

/-- The accesses of all calls are within the arrays exactly if the device node lists
at most one region. -/
theorem allWithin_iff {mem : Arr → Bool} {ops : List Op} (h : getGvmResource {} dev mem = (0, c))
    (hrun : exec GvmRamdumpCtx.step c ops = some t) : AllWithin t ↔ ofCountPhandleWithArgs dev ≤ 1 := by
  have hready := getGvmResource_ready h
  have hgrows := exec_grows hrun
  obtain ⟨new, hnew, hof⟩ := hgrows.accesses
  have hwithin (a : Access) : Within t a ↔ a.idx = 0 := by
    rw [Within, hgrows.allocated, hready.allocated]
    cases a.arr <;> simp only [elemSize] <;> omega
  constructor
  · intro hall
    by_contra hmany
    have hmem : Access.mk .ramdumpStartAddr 1 ∈ t.accesses := by
      rw [hnew, hready.accesses]
      refine List.mem_append_left _ (List.mem_flatMap.mpr ⟨1, ?_, List.mem_cons_self⟩)
      rw [List.mem_range]
      omega
    exact absurd ((hwithin _).mp (hall _ hmem)) Nat.one_ne_zero
  · intro hone a ha
    rw [hwithin]
    have hlt : (a.idx : Int) < ofCountPhandleWithArgs dev := by
      rw [hnew, hready.accesses] at ha
      obtain ha | ha := List.mem_append.mp ha
      · obtain ⟨idx, hidx, ha⟩ := List.mem_flatMap.mp ha
        have hi : a.idx = idx := by
          obtain rfl | rfl : a = ⟨.ramdumpStartAddr, idx⟩ ∨ a = ⟨.ramdumpSize, idx⟩ := by simpa using ha
          · rfl
          · rfl
        rw [← hi, List.mem_range] at hidx
        omega
      · exact hready.num ▸ hof a ha
    omega

/-- A device with regions of 1 MiB. -/
def deviceOf (n : Nat) : Device where
  vmid := some 45
  memoryRegion := some ((List.range n).map fun idx =>
    .node (some ⟨0x80000000 + BitVec.ofNat 64 idx * 0x100000, 0x800fffff + BitVec.ofNat 64 idx * 0x100000⟩))
  firmwareName := .ok "vm".toList

/-- The context that is read from a device with `n` regions. -/
def loaded (n : Nat) : GvmRamdumpCtx := (getGvmResource {} (deviceOf n) fun _ => true).2

theorem allWithin_iff_at : AllWithin (loaded 1).createFiles :=
  (allWithin_iff (rfl : getGvmResource {} (deviceOf 1) (fun _ => true) = (0, loaded 1))
    (rfl : exec GvmRamdumpCtx.step (loaded 1) [.createFiles] = some (loaded 1).createFiles)).mpr (by decide)

/-- With two regions, the second elements are not allocated. -/
theorem allWithin_wrong : getGvmResource {} (deviceOf 2) (fun _ => true) = (0, loaded 2) ∧ ¬ AllWithin (loaded 2) :=
  ⟨rfl, by decide⟩

/-! ## The files -/

theorem create_files {memCtx dir : Bool} {mem : Arr → Bool}
    (h : createGvmRamdumpDebugfs dev memCtx mem dir = (0, some c)) : ∃ s, Ready dev s ∧ c = s.createFiles := by
  have hnone (ret : Int) : (ret, (none : Option GvmRamdumpCtx)) ≠ (0, some c) := fun he => nomatch (Prod.mk.inj he).2
  simp only [createGvmRamdumpDebugfs] at h
  split at h
  · exact absurd h (hnone _)
  split at h
  · exact absurd h (hnone _)
  rename_i hret
  split at h
  · exact absurd h (hnone _)
  split at h
  · exact absurd h (hnone _)
  cases h
  exact ⟨_, getGvmResource_ready (Prod.ext (not_not.mp hret) rfl), rfl⟩

/-- The files of the regions come first. -/
theorem createFiles_name {files : List File} {f : File} (hdir : c.createFiles.gvmRamdumpDir = some files)
    (hidx : (idx : Int) < c.numMemRegions) (hfile : files[idx]? = some f) : f.name = ramdumpName idx := by
  have hlt : idx < c.numMemRegions.toNat := by omega
  cases hdir
  rw [List.getElem?_append_left (by rw [List.length_map, List.length_range]; exact hlt), List.getElem?_map,
    List.getElem?_range hlt] at hfile
  cases hfile
  rfl

/-- A file whose name has the number gives the region that the arrays have. -/
theorem dumpsRegion_of_id (h : HasRegion dev t idx) (hid : getRamdumpId file t.numMemRegions = idx) :
    DumpsRegion dev t file idx := by
  refine ⟨hid, fun res memremap mem req hres hmap hlock => ?_⟩
  obtain ⟨hstart, hsize⟩ := h res hres
  have hpos : ¬ (idx : Int) < 0 := by omega
  have hunlocked : ¬ t.lock = true := by
    rw [hlock]
    exact Bool.false_ne_true
  rw [← hstart, ← hsize] at hmap ⊢
  refine ⟨{ (t.setMapped idx (memremap (t.ramdumpStartAddr idx) (t.ramdumpSize idx))).touch
    [⟨.ramdumpStartAddr, idx⟩, ⟨.ramdumpSize, idx⟩, ⟨.mappedAddr, idx⟩, ⟨.mappedAddr, idx⟩] with lock := true }, ?_, ?_⟩
  · simp only [gvmDebugfsOpen, hid, if_neg hpos, if_neg hunlocked, Int.toNat_natCast, if_neg hmap]
  · simp only [gvmDebugfsRead, touch, setMapped, hid, if_neg hpos, Int.toNat_natCast, Function.update_self]

/-- The file of a region gives the region exactly if the region's number has one digit,
after all calls. -/
theorem dumpsRegion_iff {memCtx dir : Bool} {mem : Arr → Bool} {files : List File} {f : File} {ops : List Op}
    (before : Char) (h : createGvmRamdumpDebugfs dev memCtx mem dir = (0, some c)) (hdir : c.gvmRamdumpDir = some files)
    (hidx : (idx : Int) < c.numMemRegions) (hfile : files[idx]? = some f)
    (hrun : exec GvmRamdumpCtx.step c ops = some t) : DumpsRegion dev t ⟨before, f.name⟩ idx ↔ idx < 10 := by
  obtain ⟨s, hready, rfl⟩ := create_files h
  have hnum : s.createFiles.numMemRegions = s.numMemRegions := rfl
  have hgrows := createFiles_grows.trans (exec_grows hrun)
  rw [hnum] at hidx
  have hlt : (idx : Int) < t.numMemRegions := hgrows.num.symm ▸ hidx
  rw [createFiles_name hdir hidx hfile]
  constructor
  · intro hdumps
    exact (getRamdumpId_ramdumpName before hlt).mp hdumps.id
  · intro hone
    refine dumpsRegion_of_id (fun res hres => ?_) ((getRamdumpId_ramdumpName before hlt).mpr hone)
    rw [hgrows.start, hgrows.size]
    exact hready.regions idx hidx res hres

theorem dumpsRegion_iff_at : DumpsRegion (deviceOf 11) (loaded 11).createFiles ⟨'/', ramdumpName 9⟩ 9 :=
  (dumpsRegion_iff '/'
    (rfl : createGvmRamdumpDebugfs (deviceOf 11) true (fun _ => true) true = (0, some (loaded 11).createFiles))
    rfl (by decide : ((9 : Nat) : Int) < (loaded 11).createFiles.numMemRegions) rfl
    (rfl : exec GvmRamdumpCtx.step (loaded 11).createFiles [] = some (loaded 11).createFiles)).mpr (by decide)

/-- The file of region 10 is taken for that of region 0. -/
theorem dumpsRegion_wrong :
    createGvmRamdumpDebugfs (deviceOf 11) true (fun _ => true) true = (0, some (loaded 11).createFiles) ∧
      (loaded 11).createFiles.numMemRegions = 11 ∧ getRamdumpId ⟨'/', ramdumpName 10⟩ 11 = 0 ∧
      ¬ DumpsRegion (deviceOf 11) (loaded 11).createFiles ⟨'/', ramdumpName 10⟩ 10 := by
  have hid : getRamdumpId ⟨'/', ramdumpName 10⟩ 11 = 0 := by decide +kernel
  refine ⟨rfl, rfl, hid, fun h => ?_⟩
  have hten : getRamdumpId ⟨'/', ramdumpName 10⟩ 11 = (10 : Nat) := h.id
  rw [hid] at hten
  exact absurd hten (by decide)

end GH.Proof.GvmDump
