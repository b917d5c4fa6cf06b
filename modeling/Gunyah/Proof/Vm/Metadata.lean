import Mathlib.Data.List.Induction
import Gunyah.Spec.Vm.Metadata

/-!
# The place of the metadata

The loop over the program headers keeps the end of the first of those with the
largest address (`gathered`), so the metadata is copied exactly if it fits and
that end is not behind its start (`placeMetadata_eq`). From this it follows when
the metadata keeps clear of all segments (`never_overlaps_iff`).
-/

namespace GH.Proof.Metadata

open GH.Impl GH.Impl.Vm GH.Spec.Metadata

variable {r : FwMem} {md : Metadata} {stack : BitVec 64}

/-! ## The loop -/

/-- A turn of the loop, which finds no overflow: both numbers have 32 bits. -/
def turn (m : Image) (p : Phdr) : Image :=
  { m with
    relocatable := m.relocatable || decide (p.flags &&& QCOM_MDT_RELOCATABLE ≠ 0)
    endAddr := if p.paddr > m.maxPaddr then (p.paddr + p.memsz).zeroExtend 64 else m.endAddr
    maxPaddr := if p.paddr > m.maxPaddr then p.paddr else m.maxPaddr
    size := m.size + p.memsz.zeroExtend 64 }

/-- `U64_MAX - x`. -/
theorem toNat_allOnes_sub (x : BitVec 64) : (BitVec.allOnes 64 - x).toNat = 2 ^ 64 - 1 - x.toNat := by
  rw [BitVec.toNat_sub, BitVec.toNat_allOnes]
  omega

theorem not_overflow (p : Phdr) : ¬ p.memsz.zeroExtend 64 > BitVec.allOnes 64 - p.paddr.zeroExtend 64 := by
  rw [gt_iff_lt, BitVec.lt_def, toNat_allOnes_sub, BitVec.toNat_setWidth_of_le (by omega),
    BitVec.toNat_setWidth_of_le (by omega)]
  omega

theorem add_eq (m : Image) (p : Phdr) : m.add p = some (turn m p) := by
  unfold Image.add turn
  simp only
  by_cases h : p.paddr > m.maxPaddr
  · rw [if_pos h, if_neg (not_overflow p), if_pos h, if_pos h]
  · rw [if_neg h, if_neg h, if_neg h]

theorem foldlM_add (l : List Phdr) (m : Image) : l.foldlM Image.add m = some (l.foldl turn m) := by
  induction l generalizing m with
  | nil => rfl
  | cons p l ih =>
    rw [List.foldlM_cons, add_eq, List.foldl_cons]
    exact ih (turn m p)

/-- What the loop has gathered. -/
structure Gathered (stack : BitVec 64) (l : List Phdr) (m : Image) : Prop where
  relocatable : m.relocatable = true ↔ ∃ p ∈ l, p.flags &&& QCOM_MDT_RELOCATABLE ≠ 0
  le (p : Phdr) : p ∈ l → p.paddr ≤ m.maxPaddr
  endAddr : (m.maxPaddr = 0 ∧ m.endAddr = stack) ∨
    ∃ t, IsTop l t ∧ t.paddr = m.maxPaddr ∧ m.endAddr = (t.paddr + t.memsz).zeroExtend 64
  size : m.size.toNat = (l.map fun p => p.memsz.toNat).sum % 2 ^ 64

theorem isTop_concat_le {l : List Phdr} {t p : Phdr} (h : IsTop l t) (hp : p.paddr ≤ t.paddr) :
    IsTop (l ++ [p]) t := by
  obtain ⟨h0, a, b, rfl, ha, hb⟩ := h
  refine ⟨h0, a, b ++ [p], by simp, ha, fun q hq => ?_⟩
  rcases List.mem_append.mp hq with hq | hq
  · exact hb q hq
  · rw [List.mem_singleton.mp hq]
    exact hp

theorem isTop_concat_new {l : List Phdr} {p : Phdr} {m : BitVec 32} (hle : ∀ q ∈ l, q.paddr ≤ m) (hp : m < p.paddr) :
    IsTop (l ++ [p]) p := by
  refine ⟨fun h0 => ?_, l, [], rfl, fun q hq => ?_, fun q hq => absurd hq List.not_mem_nil⟩
  · rw [h0] at hp
    exact absurd hp (by simp)
  · exact Nat.lt_of_le_of_lt (hle q hq) hp

theorem gathered (stack : BitVec 64) (l : List Phdr) : Gathered stack l (l.foldl turn { endAddr := stack }) := by
  induction l using List.reverseRecOn with
  | nil => exact ⟨by simp, fun p hp => absurd hp List.not_mem_nil, .inl ⟨rfl, rfl⟩, rfl⟩
  | append_singleton l p ih =>
    rw [List.foldl_append, List.foldl_cons, List.foldl_nil]
    generalize l.foldl turn { endAddr := stack } = m at ih
    obtain ⟨hreloc, hle, hend, hsize⟩ := ih
    refine ⟨?_, fun q hq => ?_, ?_, ?_⟩
    · simp only [turn, Bool.or_eq_true, hreloc, decide_eq_true_eq]
      simp only [List.mem_append, List.mem_singleton, or_and_right, exists_or, exists_eq_left]
    · show q.paddr ≤ if p.paddr > m.maxPaddr then p.paddr else m.maxPaddr
      rcases List.mem_append.mp hq with hq | hq
      · have h := hle q hq
        split <;> bv_omega
      · rw [List.mem_singleton.mp hq]
        split <;> bv_omega
    · by_cases hp : p.paddr > m.maxPaddr
      · refine .inr ⟨p, isTop_concat_new hle hp, ?_, ?_⟩
        · exact (if_pos hp).symm
        · exact if_pos hp
      · rw [show (turn m p).maxPaddr = m.maxPaddr from if_neg hp, show (turn m p).endAddr = m.endAddr from if_neg hp]
        rcases hend with hend | ⟨t, ht, hmax, hend⟩
        · exact .inl hend
        · exact .inr ⟨t, isTop_concat_le ht (by bv_omega), hmax, hend⟩
    · show (m.size + p.memsz.zeroExtend 64).toNat = _
      rw [BitVec.toNat_add, hsize, BitVec.toNat_setWidth_of_le (by omega), List.map_append, List.sum_append]
      simp

/-! ## The checks -/

theorem imageSize_lt (hn : md.phdrs.length < 2 ^ 16) : imageSize md < 2 ^ 48 := by
  have hsum : ∀ l : List Phdr, (l.map fun p => p.memsz.toNat).sum ≤ l.length * (2 ^ 32 - 1) := by
    intro l
    induction l with
    | nil => exact le_rfl
    | cons p l ih =>
      rw [List.map_cons, List.sum_cons, List.length_cons]
      have := p.memsz.isLt
      omega
  have := hsum md.phdrs
  unfold imageSize
  omega

theorem toNat_pageRoundUp (x : BitVec 64) (hx : x.toNat + 4095 < 2 ^ 64) : (pageRoundUp x).toNat = roundUp x.toNat := by
  have hmul : (x.toNat + 4095) / 4096 * 4096 < 2 ^ 64 := by omega
  have hadd : (x + (PAGE_SIZE - 1)).toNat = x.toNat + 4095 := by
    rw [BitVec.toNat_add, show (PAGE_SIZE - 1).toNat = 4095 from rfl, Nat.mod_eq_of_lt hx]
  unfold pageRoundUp roundUp
  rw [BitVec.toNat_mul, BitVec.toNat_udiv, hadd, show PAGE_SIZE.toNat = 4096 from rfl, Nat.mod_eq_of_lt hmul]

/-- Rounding that wraps is found: the result is smaller than what is rounded. -/
theorem pageRoundUp_lt_iff (x : BitVec 64) : pageRoundUp x < x ↔ 2 ^ 64 ≤ x.toNat + 4095 := by
  by_cases hx : x.toNat + 4095 < 2 ^ 64
  · rw [BitVec.lt_def, toNat_pageRoundUp x hx]
    unfold roundUp
    omega
  · have hadd : (x + (PAGE_SIZE - 1)).toNat < 4096 := by
      rw [BitVec.toNat_add, show (PAGE_SIZE - 1).toNat = 4095 from rfl]
      have := x.isLt
      omega
    have hzero : (pageRoundUp x).toNat = 0 := by
      unfold pageRoundUp
      rw [BitVec.toNat_mul, BitVec.toNat_udiv, show PAGE_SIZE.toNat = 4096 from rfl, Nat.div_eq_of_lt hadd]
    rw [BitVec.lt_def, hzero]
    omega

/-- What the loop leaves in `image_end_addr`. -/
def endAddr (md : Metadata) (stack : BitVec 64) : BitVec 64 := (md.phdrs.foldl turn { endAddr := stack }).endAddr

theorem sizes_refused_iff {size mdata total : BitVec 64} :
    size > BitVec.allOnes 64 - mdata ∨ total < size + mdata ↔ ¬ size.toNat + mdata.toNat ≤ total.toNat := by
  have hsum := BitVec.toNat_add size mdata
  have hrest := toNat_allOnes_sub mdata
  rw [gt_iff_lt, BitVec.lt_def, BitVec.lt_def, hsum, hrest]
  omega

theorem places_refused_iff {total mdata start virt : BitVec 64} (h : mdata.toNat ≤ total.toNat) :
    total - mdata > total ∨ start > BitVec.allOnes 64 - (total - mdata) ∨ virt > BitVec.allOnes 64 - (total - mdata) ↔
      ¬ (start.toNat + (total.toNat - mdata.toNat) < 2 ^ 64 ∧ virt.toNat + (total.toNat - mdata.toNat) < 2 ^ 64) := by
  have hoff : (total - mdata).toNat = total.toNat - mdata.toNat := BitVec.toNat_sub_of_le h
  rw [gt_iff_lt, gt_iff_lt, gt_iff_lt, BitVec.lt_def, BitVec.lt_def, BitVec.lt_def, toNat_allOnes_sub, hoff]
  omega

theorem toNat_size (hn : md.phdrs.length < 2 ^ 16) :
    (md.phdrs.foldl turn { endAddr := stack }).size.toNat = imageSize md :=
  (gathered stack md.phdrs).size.trans (Nat.mod_eq_of_lt (Nat.lt_trans (imageSize_lt hn) (by decide)))

theorem toNat_start :
    (if (md.phdrs.foldl turn { endAddr := stack }).relocatable then (0 : BitVec 64) else r.phys).toNat =
      startAddr r md := by
  unfold startAddr Relocatable
  rw [apply_ite BitVec.toNat]
  exact if_congr (gathered stack md.phdrs).relocatable rfl rfl

/-- The part of the code after the checks of the sizes. -/
theorem put_iff {total mdata start virt last off : BitVec 64} (h : mdata.toNat ≤ total.toNat) :
    (if total - mdata > total ∨ start > BitVec.allOnes 64 - (total - mdata) ∨
        virt > BitVec.allOnes 64 - (total - mdata) then none
      else if last ≤ start + (total - mdata) then some (total - mdata)
      else none) = some off ↔
      start.toNat + (total.toNat - mdata.toNat) < 2 ^ 64 ∧ virt.toNat + (total.toNat - mdata.toNat) < 2 ^ 64 ∧
        last.toNat ≤ start.toNat + (total.toNat - mdata.toNat) ∧ off.toNat = total.toNat - mdata.toNat := by
  have hoff : (total - mdata).toNat = total.toNat - mdata.toNat := BitVec.toNat_sub_of_le h
  by_cases hplaces : start.toNat + (total.toNat - mdata.toNat) < 2 ^ 64 ∧ virt.toNat + (total.toNat - mdata.toNat) < 2 ^ 64
  case neg =>
    rw [if_pos ((places_refused_iff h).mpr hplaces)]
    exact ⟨(fun h => nomatch h), fun h => absurd ⟨h.1, h.2.1⟩ hplaces⟩
  have hsum : (start + (total - mdata)).toNat = start.toNat + (total.toNat - mdata.toNat) := by
    rw [BitVec.toNat_add, hoff, Nat.mod_eq_of_lt hplaces.1]
  rw [if_neg (fun h' => (places_refused_iff h).mp h' hplaces)]
  split
  all_goals rename_i hlast; rw [BitVec.le_def, hsum] at hlast
  case isTrue =>
    rw [Option.some.injEq, ← BitVec.toNat_inj, hoff]
    exact ⟨fun he => ⟨hplaces.1, hplaces.2, hlast, he.symm⟩, fun h => h.2.2.2.symm⟩
  case isFalse => exact ⟨(fun h => nomatch h), fun h => absurd h.2.2.1 hlast⟩

/-- The metadata is put at its place if it fits and `image_end_addr` is not behind it. -/
theorem placeMetadata_eq (hn : md.phdrs.length < 2 ^ 16) (off : BitVec 64) :
    placeMetadata r md stack = some off ↔
      Fits r md ∧ (endAddr md stack).toNat ≤ startAddr r md + offset r md ∧ off.toNat = offset r md := by
  unfold placeMetadata
  rw [foldlM_add]
  by_cases hround : md.size.toNat + 4095 < 2 ^ 64
  case neg =>
    rw [if_pos ((pageRoundUp_lt_iff _).mpr (by omega))]
    exact ⟨(fun h => nomatch h), fun h => absurd h.1.round hround⟩
  have hmdata := toNat_pageRoundUp md.size hround
  rw [if_neg (by rw [pageRoundUp_lt_iff]; omega)]
  simp only [sizes_refused_iff, toNat_size hn, hmdata]
  by_cases hfit : imageSize md + roundUp md.size.toNat ≤ r.size.toNat
  case neg =>
    rw [if_pos hfit]
    exact ⟨(fun h => nomatch h), fun h => absurd h.1.size hfit⟩
  rw [if_neg (not_not_intro hfit), put_iff (by omega), toNat_start, hmdata]
  exact ⟨fun ⟨hs, hv, hlast, hoff⟩ => ⟨⟨hround, hfit, hs, hv⟩, hlast, hoff⟩,
    fun ⟨hfits, hlast, hoff⟩ => ⟨hfits.start, hfits.virt, hlast, hoff⟩⟩

/-! ## The image -/

theorem fits_offset (h : Fits r md) : offset r md + roundUp md.size.toNat = r.size.toNat := by
  have := h.size
  unfold offset
  omega

theorem toNat_offset : (BitVec.ofNat 64 (offset r md)).toNat = offset r md := by
  rw [BitVec.toNat_ofNat]
  exact Nat.mod_eq_of_lt (Nat.lt_of_le_of_lt (Nat.sub_le _ _) r.size.isLt)

theorem load_of_ne_zero (hn : md.phdrs.length < 2 ^ 16) (h : ghSecLoadMetadata r md stack ≠ 0) :
    Fits r md ∧ (endAddr md stack).toNat ≤ startAddr r md + offset r md ∧
      (ghSecLoadMetadata r md stack).toNat = offset r md := by
  unfold ghSecLoadMetadata at h ⊢
  cases hp : placeMetadata r md stack with
  | none =>
    rw [hp] at h
    exact absurd rfl h
  | some off => exact (placeMetadata_eq hn off).mp hp

theorem load_eq (hn : md.phdrs.length < 2 ^ 16) (hfits : Fits r md)
    (hlast : (endAddr md stack).toNat ≤ startAddr r md + offset r md) :
    (ghSecLoadMetadata r md stack).toNat = offset r md := by
  unfold ghSecLoadMetadata
  rw [(placeMetadata_eq hn (BitVec.ofNat 64 (offset r md))).mpr ⟨hfits, hlast, toNat_offset⟩]
  exact toNat_offset

/-! ## The top -/

theorem not_isTop_behind {a b c d : List Phdr} {t u : Phdr} (ht : ∀ p ∈ b, p.paddr ≤ t.paddr)
    (hu : ∀ p ∈ c, p.paddr < u.paddr) (h : a ++ t :: b = c ++ u :: d) (hlt : a.length < c.length) : False := by
  have htc : t ∈ c := by
    have hget := congrArg (fun l => l[a.length]?) h
    simp only [List.getElem?_append_right le_rfl, Nat.sub_self, List.getElem?_cons_zero,
      List.getElem?_append_left hlt] at hget
    exact List.mem_of_getElem? hget.symm
  have hub : u ∈ b := by
    have hget := congrArg (fun l => l[c.length]?) h
    simp only [List.getElem?_append_right le_rfl, Nat.sub_self, List.getElem?_cons_zero,
      List.getElem?_append_right (Nat.le_of_lt hlt)] at hget
    rw [List.getElem?_cons, if_neg (by omega)] at hget
    exact List.mem_of_getElem? hget
  have h1 := hu t htc
  have h2 := ht u hub
  bv_omega

theorem isTop_unique {l : List Phdr} {t u : Phdr} (ht : IsTop l t) (hu : IsTop l u) : t = u := by
  obtain ⟨-, a, b, rfl, ha, hb⟩ := ht
  obtain ⟨-, c, d, heq, hc, hd⟩ := hu
  rcases Nat.lt_trichotomy a.length c.length with hlt | he | hlt
  · exact (not_isTop_behind hb hc heq hlt).elim
  · exact (List.cons.inj (List.append_inj heq he).2).1
  · exact (not_isTop_behind hd ha heq.symm hlt).elim

theorem endAddr_of_top {t : Phdr} (ht : IsTop md.phdrs t) (stack : BitVec 64) :
    (endAddr md stack).toNat = end32 t := by
  obtain ⟨-, hle, hend, -⟩ := gathered stack md.phdrs
  rcases hend with ⟨hzero, -⟩ | ⟨u, hu, -, hend⟩
  · obtain ⟨h0, a, b, heq, -, -⟩ := ht
    have := hle t (by rw [heq]; simp)
    rw [hzero] at this
    bv_omega
  · rw [isTop_unique ht hu]
    exact (congrArg BitVec.toNat hend).trans (BitVec.toNat_setWidth_of_le (by omega))

theorem endAddr_of_zero (h : ∀ p ∈ md.phdrs, p.paddr = 0) (stack : BitVec 64) : endAddr md stack = stack := by
  rcases (gathered stack md.phdrs).endAddr with hend | ⟨u, ⟨h0, a, b, heq, -, -⟩, -⟩
  · exact hend.2
  · exact absurd (h u (by rw [heq]; simp)) h0

theorem exists_isTop (h : ∃ p ∈ md.phdrs, p.paddr ≠ 0) : ∃ t, IsTop md.phdrs t := by
  obtain ⟨p, hp, h0⟩ := h
  obtain ⟨-, hle, ⟨hzero, -⟩ | ⟨u, hu, -⟩, -⟩ := gathered 0 md.phdrs
  · have := hle p hp
    rw [hzero] at this
    bv_omega
  · exact ⟨u, hu⟩

/-! ## No overlap -/

theorem neverOverlaps_iff (hn : md.phdrs.length < 2 ^ 16) :
    NeverOverlaps r md ↔ ∀ stack, Fits r md → (endAddr md stack).toNat ≤ startAddr r md + offset r md →
      offset r md ≠ 0 → ∀ p ∈ md.phdrs, ¬ Overlaps r md (offset r md) p := by
  constructor
  · intro h stack hfits hlast h0 p hp
    have heq := load_eq hn hfits hlast
    have hne : ghSecLoadMetadata r md stack ≠ 0 := fun hz => h0 (by rw [← heq, hz]; rfl)
    have := h stack hne p hp
    rwa [heq] at this
  · intro h stack hne p hp
    obtain ⟨hfits, hlast, heq⟩ := load_of_ne_zero hn hne
    rw [heq]
    refine h stack hfits hlast (fun h0 => hne ?_) p hp
    rw [← BitVec.toNat_inj, heq, h0]
    rfl

theorem ignoresStack_iff (hn : md.phdrs.length < 2 ^ 16) :
    IgnoresStack r md ↔ ∀ s s', Fits r md → (endAddr md s).toNat ≤ startAddr r md + offset r md →
      (endAddr md s').toNat ≤ startAddr r md + offset r md := by
  constructor
  · intro h s s' hfits hlast
    have hput := (placeMetadata_eq hn (BitVec.ofNat 64 (offset r md))).mpr ⟨hfits, hlast, toNat_offset⟩
    rw [h s s'] at hput
    exact ((placeMetadata_eq hn _).mp hput).2.1
  · intro h s s'
    refine Option.ext fun off => ?_
    rw [placeMetadata_eq hn, placeMetadata_eq hn]
    exact ⟨fun ⟨hf, hl, ho⟩ => ⟨hf, h s s' hf hl, ho⟩, fun ⟨hf, hl, ho⟩ => ⟨hf, h s' s hf hl, ho⟩⟩

/-- The metadata keeps clear of the image, whatever is on the stack, if and only
if the header that the loop takes for the last one says so. -/
theorem never_overlaps_iff (hn : md.phdrs.length < 2 ^ 16) :
    NeverOverlaps r md ∧ IgnoresStack r md ↔ TopEndsLast r md := by
  rw [neverOverlaps_iff hn, ignoresStack_iff hn]
  by_cases hpaddr : ∃ p ∈ md.phdrs, p.paddr ≠ 0
  case pos =>
    obtain ⟨t, ht⟩ := exists_isTop hpaddr
    simp only [endAddr_of_top ht]
    constructor
    · rintro ⟨hnever, -⟩ hfits
      refine ⟨.inl hpaddr, fun h0 ⟨p, hp, hover⟩ => ⟨t, ht, ?_⟩⟩
      by_contra hlast
      exact hnever 0 hfits (Nat.le_of_not_lt hlast) h0 p hp hover
    · intro h
      refine ⟨fun _ hfits hlast h0 p hp hover => ?_, fun _ _ _ hlast => hlast⟩
      obtain ⟨u, hu, hlt⟩ := (h hfits).2 h0 ⟨p, hp, hover⟩
      rw [isTop_unique hu ht] at hlt
      exact Nat.not_le_of_lt hlt hlast
  case neg =>
    push Not at hpaddr
    simp only [endAddr_of_zero hpaddr]
    have hnotop : ¬ ∃ t, IsTop md.phdrs t := fun ⟨t, h0, a, b, heq, _⟩ => h0 (hpaddr t (by rw [heq]; simp))
    constructor
    · rintro ⟨hnever, hstack⟩ hfits
      have hfull := hstack 0 (BitVec.allOnes 64) hfits (Nat.zero_le _)
      rw [BitVec.toNat_allOnes] at hfull
      have := hfits.start
      exact ⟨.inr (by omega), fun h0 ⟨p, hp, hover⟩ => (hnever 0 hfits (Nat.zero_le _) h0 p hp hover).elim⟩
    · intro h
      refine ⟨fun _ hfits _ h0 p hp hover => ?_, fun _ s' hfits _ => ?_⟩
      · obtain ⟨t, ht, -⟩ := (h hfits).2 h0 ⟨p, hp, hover⟩
        exact hnotop ⟨t, ht⟩
      · rcases (h hfits).1 with ⟨p, hp, h0⟩ | hfull
        · exact absurd (hpaddr p hp) h0
        · have := s'.isLt
          omega

/-- A region of five pages, and metadata of one. -/
def fivePages : FwMem := { phys := 0x80000000, virt := 0xffffff8010000000, size := 0x5000, isStatic := false }

/-- The second segment follows the first. -/
def twoSegments : Metadata :=
  { phdrs := [{ flags := 0, paddr := 0x80000000, memsz := 0x1000 }, { flags := 0, paddr := 0x80001000, memsz := 0x3000 }],
    size := 0x1000 }

theorem twoSegments_clear : NeverOverlaps fivePages twoSegments ∧ IgnoresStack fivePages twoSegments := by
  refine (never_overlaps_iff (by decide)).mpr fun _ => ⟨.inl (by decide), fun _ ⟨p, hp, x, hx⟩ => ?_⟩
  have hends : ∀ p ∈ twoSegments.phdrs, (p.paddr.toNat : Int) + p.memsz.toNat ≤ 0x80004000 := by decide
  have hend := hends p hp
  have horigin : origin fivePages twoSegments = 0x80000000 := by decide
  have hoffset : offset fivePages twoSegments = 0x4000 := by decide
  obtain ⟨-, hlt, hge, -⟩ := hx
  rw [horigin] at hlt
  rw [hoffset] at hge
  omega

/-- The second segment starts before the first one and ends behind it. -/
def nested : Metadata :=
  { phdrs := [{ flags := 0, paddr := 0x80001000, memsz := 0x10 }, { flags := 0, paddr := 0x80000800, memsz := 0x3ff0 }],
    size := 0x1000 }

/-- The metadata is copied to 0x4000, and the second segment is loaded up to 0x47f0. -/
theorem nested_overlaps : ¬ ∀ r md, md.phdrs.length < 2 ^ 16 → NeverOverlaps r md ∧ IgnoresStack r md := by
  intro h
  refine (h fivePages nested (by decide)).1 0 (by decide) { flags := 0, paddr := 0x80000800, memsz := 0x3ff0 }
    (.tail _ (.head _)) ?_
  exact ⟨0x4000, by decide, by decide, by decide, by decide⟩

end GH.Proof.Metadata
