import Gunyah.Spec.Virq
import Mathlib.Data.List.Nodup

/-!
# The numbers of virtual interrupts

The range that `gh_get_virq` asks the IDR for starts at the base less
`IRQ_OFFSET`, but ends at `GIC_V3_SPI_MAX` itself, so the first number behind
those of the shared peripheral interrupts is `number 987`.

* `HandsOut`: what holds of the IDR and the numbers handed out, as long as a
  number is free whenever one is asked for;
* `get_right`, `get_wrong`: what `gh_get_virq` returns when a number is free
  and when none is;
* `put_right`: what is put back is the lowest free number again after some calls.
-/

namespace GH.Proof.Virq

open GH.Impl GH.Impl.Virq GH.Spec.Virq

variable {base : Int} {s t : Virqs} {ids : List Nat} {i : Nat}

/-- The number of an id. -/
def number (i : Nat) : Int := i + IRQ_OFFSET

/-- The lowest id that the driver may use. -/
def firstId (base : Int) : Nat := (base - IRQ_OFFSET).toNat

theorem number_injective : Function.Injective number := fun i j h => by
  unfold number at h
  omega

theorem le_number_iff (hb : 32 ≤ base) : base ≤ number i ↔ firstId base ≤ i := by
  simp only [number, firstId, IRQ_OFFSET]
  omega

theorem number_lt_iff : number i < GIC_V3_SPI_MAX ↔ i < 987 := by
  simp only [number, IRQ_OFFSET, GIC_V3_SPI_MAX]
  omega

/-- A number from the base on is that of an id. -/
theorem exists_number (hb : 32 ≤ base) {virq : Int} (h : base ≤ virq) : ∃ i, number i = virq :=
  ⟨(virq - IRQ_OFFSET).toNat, by simp only [number, IRQ_OFFSET]; omega⟩

/-- `gh_get_irq` expects the numbers of shared peripheral interrupts. -/
theorem inRange_number (hb : 32 ≤ base) (hlo : firstId base ≤ i) (hhi : i < 987) : InRange base (number i) := by
  refine ⟨(le_number_iff hb).mpr hlo, number_lt_iff.mpr hhi, ?_⟩
  have hnum : BitVec.ofInt 32 (number i) = BitVec.ofNat 32 (i + 32) := by
    rw [show number i = ((i + 32 : Nat) : Int) from by simp [number, IRQ_OFFSET], BitVec.ofInt_natCast]
  have hnat : (BitVec.ofNat 32 (i + 32)).toNat = i + 32 := by
    rw [BitVec.toNat_ofNat, Nat.mod_eq_of_lt (by omega)]
  have h32 : (BitVec.ofInt 32 IRQ_OFFSET).toNat = 32 := by decide
  have h1019 : (BitVec.ofInt 32 GIC_V3_SPI_MAX).toNat = 1019 := by decide
  simp only [ghGetIrq, hnum, decide_eq_false_iff_not, BitVec.lt_def, ge_iff_le, BitVec.le_def, hnat, h32, h1019]
  omega

/-! ## `gh_get_virq` -/

/-- `idr_alloc` gets a start that is not negative. -/
theorem start_nonneg (hb : 32 ≤ base) : ¬ base - IRQ_OFFSET < 0 := by
  simp only [IRQ_OFFSET]
  omega

theorem getVirq_some (hb : 32 ≤ base) (h : lowestFree ids (firstId base) 1019 = some i) :
    ghGetVirq ids base true = (number i, i :: ids) := by
  have hid : ¬ (i : Int) < 0 := by omega
  have hfree : lowestFree ids (base - IRQ_OFFSET).toNat (if GIC_V3_SPI_MAX > 0 then GIC_V3_SPI_MAX.toNat else 2 ^ 31) =
      some i := h
  simp only [ghGetVirq, idrAlloc, if_neg (start_nonneg hb), Bool.true_eq_false, if_false, hfree, if_neg hid, number]

theorem getVirq_none (hb : 32 ≤ base) (h : lowestFree ids (firstId base) 1019 = none) :
    ghGetVirq ids base true = (-ENOSPC, ids) := by
  have hfree : lowestFree ids (base - IRQ_OFFSET).toNat (if GIC_V3_SPI_MAX > 0 then GIC_V3_SPI_MAX.toNat else 2 ^ 31) =
      none := h
  have herr : (-ENOSPC : Int) < 0 := by decide
  simp only [ghGetVirq, idrAlloc, if_neg (start_nonneg hb), Bool.true_eq_false, if_false, hfree, if_pos herr]

/-- Without memory, no number. -/
theorem getVirq_noMem (hb : 32 ≤ base) : ghGetVirq ids base false = (-ENOMEM, ids) := by
  have herr : (-ENOMEM : Int) < 0 := by decide
  simp only [ghGetVirq, idrAlloc, if_neg (start_nonneg hb), if_true, if_pos herr]

/-- The ids in use after a call. -/
theorem getVirq_ids (hb : 32 ≤ base) : (ghGetVirq ids base true).2 = takeLowest (firstId base) 1019 ids := by
  cases h : lowestFree ids (firstId base) 1019 with
  | none => simp only [getVirq_none hb h, takeLowest, h, Option.toList_none, List.nil_append]
  | some i => simp only [getVirq_some hb h, takeLowest, h, Option.toList_some, List.singleton_append]

theorem exec_gets (hb : 32 ≤ base) (n : Nat) (s : Virqs) :
    ∃ t, exec (Virqs.step base) s (List.replicate n (.get true)) = some t ∧
      t.ids = (takeLowest (firstId base) 1019)^[n] s.ids := by
  induction n generalizing s with
  | zero => exact ⟨s, rfl, rfl⟩
  | succ n ih =>
    obtain ⟨t, ht, hids⟩ := ih { ids := (ghGetVirq s.ids base true).2, out := _ }
    rw [getVirq_ids hb] at hids
    exact ⟨t, ht, hids⟩

/-- A free id is handed out after some calls. -/
theorem handedOutAgain (hb : 32 ≤ base) (hlo : firstId base ≤ i) (hhi : i < 987) (hfree : i ∉ s.ids) :
    HandedOutAgain base s (number i) := by
  obtain ⟨n, hn⟩ := exists_lowestFree_takeLowest hlo (by omega : i < 1019) hfree
  obtain ⟨t, ht, hids⟩ := exec_gets hb n s
  refine ⟨n, t, ht, ?_⟩
  rw [getVirq_some hb (hids ▸ hn)]

/-! ## The IDR and the numbers handed out -/

/-- The ids in use are those of the numbers handed out. -/
structure HandsOut (base : Int) (s : Virqs) : Prop where
  out : s.out = s.ids.map number
  nodup : s.ids.Nodup
  first : ∀ i ∈ s.ids, firstId base ≤ i
  last : ∀ i ∈ s.ids, i < 987

namespace HandsOut

theorem start : HandsOut base {} :=
  ⟨rfl, List.nodup_nil, fun _ h => absurd h List.not_mem_nil, fun _ h => absurd h List.not_mem_nil⟩

theorem number_mem (h : HandsOut base s) : number i ∈ s.out ↔ i ∈ s.ids := by
  rw [h.out, List.mem_map_of_injective number_injective]

theorem cons (h : HandsOut base s) (hlo : firstId base ≤ i) (hhi : i < 987) (hfree : i ∉ s.ids) :
    HandsOut base { ids := i :: s.ids, out := number i :: s.out } where
  out := by rw [h.out, List.map_cons]
  nodup := List.nodup_cons.mpr ⟨hfree, h.nodup⟩
  first := List.forall_mem_cons.mpr ⟨hlo, h.first⟩
  last := List.forall_mem_cons.mpr ⟨hhi, h.last⟩

theorem erase (h : HandsOut base s) : HandsOut base { ids := s.ids.erase i, out := s.out.erase (number i) } where
  out := by rw [h.out, List.map_erase number_injective]
  nodup := h.nodup.erase i
  first := fun j hj => h.first j (List.mem_of_mem_erase hj)
  last := fun j hj => h.last j (List.mem_of_mem_erase hj)

/-- A free number is the number of an id that is free. -/
theorem lowest (h : HandsOut base s) (hb : 32 ≤ base)
    (hfree : ∃ virq, base ≤ virq ∧ virq < GIC_V3_SPI_MAX ∧ virq ∉ s.out) :
    ∃ i, lowestFree s.ids (firstId base) 1019 = some i ∧ firstId base ≤ i ∧ i < 987 ∧ i ∉ s.ids := by
  obtain ⟨virq, hle, hlt, hnot⟩ := hfree
  obtain ⟨j, rfl⟩ := exists_number hb hle
  rw [h.number_mem] at hnot
  rw [le_number_iff hb] at hle
  rw [number_lt_iff] at hlt
  cases hlow : lowestFree s.ids (firstId base) 1019 with
  | none => exact absurd (lowestFree_none_iff.mp hlow j hle (by omega)) hnot
  | some i =>
    obtain ⟨hlo, -, hi, hbelow⟩ := lowestFree_some_iff.mp hlow
    have hij : i ≤ j := by
      by_contra hji
      exact hnot (hbelow j hle (by omega))
    exact ⟨i, rfl, hlo, by omega, hi⟩

/-- Where no number is free, the next id is the first behind the range. -/
theorem none_free (h : HandsOut base s) (hb : 32 ≤ base) (hb' : base < GIC_V3_SPI_MAX)
    (hnone : ¬ ∃ virq, base ≤ virq ∧ virq < GIC_V3_SPI_MAX ∧ virq ∉ s.out) :
    lowestFree s.ids (firstId base) 1019 = some 987 := by
  rw [lowestFree_some_iff]
  refine ⟨?_, by decide, fun hmem => absurd (h.last 987 hmem) (lt_irrefl _), fun j hlo hhi => ?_⟩
  · simp only [GIC_V3_SPI_MAX] at hb'
    simp only [firstId, IRQ_OFFSET]
    omega
  · by_contra hj
    exact hnone ⟨number j, (le_number_iff hb).mpr hlo, number_lt_iff.mpr hhi, fun hmem => hj (h.number_mem.mp hmem)⟩

end HandsOut

/-! ## One call -/

theorem number_nonneg : ¬ number i < 0 := by
  simp only [number, IRQ_OFFSET]
  omega

/-- While a number is free, the number returned is in range and new. -/
theorem get_right (h : HandsOut base s) (hb : 32 ≤ base) {mem : Bool} (hs : Virqs.step base s (.get mem) = some t)
    (hfree : HasFree base s (.get mem) t) : HandsOut base t ∧ StepRight base s (.get mem) t := by
  simp only [Virqs.step, Option.some.injEq] at hs
  subst hs
  cases mem with
  | false =>
    have herr : (-ENOMEM : Int) < 0 := by decide
    simp only [StepRight, getVirq_noMem hb, if_pos herr]
    exact ⟨h, fun hnonneg => absurd hnonneg (by decide)⟩
  | true =>
    obtain ⟨i, hlow, hlo, hhi, hnew⟩ := h.lowest hb (hfree rfl)
    simp only [StepRight, getVirq_some hb hlow, if_neg number_nonneg]
    exact ⟨h.cons hlo hhi hnew, fun _ => ⟨inRange_number hb hlo hhi, fun hmem => hnew (h.number_mem.mp hmem)⟩⟩

/-- With none free, the number returned is not one of a shared peripheral interrupt. -/
theorem get_wrong (h : HandsOut base s) (hb : 32 ≤ base) (hb' : base < GIC_V3_SPI_MAX)
    (hnone : ¬ ∃ virq, base ≤ virq ∧ virq < GIC_V3_SPI_MAX ∧ virq ∉ s.out) : ¬ StepRight base s (.get true) t := by
  intro hright
  simp only [StepRight, getVirq_some hb (h.none_free hb hb' hnone)] at hright
  have hin := (hright (by decide)).1.spi
  exact absurd (number_lt_iff.mp hin) (lt_irrefl _)

theorem putVirq_mem (hmem : i ∈ ids) : (ghPutVirq ids (number i)).2 = ids.erase i := by
  have hfind : idrFind ids (number i - IRQ_OFFSET) = true := by
    simpa [idrFind, number] using hmem
  rw [ghPutVirq, if_pos hfind]
  simp [idrRemove, number]

/-- A number that is not handed out is not one of the IDR. -/
theorem putVirq_notMem (h : HandsOut base s) {virq : Int} (hnot : virq ∉ s.out) : (ghPutVirq s.ids virq).2 = s.ids := by
  have hfind : ¬ idrFind s.ids (virq - IRQ_OFFSET) = true := by
    simp only [idrFind, decide_eq_true_eq]
    rintro ⟨hnonneg, hmem⟩
    have hnum : number (virq - IRQ_OFFSET).toNat = virq := by
      simp only [number]
      omega
    exact hnot (hnum ▸ h.number_mem.mpr hmem)
  rw [ghPutVirq, if_neg hfind]

theorem put_right (h : HandsOut base s) (hb : 32 ≤ base) {virq : Int} (hs : Virqs.step base s (.put virq) = some t) :
    HandsOut base t ∧ StepRight base s (.put virq) t := by
  simp only [Virqs.step, Option.some.injEq] at hs
  subst hs
  by_cases hout : virq ∈ s.out
  · obtain ⟨i, hi, rfl⟩ := List.mem_map.mp (h.out ▸ hout)
    have hnew : i ∉ s.ids.erase i := h.nodup.not_mem_erase
    rw [putVirq_mem hi]
    have hnext := h.erase (i := i)
    exact ⟨hnext, fun _ => ⟨fun hmem => hnew (hnext.number_mem.mp hmem),
      handedOutAgain hb (h.first i hi) (h.last i hi) hnew⟩⟩
  · rw [putVirq_notMem h hout, List.erase_of_not_mem hout]
    exact ⟨h, fun hmem => absurd hmem hout⟩

/-! ## All calls -/

theorem handsOut_step (hb : 32 ≤ base) (s : Virqs) (op : Op) (t : Virqs) (h : HandsOut base s)
    (hs : Virqs.step base s op = some t) (hfree : HasFree base s op t) : HandsOut base t := by
  cases op with
  | get mem => exact (get_right h hb hs hfree).1
  | put virq => exact (put_right h hb hs).1

theorem stepRight_iff (hb : 32 ≤ base) (hb' : base < GIC_V3_SPI_MAX) (s : Virqs) (op : Op) (t : Virqs)
    (h : HandsOut base s) (hs : Virqs.step base s op = some t) : StepRight base s op t ↔ HasFree base s op t := by
  cases op with
  | get mem =>
    refine ⟨fun hright hmem => ?_, fun hfree => (get_right h hb hs hfree).2⟩
    subst hmem
    by_contra hnone
    exact get_wrong h hb hb' hnone hright
  | put virq => exact ⟨fun _ => trivial, fun _ => (put_right h hb hs).2⟩

/-- In every sequence of calls, the numbers handed out are right exactly if a
number is free whenever one is asked for. -/
theorem virqs_right_iff (hb : 32 ≤ base) (hb' : base < GIC_V3_SPI_MAX) (ops : List Op) :
    Each (Virqs.step base) (StepRight base) {} ops ↔ Each (Virqs.step base) (HasFree base) {} ops :=
  each_iff (handsOut_step hb) (stepRight_iff hb hb') HandsOut.start

theorem virqs_right_iff_at :
    Each (Virqs.step 1017) (StepRight 1017) {} [.get true, .put 1017, .get true, .get true] := by
  refine (virqs_right_iff (by decide) (by decide) _).mpr ?_
  refine each_cons.mpr fun s hs => ⟨fun _ => ⟨1017, by decide, by decide, by decide⟩, ?_⟩
  cases hs
  refine each_cons.mpr fun s hs => ⟨trivial, ?_⟩
  cases hs
  refine each_cons.mpr fun s hs => ⟨fun _ => ⟨1017, by decide, by decide, by decide⟩, ?_⟩
  cases hs
  exact each_cons.mpr fun s hs => ⟨fun _ => ⟨1018, by decide, by decide, by decide⟩, each_nil _ _⟩

/-- The last number is handed out, and then the one behind it. -/
theorem virqs_wrong : ¬ Each (Virqs.step 1018) (StepRight 1018) {} [.get true, .get true] := by
  intro h
  have hright := h [.get true] (.get true) [] { ids := [986], out := [1018] } { ids := [987, 986], out := [1019, 1018] }
    rfl (by decide) (by decide)
  have hin := (hright (by decide)).1.spi
  exact absurd hin (by decide)

end GH.Proof.Virq
