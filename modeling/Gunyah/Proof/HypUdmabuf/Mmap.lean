import Gunyah.Proof.HypUdmabuf.Create

/-!
# Mapping a dma-buf

The loop of `hyp_udmabuf_mmap` is at an offset of the VMA (`At`), which the pages
of a region are mapped from (`maps_right`, `maps_every`). It fails at a region
with bytes that it comes to at the end of the VMA (`loop_succeeds_iff`). It does
not know `vm_pgoff`, so a mapping is right if and only if it is of the start of
the dma-buf and each region starts before its end (`maps_right_iff`).
-/

namespace GH.Proof.HypUdmabuf

open GH.Impl GH.Impl.HypUdmabuf GH.Spec.HypUdmabuf

variable {list rest : List GuestMemRegion} {r : GuestMemRegion} {vma : Vma} {start len : BitVec 64} {off : Nat}
variable {remap : Nat → Int} {i : Nat}

/-! ## A turn of the loop -/

/-- The loop is at an offset of the VMA. -/
structure At (vma : Vma) (off : Nat) (start : BitVec 64) : Prop where
  pos : start.toNat = vma.vmStart.toNat + off
  stop : start.toNat + (Vma.len vma - off) = vma.vmEnd.toNat
  le : off ≤ Vma.len vma

theorem at_start (h : vma.vmStart.toNat < vma.vmEnd.toNat) : At vma 0 vma.vmStart := by
  refine ⟨rfl, ?_, Nat.zero_le _⟩
  unfold Vma.len
  omega

theorem At.left (h : At vma off start) : (vma.vmEnd - start).toNat = Vma.len vma - off := by
  have := h.stop
  rw [BitVec.toNat_sub_of_le (by rw [BitVec.le_def]; omega)]
  omega

theorem mmapLen_none_iff (h : At vma off start) : mmapLen vma start r = none ↔ off = Vma.len vma ∧ r.len ≠ 0 := by
  have hstop := h.stop
  have hle := h.le
  have hzero : r.len ≠ 0 ↔ 0 < r.len.toNat := by bv_omega
  have hlt : start < vma.vmEnd ↔ off < Vma.len vma := by
    rw [BitVec.lt_def]
    omega
  unfold mmapLen
  rw [hzero]
  split
  case isTrue hrest =>
    rw [BitVec.lt_def, h.left] at hrest
    split
    case isTrue hin => exact ⟨(fun h => nomatch h), fun h => absurd (hlt.mp hin) (by omega)⟩
    case isFalse hin =>
      rw [hlt] at hin
      exact ⟨fun _ => by omega, fun _ => rfl⟩
  case isFalse hrest =>
    rw [BitVec.lt_def, h.left] at hrest
    exact ⟨(fun h => nomatch h), fun h => absurd h.2 (by omega)⟩

/-- A region is mapped as far as it and the VMA go. -/
theorem mmapLen_some (h : At vma off start) (hlen : mmapLen vma start r = some len) :
    len.toNat = min (Vma.len vma - off) r.len.toNat := by
  unfold mmapLen at hlen
  split at hlen
  case isTrue hrest =>
    rw [BitVec.lt_def, h.left] at hrest
    split at hlen
    · rw [← Option.some.inj hlen, h.left]
      omega
    · cases hlen
  case isFalse hrest =>
    rw [BitVec.lt_def, h.left] at hrest
    rw [← Option.some.inj hlen]
    omega

theorem At.next (h : At vma off start) (hlen : mmapLen vma start r = some len) :
    At vma (off + len.toNat) (start + len) := by
  have hmin := mmapLen_some h hlen
  have hstop := h.stop
  have hstart := h.pos
  have hle := h.le
  have hend := vma.vmEnd.isLt
  have hadd : (start + len).toNat = start.toNat + len.toNat := by
    rw [BitVec.toNat_add]
    exact Nat.mod_eq_of_lt (by omega)
  refine ⟨?_, ?_, ?_⟩
  · rw [hadd]
    omega
  · rw [hadd]
    omega
  · omega

/-! ## When the loop succeeds -/

theorem loop_succeeds_iff (hremap : ∀ i, 0 ≤ remap i) (h : At vma off start) :
    (mmapLoop remap vma i start list).1 = 0 ↔
      ∀ a r b, list = a ++ r :: b → r.len ≠ 0 → off + total a < Vma.len vma := by
  induction list generalizing i off start with
  | nil => exact ⟨fun _ a r b h => absurd h.symm (by simp), fun _ => rfl⟩
  | cons r rest ih =>
    cases hlen : mmapLen vma start r with
    | none =>
      obtain ⟨hoff, hr⟩ := (mmapLen_none_iff h).mp hlen
      rw [mmapLoop, hlen]
      refine ⟨fun h => absurd h (by decide : (-EINVAL : Int) ≠ 0), fun hall => ?_⟩
      have : off + 0 < Vma.len vma := hall [] r rest rfl hr
      omega
    | some len =>
      have hmin := mmapLen_some h hlen
      rw [mmapLoop, hlen]
      dsimp only
      rw [if_neg (Int.not_lt.mpr (hremap i)), ih (h.next hlen)]
      constructor
      · rintro hall (_ | ⟨r', a⟩) q b heq hq
        · obtain ⟨rfl, rfl⟩ := List.cons.inj heq
          have hne : ¬ (off = Vma.len vma ∧ r.len ≠ 0) := fun h' => by
            rw [(mmapLen_none_iff h).mpr h'] at hlen
            cases hlen
          have hle := h.le
          exact Nat.lt_of_le_of_ne hle fun he => hne ⟨he, hq⟩
        · obtain ⟨rfl, rfl⟩ := List.cons.inj heq
          have hrest := hall a q b rfl hq
          rw [total_cons]
          omega
      · intro hall a q b heq hq
        have hrest := hall (r :: a) q b (congrArg (r :: ·) heq) hq
        rw [total_cons] at hrest
        omega

/-! ## What the loop maps -/

theorem loop_cons_zero (h : (mmapLoop remap vma i start (r :: rest)).1 = 0) :
    ∃ len, mmapLen vma start r = some len ∧ (mmapLoop remap vma (i + 1) (start + len) rest).1 = 0 ∧
      (mmapLoop remap vma i start (r :: rest)).2 =
        ⟨start, r.addr >>> PAGE_SHIFT, len⟩ :: (mmapLoop remap vma (i + 1) (start + len) rest).2 := by
  rw [mmapLoop] at h ⊢
  cases hlen : mmapLen vma start r with
  | none =>
    rw [hlen] at h
    exact absurd h (by decide : (-EINVAL : Int) ≠ 0)
  | some len =>
    rw [hlen] at h
    dsimp only at h ⊢
    by_cases hremap : remap i < 0
    · rw [if_pos hremap] at h
      exact absurd h (Int.ne_of_lt hremap)
    · rw [if_neg hremap] at h ⊢
      exact ⟨len, rfl, h, rfl⟩

theorem maps_cons {c : RemapCall} {calls : List RemapCall} {x pfn : Nat} : Maps (c :: calls) x pfn ↔
    (∃ k, k * 4096 < c.len.toNat ∧ x = c.start.toNat + k * 4096 ∧ pfn = c.pfn.toNat + k) ∨ Maps calls x pfn := by
  simp only [Maps, List.mem_cons, or_and_right, exists_or, exists_eq_left]

/-- What is before the last region in use is whole pages. -/
structure OnPage (list : List GuestMemRegion) (vma : Vma) (off : Nat) : Prop where
  regions : Aligned list
  len : 4096 ∣ Vma.len vma
  start : list ≠ [] → 4096 ∣ off

theorem OnPage.next (h : OnPage (r :: rest) vma off) (hmin : len.toNat = min (Vma.len vma - off) r.len.toNat) :
    OnPage rest vma (off + len.toNat) := by
  obtain ⟨-, hr, hrest⟩ := aligned_cons.mp h.regions
  refine ⟨hrest, h.len, fun hne => ?_⟩
  have hoff := h.start (List.cons_ne_nil _ _)
  have hlen := h.len
  have := hr hne
  omega

theorem loop_maps_right {x pfn : Nat} (h : At vma off start) (hpage : OnPage list vma off)
    (hret : (mmapLoop remap vma i start list).1 = 0) (hmaps : Maps (mmapLoop remap vma i start list).2 x pfn) :
    ∃ o, 4096 ∣ o ∧ off ≤ o ∧ o < Vma.len vma ∧ x = vma.vmStart.toNat + o ∧
      (addrAt list (o - off)).map (· / 4096) = some pfn := by
  induction list generalizing i off start with
  | nil =>
    obtain ⟨c, hc, -⟩ := hmaps
    exact absurd hc List.not_mem_nil
  | cons r rest ih =>
    obtain ⟨len, hlen, hret', hcalls⟩ := loop_cons_zero hret
    have hmin := mmapLen_some h hlen
    have hstart := h.pos
    have hle := h.le
    have hoff := hpage.start (List.cons_ne_nil _ _)
    rw [hcalls, maps_cons] at hmaps
    rcases hmaps with ⟨k, hk, rfl, rfl⟩ | hmaps
    · dsimp only at hk ⊢
      refine ⟨off + k * 4096, by omega, by omega, by omega, by omega, ?_⟩
      have haddr := (aligned_cons.mp hpage.regions).1
      rw [Nat.add_sub_cancel_left, addrAt, if_pos (by omega), Option.map_some, Option.some.injEq,
        BitVec.toNat_ushiftRight, Nat.shiftRight_eq_div_pow, show 2 ^ PAGE_SHIFT = 4096 from rfl]
      omega
    · obtain ⟨o, hdvd, hge, hlt, hx, haddr⟩ := ih (h.next hlen) (hpage.next hmin) hret' hmaps
      refine ⟨o, hdvd, by omega, hlt, hx, ?_⟩
      rw [addrAt, if_neg (by omega), ← haddr, show o - (off + len.toNat) = o - off - r.len.toNat by omega]

theorem loop_maps_every {o : Nat} (h : At vma off start) (hpage : OnPage list vma off)
    (hret : (mmapLoop remap vma i start list).1 = 0) (hdvd : 4096 ∣ o) (hge : off ≤ o) (hlt : o < Vma.len vma)
    (hin : o < off + total list) : ∃ pfn, Maps (mmapLoop remap vma i start list).2 (vma.vmStart.toNat + o) pfn := by
  induction list generalizing i off start with
  | nil => exact absurd hin (by show ¬ o < off + 0; omega)
  | cons r rest ih =>
    obtain ⟨len, hlen, hret', hcalls⟩ := loop_cons_zero hret
    have hmin := mmapLen_some h hlen
    have hstart := h.pos
    have hoff := hpage.start (List.cons_ne_nil _ _)
    simp only [hcalls, maps_cons]
    by_cases ho : o < off + len.toNat
    · exact ⟨_, .inl ⟨(o - off) / 4096, by omega, by omega, rfl⟩⟩
    · rw [total_cons] at hin
      obtain ⟨pfn, hmaps⟩ := ih (h.next hlen) (hpage.next hmin) hret' (by omega) (by omega)
      exact ⟨pfn, .inr hmaps⟩

/-! ## The mapping -/

theorem addrAt_append {a b : List GuestMemRegion} (o : Nat) : addrAt (a ++ b) (total a + o) = addrAt b o := by
  induction a with
  | nil => exact congrArg (addrAt b) (Nat.zero_add o)
  | cons r a ih =>
    rw [total_cons, List.cons_append, addrAt, if_neg (by omega), ← ih]
    exact congrArg _ (by omega)

theorem total_append (a b : List GuestMemRegion) : total (a ++ b) = total a + total b := by
  rw [total, List.map_append, List.sum_append]
  rfl

/-- The last region with a byte. -/
theorem exists_last (h : 0 < total list) :
    ∃ a r b, list = a ++ r :: b ∧ r.len ≠ 0 ∧ total list = total a + r.len.toNat := by
  induction list with
  | nil => exact absurd h (by decide)
  | cons r rest ih =>
    by_cases hrest : 0 < total rest
    · obtain ⟨a, q, b, rfl, hq, htotal⟩ := ih hrest
      exact ⟨r :: a, q, b, rfl, hq, by rw [total_cons, htotal, total_cons, Nat.add_assoc]⟩
    · rw [total_cons] at h
      refine ⟨[], r, rest, rfl, fun h0 => ?_, ?_⟩
      · rw [h0] at h
        exact absurd h (by show ¬ 0 < 0 + total rest; omega)
      · show r.len.toNat + total rest = 0 + r.len.toNat
        omega

/-- The regions before another one are whole pages. -/
theorem dvd_total {a b : List GuestMemRegion} (h : Aligned (a ++ r :: b)) : 4096 ∣ total a := by
  induction a with
  | nil => exact Nat.dvd_zero _
  | cons q a ih =>
    obtain ⟨-, hq, hrest⟩ := aligned_cons.mp h
    rw [total_cons]
    exact Nat.dvd_add (hq (by simp)) (ih hrest)

section Buffer

variable {p : Addr} {head : HypUdmabufCreate} {c : Created} {buf : DmaBuf}

theorem mmap_eq (remap : Nat → Int) (vma : Vma) (hlen : list.length = head.count.toNat)
    (hmade : Made p head list c buf) (hne : list ≠ []) :
    (hypUdmabufMmap remap buf list vma).1 = (mmapLoop remap vma 0 vma.vmStart list).1 ∧
      (hypUdmabufMmap remap buf list vma).2.1 = (mmapLoop remap vma 0 vma.vmStart list).2 := by
  have hcount : buf.priv.nregions ≠ 0 := by
    rw [hmade.nregions]
    intro h0
    rw [h0] at hlen
    exact hne (List.eq_nil_of_length_eq_zero hlen)
  unfold hypUdmabufMmap
  rw [if_neg hcount, hmade.nregions, ← hlen, List.take_length]
  exact ⟨rfl, rfl⟩

/-- A page inside the dma-buf starts in a region. -/
theorem lt_total (hmade : Made p head list c buf) {o : Nat} (hdvd : 4096 ∣ o) (hlt : o < buf.size.toNat) :
    o < total list := by
  rw [hmade.exported, toNat_pageAlign, hmade.size] at hlt
  omega

theorem onPage_zero (halign : Aligned list) (hv : InBuffer vma buf) : OnPage list vma 0 := by
  refine ⟨halign, ?_, fun _ => Nat.dvd_zero _⟩
  unfold Vma.len
  exact Nat.dvd_sub hv.stop hv.start

theorem mmap_succeeds_iff (hlen : list.length = head.count.toNat) (hmade : Made p head list c buf) (hne : list ≠ [])
    (hv : InBuffer vma buf) (hremap : ∀ i, 0 ≤ remap i) :
    (hypUdmabufMmap remap buf list vma).1 = 0 ↔ EachStarts list vma := by
  rw [(mmap_eq remap vma hlen hmade hne).1, loop_succeeds_iff hremap (at_start hv.lt)]
  unfold EachStarts
  simp only [Nat.zero_add]

/-- A mapping that succeeds is one of the start of the dma-buf. -/
theorem mmap_faithful (hlen : list.length = head.count.toNat) (hmade : Made p head list c buf) (hne : list ≠ [])
    (halign : Aligned list) (hv : InBuffer vma buf) (hret : (hypUdmabufMmap remap buf list vma).1 = 0) :
    Faithful list { vma with vmPgoff := 0 } (hypUdmabufMmap remap buf list vma).2.1 := by
  obtain ⟨heq, hcalls⟩ := mmap_eq remap vma hlen hmade hne
  rw [heq] at hret
  rw [hcalls]
  have hpage := onPage_zero halign hv
  refine ⟨fun o hdvd hlt => ?_, fun x pfn hmaps => ?_⟩
  · have hin := lt_total hmade hdvd (Nat.lt_of_lt_of_le hlt (Nat.le_trans (Nat.le_add_left _ _) hv.inside))
    exact loop_maps_every (at_start hv.lt) hpage hret hdvd (Nat.zero_le o) hlt (by rwa [Nat.zero_add])
  · obtain ⟨o, hdvd, -, hlt, hx, haddr⟩ := loop_maps_right (at_start hv.lt) hpage hret hmaps
    refine ⟨o, hdvd, hlt, hx, ?_⟩
    show (addrAt list (0 * 4096 + o)).map _ = _
    rwa [Nat.zero_mul, Nat.zero_add]

/-- Where a mapping succeeds, and is right too, it is meant to be of the start: the
last region with a byte tells. -/
theorem pgoff_eq_zero {calls : List RemapCall} (hmade : Made p head list c buf) (halign : Aligned list)
    (hv : InBuffer vma buf) (hstarts : EachStarts list vma) (hstart : Faithful list { vma with vmPgoff := 0 } calls)
    (h : Faithful list vma calls) : vma.vmPgoff = 0 := by
  have hlt := hv.lt
  have hinside := hv.inside
  have hpos : 0 < total list := lt_total hmade (Nat.dvd_zero _) (by unfold Vma.len at hinside; omega)
  obtain ⟨a, r, b, rfl, hr, htotal⟩ := exists_last hpos
  have hbefore := hstarts a r b rfl hr
  have hdvd := dvd_total halign
  obtain ⟨pfn, hmaps⟩ := h.every (total a) hdvd hbefore
  obtain ⟨o, -, -, hx, haddr⟩ := h.right _ _ hmaps
  obtain ⟨o', -, -, hx', haddr'⟩ := hstart.right _ _ hmaps
  obtain rfl : o = total a := (Nat.add_left_cancel hx).symm
  obtain rfl : o' = total a := (Nat.add_left_cancel hx').symm
  have hin := lt_total hmade (o := vma.vmPgoff.toNat * 4096 + total a) (by omega) (by omega)
  have hzero : 0 < r.len.toNat := by bv_omega
  rw [htotal, Nat.add_comm] at hin
  have hpage := Nat.lt_of_add_lt_add_left hin
  rw [Nat.add_comm, addrAt_append, addrAt, if_pos hpage] at haddr
  dsimp only at haddr'
  rw [show (0 : BitVec 64).toNat = 0 from rfl, Nat.zero_mul, Nat.zero_add, ← Nat.add_zero (total a), addrAt_append, addrAt,
    if_pos hzero, ← haddr, Option.map_some, Option.map_some, Option.some.injEq] at haddr'
  have hpgoff : vma.vmPgoff.toNat = 0 := by omega
  bv_omega

/-- What is mapped is right if and only if it is meant to be of the start of the
dma-buf, and all its regions start before the end of the VMA. -/
theorem maps_right_iff {a : CreateAnswers} (hlen : list.length = head.count.toNat)
    (hret : (hypUdmabufCreate a head p list).ret = 0) (hbuf : (hypUdmabufCreate a head p list).buf = some buf)
    (hv : InBuffer vma buf) : MapsRight list buf vma ↔ vma.vmPgoff = 0 ∧ EachStarts list vma := by
  have haccepts := (create_ret_iff hlen).mp hret
  obtain ⟨buf', hmade⟩ := create_of_accepts (p := p) hlen haccepts
  obtain rfl : buf' = buf := Option.some.inj (hmade.made.symm.trans hbuf)
  have halign := haccepts.aligned
  have hne : list ≠ [] := by
    rintro rfl
    have hpos := lt_total hmade (Nat.dvd_zero 4096) (by have := hv.inside; have := hv.lt; unfold Vma.len at *; omega)
    exact absurd hpos (by decide)
  constructor
  · intro h
    have hok : ∀ i : Nat, (0 : Int) ≤ (fun _ => 0 : Nat → Int) i := fun _ => Int.le_refl 0
    have hzero := h.succeeds _ hok
    have hstarts := (mmap_succeeds_iff hlen hmade hne hv hok).mp hzero
    have hstart := mmap_faithful hlen hmade hne halign hv hzero
    exact ⟨pgoff_eq_zero hmade halign hv hstarts hstart (h.faithful _ hzero), hstarts⟩
  · rintro ⟨hpgoff, hstarts⟩
    refine ⟨fun remap hret => ?_, fun remap hremap => (mmap_succeeds_iff hlen hmade hne hv hremap).mpr hstarts⟩
    have hvma : { vma with vmPgoff := 0 } = vma := by rw [← hpgoff]
    have hfaithful := mmap_faithful hlen hmade hne halign hv hret
    rwa [hvma] at hfaithful

end Buffer

/-- All of the dma-buf, whose last page is not full. -/
def wholeBuffer : Vma := { vmStart := 0x7f0000000000, vmEnd := 0x7f0000004000, vmPgoff := 0 }

theorem wholeBuffer_right : ∃ buf, (hypUdmabufCreate answered two 0 twoRegions).buf = some buf ∧
    MapsRight twoRegions buf wholeBuffer := by
  refine ⟨_, rfl, (@maps_right_iff twoRegions wholeBuffer 0 two _ answered rfl (by decide) rfl ?_).mpr ⟨rfl, ?_⟩⟩
  · exact ⟨by decide, by decide, by decide, by decide⟩
  · intro a r b heq _
    have htotal : 0x3800 = total a + total (r :: b) := (congrArg total heq).trans (total_append a (r :: b))
    show total a < 0x4000
    omega

/-- Its first page. -/
def firstPage : Vma := { vmStart := 0x7f0000000000, vmEnd := 0x7f0000001000, vmPgoff := 0 }

/-- The loop comes to the second region, and the mapping fails. -/
theorem firstPage_fails : ¬ ∀ a head p list vma buf, list.length = head.count.toNat →
    (hypUdmabufCreate a head p list).ret = 0 → (hypUdmabufCreate a head p list).buf = some buf → InBuffer vma buf →
      MapsRight list buf vma := by
  intro h
  have hright := h answered two 0 twoRegions firstPage _ rfl (by decide) rfl ⟨by decide, by decide, by decide, by decide⟩
  exact absurd (hright.succeeds (fun _ => 0) fun _ => Int.le_refl 0) (by decide)

end GH.Proof.HypUdmabuf
