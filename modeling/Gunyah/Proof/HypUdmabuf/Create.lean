import Gunyah.Spec.HypUdmabuf

/-!
# Making a dma-buf

`hyp_udmabuf_create` accepts aligned lists only, and adds their lengths up in 64
bits (`createLoop_iff`). It exports a dma-buf, or leaves none and has at most
read the list (`create_cases`). The sizes are exact if and only if the sum of the
lengths, rounded up, is one of 64 bits (`size_exact_iff`).
-/

namespace GH.Proof.HypUdmabuf

open GH.Impl GH.Impl.HypUdmabuf GH.Spec.HypUdmabuf
open GH.Spec.Metadata (roundUp)

variable {list rest : List GuestMemRegion} {r : GuestMemRegion} {head : HypUdmabufCreate} {p : Addr}

/-! ## Pages -/

theorem pageAligned_iff (x : BitVec 64) : PageAligned x ↔ 4096 ∣ x.toNat := by
  have hand : (x &&& 0xfff).toNat = x.toNat % 4096 := by
    rw [BitVec.toNat_and]
    exact Nat.and_two_pow_sub_one_eq_mod x.toNat 12
  unfold PageAligned
  rw [← BitVec.toNat_inj, hand, Nat.dvd_iff_mod_eq_zero]
  rfl

theorem toNat_pageAlign (x : BitVec 64) : (pageAlign x).toNat = (x.toNat + 4095) % 2 ^ 64 / 4096 * 4096 := by
  have hmask (y : BitVec 64) : y &&& ~~~(0xfff : BitVec 64) = (y >>> 12) <<< 12 := by
    have hbits : ∀ i : Fin 64, (~~~(0xfff : BitVec 64)).getLsbD i = decide (12 ≤ i.val) := by decide
    refine BitVec.eq_of_getLsbD_eq fun i hi => ?_
    rw [BitVec.getLsbD_and, hbits ⟨i, hi⟩, BitVec.getLsbD_shiftLeft, BitVec.getLsbD_ushiftRight]
    by_cases h : i < 12
    · simp [h, Nat.not_le_of_lt h]
    · simp [h, hi, Nat.le_of_not_lt h]
  unfold pageAlign
  rw [hmask, BitVec.toNat_shiftLeft, BitVec.toNat_ushiftRight, BitVec.toNat_add, Nat.shiftLeft_eq,
    Nat.shiftRight_eq_div_pow]
  exact Nat.mod_eq_of_lt (by omega)

theorem roundUp_lt_iff (n : Nat) : roundUp n < 2 ^ 64 ↔ n + 4095 < 2 ^ 64 := by
  unfold roundUp
  omega

/-! ## The loop -/

theorem total_cons : total (r :: rest) = r.len.toNat + total rest := rfl

theorem aligned_nil : Aligned [] := by
  intro a r b h
  simp at h

theorem aligned_cons : Aligned (r :: rest) ↔
    4096 ∣ r.addr.toNat ∧ (rest ≠ [] → 4096 ∣ r.len.toNat) ∧ Aligned rest := by
  constructor
  · intro h
    have hr := h [] r rest rfl
    exact ⟨hr.1, hr.2, fun a q b heq => h (r :: a) q b (congrArg (r :: ·) heq)⟩
  · rintro ⟨haddr, hlen, hrest⟩ (_ | ⟨r', a⟩) q b heq
    · obtain ⟨rfl, rfl⟩ := List.cons.inj heq
      exact ⟨haddr, hlen⟩
    · exact hrest a q b (List.cons.inj heq).2

/-- The loop, at region `i` of `count`. -/
theorem createLoop_iff (count i : BitVec 32) (size : BitVec 64) (hlen : i.toNat + list.length = count.toNat)
    (g : BitVec 64) : createLoop count i size list = some g ↔
      Aligned list ∧ g.toNat = (size.toNat + total list) % 2 ^ 64 := by
  induction list generalizing i size with
  | nil =>
    rw [createLoop, Option.some.injEq, ← BitVec.toNat_inj, and_iff_right aligned_nil]
    show _ ↔ g.toNat = (size.toNat + 0) % 2 ^ 64
    rw [Nat.add_zero, Nat.mod_eq_of_lt size.isLt, eq_comm]
  | cons r rest ih =>
    rw [List.length_cons] at hlen
    have hlast : i = count - 1 ↔ rest = [] := by
      rw [← List.length_eq_zero_iff, ← BitVec.toNat_inj, BitVec.toNat_sub_of_le (by bv_omega)]
      have hone : (1 : BitVec 32).toNat = 1 := rfl
      omega
    have hnext : (i + 1).toNat + rest.length = count.toNat := by
      have := count.isLt
      rw [BitVec.toNat_add, show (1 : BitVec 32).toNat = 1 from rfl, Nat.mod_eq_of_lt (by omega)]
      omega
    have hsum : ((size + r.len).toNat + total rest) % 2 ^ 64 = (size.toNat + total (r :: rest)) % 2 ^ 64 := by
      rw [BitVec.toNat_add, total_cons, Nat.mod_add_mod, Nat.add_assoc]
    rw [createLoop, aligned_cons]
    by_cases h : PageAligned r.addr ∧ (PageAligned r.len ∨ i = count - 1)
    · rw [if_pos h, ih (i + 1) (size + r.len) hnext, hsum]
      rw [pageAligned_iff, pageAligned_iff, hlast] at h
      exact and_congr_left' ⟨fun hrest => ⟨h.1, h.2.resolve_right, hrest⟩, fun h => h.2.2⟩
    · rw [if_neg h]
      rw [pageAligned_iff, pageAligned_iff, hlast] at h
      refine ⟨(fun h => nomatch h), fun ⟨⟨haddr, hlen, _⟩, _⟩ => absurd ⟨haddr, ?_⟩ h⟩
      exact (em (rest = [])).symm.imp_left hlen

/-! ## The function -/

theorem flags_iff {flags : BitVec 32} : (flags ≠ O_RDONLY ∧ flags ≠ O_WRONLY ∧ flags ≠ O_RDWR) ↔
    ¬ (flags = O_RDONLY ∨ flags = O_WRONLY ∨ flags = O_RDWR) := by
  rw [not_or, not_or]

/-- The list is all right: what the loop leaves. -/
theorem createLoop_of_aligned (hlen : list.length = head.count.toNat) (h : Aligned list) :
    ∃ g, createLoop head.count 0 0 list = some g ∧ g.toNat = total list % 2 ^ 64 := by
  have hloop := createLoop_iff head.count 0 0 ((Nat.zero_add list.length).trans hlen)
  refine ⟨BitVec.ofNat 64 (total list), (hloop _).mpr ⟨h, ?_⟩, BitVec.toNat_ofNat ..⟩
  rw [BitVec.toNat_ofNat, show (0 : BitVec 64).toNat = 0 from rfl, Nat.zero_add]

theorem createLoop_of_not_aligned (hlen : list.length = head.count.toNat) (h : ¬ Aligned list) :
    createLoop head.count 0 0 list = none := by
  have hloop := createLoop_iff head.count 0 0 ((Nat.zero_add list.length).trans hlen)
  rw [Option.eq_none_iff_forall_ne_some]
  exact fun g hg => h ((hloop g).mp hg).1

/-- What `hyp_udmabuf_create` leaves where it exports a dma-buf. -/
structure Made (p : Addr) (head : HypUdmabufCreate) (list : List GuestMemRegion) (c : Created) (buf : DmaBuf) : Prop where
  ret : c.ret = 0
  heap : c.heap = [.access p]
  made : c.buf = some buf
  owned : buf.priv.list = some p
  nregions : buf.priv.nregions = head.count
  size : c.head.size.toNat = total list % 2 ^ 64
  exported : buf.size = pageAlign c.head.size

theorem create_of_accepts {a : CreateAnswers} (hlen : list.length = head.count.toNat) (h : Accepts a head list) :
    ∃ buf, Made p head list (hypUdmabufCreate a head p list) buf := by
  obtain ⟨g, hg, hsize⟩ := createLoop_of_aligned hlen h.aligned
  unfold hypUdmabufCreate
  simp only [flags_iff]
  rw [if_neg (not_not_intro h.flags), if_neg (by rw [h.ubuf]; exact Bool.noConfusion), hg]
  dsimp only
  rw [if_neg (Int.not_lt.mpr h.exported), if_neg (Int.not_lt.mpr h.fd)]
  exact ⟨_, rfl, rfl, rfl, rfl, rfl, hsize, rfl⟩

/-- Where it exports none, it leaves the list to its caller. -/
theorem create_of_not_accepts {a : CreateAnswers} (hlen : list.length = head.count.toNat) (h : ¬ Accepts a head list) :
    (hypUdmabufCreate a head p list).ret < 0 ∧ (hypUdmabufCreate a head p list).buf = none ∧
      ((hypUdmabufCreate a head p list).heap = [] ∨ (hypUdmabufCreate a head p list).heap = [.access p]) := by
  unfold hypUdmabufCreate
  simp only [flags_iff]
  by_cases hflags : head.flags = O_RDONLY ∨ head.flags = O_WRONLY ∨ head.flags = O_RDWR
  case neg =>
    rw [if_pos hflags]
    exact ⟨(by decide : (-EINVAL : Int) < 0), rfl, .inl rfl⟩
  rw [if_neg (not_not_intro hflags)]
  by_cases hubuf : a.ubuf = false
  case pos =>
    rw [if_pos hubuf]
    exact ⟨(by decide : (-ENOMEM : Int) < 0), rfl, .inl rfl⟩
  rw [if_neg hubuf]
  by_cases hlist : Aligned list
  case neg =>
    rw [createLoop_of_not_aligned hlen hlist]
    exact ⟨(by decide : (-EINVAL : Int) < 0), rfl, .inr rfl⟩
  obtain ⟨g, hg, -⟩ := createLoop_of_aligned hlen hlist
  rw [hg]
  dsimp only
  by_cases hexport : a.exported < 0
  case pos =>
    rw [if_pos hexport]
    exact ⟨hexport, rfl, .inr rfl⟩
  by_cases hfd : a.dmabufFd < 0
  case pos =>
    rw [if_neg hexport, if_pos hfd]
    exact ⟨hfd, rfl, .inr rfl⟩
  rw [Bool.not_eq_false] at hubuf
  exact absurd ⟨hflags, hubuf, hlist, Int.not_lt.mp hexport, Int.not_lt.mp hfd⟩ h

/-- It succeeds exactly if it exports a dma-buf. -/
theorem create_ret_iff {a : CreateAnswers} (hlen : list.length = head.count.toNat) :
    (hypUdmabufCreate a head p list).ret = 0 ↔ Accepts a head list := by
  constructor
  · intro hret
    by_contra h
    have := (create_of_not_accepts (p := p) hlen h).1
    omega
  · intro h
    obtain ⟨buf, hmade⟩ := create_of_accepts (p := p) hlen h
    exact hmade.ret

/-! ## Sizes -/

/-- The sizes are exact if and only if those of the regions, rounded up, do not
reach 2^64. -/
theorem size_exact_iff {a : CreateAnswers} (hlen : list.length = head.count.toNat)
    (hret : (hypUdmabufCreate a head p list).ret = 0) :
    ∃ buf, (hypUdmabufCreate a head p list).buf = some buf ∧
      (SizeExact list (hypUdmabufCreate a head p list).head buf ↔ roundUp (total list) < 2 ^ 64) := by
  have haccepts := (create_ret_iff hlen).mp hret
  obtain ⟨buf, hmade⟩ := create_of_accepts (p := p) hlen haccepts
  refine ⟨buf, hmade.made, fun hexact => ?_, fun hround => ?_⟩
  · rw [← hexact.exported]
    exact buf.size.isLt
  · have hsum := (roundUp_lt_iff _).mp hround
    have hhead : (hypUdmabufCreate a head p list).head.size.toNat = total list := by
      rw [hmade.size, Nat.mod_eq_of_lt (by omega)]
    refine ⟨hhead, ?_, haccepts.aligned⟩
    rw [hmade.exported, toNat_pageAlign, hhead, Nat.mod_eq_of_lt hsum]
    rfl

/-- Nothing fails. -/
def answered : CreateAnswers := { ubuf := true, exported := 0, dmabufFd := 3 }

/-- A request with two regions. -/
def two : HypUdmabufCreate := { flags := O_RDWR, count := 2, fd := 0, size := 0 }

/-- Regions of two pages each, the second of which is not full. -/
def twoRegions : List GuestMemRegion := [⟨0x40000000, 0x2000⟩, ⟨0x50000000, 0x1800⟩]

theorem twoRegions_exact : ∃ buf, (hypUdmabufCreate answered two 0 twoRegions).buf = some buf ∧
    SizeExact twoRegions (hypUdmabufCreate answered two 0 twoRegions).head buf := by
  obtain ⟨buf, hbuf, hiff⟩ := @size_exact_iff twoRegions two 0 answered rfl (by decide)
  exact ⟨buf, hbuf, hiff.mpr (by decide)⟩

/-- Two regions with 2^64 and 4096 bytes. -/
theorem huge_wraps : ¬ ∀ a head p list, list.length = head.count.toNat → 1 ≤ list.length → list.length ≤ 4194304 →
    (hypUdmabufCreate a head p list).ret = 0 → ∀ buf, (hypUdmabufCreate a head p list).buf = some buf →
      SizeExact list (hypUdmabufCreate a head p list).head buf := by
  intro h
  have hexact := h answered two 0 [⟨0, 0xfffffffffffff000⟩, ⟨0, 0x2000⟩] rfl (by decide) (by decide) (by decide) _ rfl
  exact absurd hexact.head (by decide)

end GH.Proof.HypUdmabuf
