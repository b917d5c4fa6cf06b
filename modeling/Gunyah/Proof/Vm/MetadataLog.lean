import Gunyah.Proof.Vm.Metadata

/-!
# What wraps in placing the metadata

A run that copies the metadata (`placing_eq`) logs what the loop logs
(`loopOps_iff`: the sum of an address and a size, in 32 bits, may wrap there), and
a few more additions and subtractions, which do not wrap (`around_fits`). So a run
is without wrapping if and only if the segments that raise the maximum end below
2^32 (`arithmetic_exact_iff`).
-/

namespace GH.Proof.Metadata

open GH.Impl GH.Impl.Vm GH.Spec.Metadata

variable {r : FwMem} {md : Metadata} {stack : BitVec 64}

/-! ## The log -/

/-- The operations of a turn of the loop. -/
def turnOps (m : Image) (p : Phdr) : List Arith :=
  (if p.paddr > m.maxPaddr then [.sub (BitVec.allOnes 64) (p.paddr.zeroExtend 64), .add p.paddr p.memsz] else []) ++
    [.add m.size (p.memsz.zeroExtend 64)]

/-- The operations of the loop. -/
def loopOps (m : Image) : List Phdr → List Arith
  | [] => []
  | p :: l => turnOps m p ++ loopOps (turn m p) l

/-- What a run logs that copies the metadata. -/
def ops (r : FwMem) (md : Metadata) (stack : BitVec 64) : List Arith :=
  let m := md.phdrs.foldl turn { endAddr := stack }
  let mdataSize := pageRoundUp md.size
  let moffset := r.size - mdataSize
  .add md.size (PAGE_SIZE - 1) :: loopOps { endAddr := stack } md.phdrs ++
    [.sub (BitVec.allOnes 64) mdataSize, .add m.size mdataSize, .sub r.size mdataSize,
      .sub (BitVec.allOnes 64) moffset, .sub (BitVec.allOnes 64) moffset,
      .add (if m.relocatable then 0 else r.phys) moffset, .add r.virt moffset]

section Run

variable {α β : Type} {w : Nat}

theorem add_bind (x y : BitVec w) (f : BitVec w → Run β) (log : List Arith) :
    (add x y >>= f) log = f (x + y) (log ++ [.add x y]) := rfl

theorem sub_bind (x y : BitVec w) (f : BitVec w → Run β) (log : List Arith) :
    (sub x y >>= f) log = f (x - y) (log ++ [.sub x y]) := rfl

theorem refuse_bind (c : Prop) [Decidable c] (f : Unit → Run β) (log : List Arith) :
    (refuse c >>= f) log = if c then none else f () log := by
  show (if c then none else some ((), log) : Option (Unit × List Arith)).bind _ = _
  split <;> rfl

theorem pure_run (x : α) (log : List Arith) : (pure x : Run α) log = some (x, log) := rfl

theorem bind_run {x : Run α} {y : α} {log log' : List Arith} (h : x log = some (y, log')) (f : α → Run β) :
    (x >>= f) log = f y log' := by
  show (x log).bind (fun z => f z.1 z.2) = _
  rw [h, Option.bind_some]

end Run

theorem turnRun_eq (m : Image) (p : Phdr) (log : List Arith) :
    turnRun m p log = some (turn m p, log ++ turnOps m p) := by
  by_cases h : p.paddr > m.maxPaddr
  · have hrun : turnRun m p = _ := if_pos h
    rw [hrun, sub_bind, refuse_bind, if_neg (not_overflow p), add_bind, add_bind, pure_run]
    unfold turn turnOps
    rw [if_pos h, if_pos h, if_pos h, List.append_assoc, List.append_assoc, List.cons_append, List.cons_append,
      List.nil_append, List.nil_append, List.cons_append, List.cons_append, List.nil_append]
  · have hrun : turnRun m p = _ := if_neg h
    rw [hrun, add_bind, pure_run]
    unfold turn turnOps
    rw [if_neg h, if_neg h, if_neg h, List.nil_append]

theorem foldlM_turnRun (l : List Phdr) (m : Image) (log : List Arith) :
    l.foldlM turnRun m log = some (l.foldl turn m, log ++ loopOps m l) := by
  induction l generalizing m log with
  | nil => exact congrArg some (Prod.ext rfl (List.append_nil log).symm)
  | cons p l ih =>
    rw [List.foldlM_cons, bind_run (turnRun_eq m p log), ih, List.append_assoc]
    rfl

theorem refuse_or {α : Type} {a b : Prop} [Decidable a] [Decidable b] (x : Option α) :
    (if a then none else if b then none else x) = if a ∨ b then none else x := by
  by_cases ha : a
  · rw [if_pos ha, if_pos (.inl ha)]
  · rw [if_neg ha]
    exact if_congr (or_iff_right ha).symm rfl rfl

/-- The log is kept beside the run: it changes nothing in it. -/
theorem placing_eq : placing r md stack [] = (placeMetadata r md stack).map fun off => (off, ops r md stack) := by
  unfold placing
  rw [add_bind, refuse_bind, bind_run (foldlM_turnRun _ _ _), sub_bind, refuse_bind, add_bind, refuse_bind, sub_bind,
    refuse_bind, sub_bind, refuse_bind, sub_bind, refuse_bind, add_bind, refuse_bind, add_bind, pure_run]
  unfold placeMetadata ops
  rw [foldlM_add, show (md.size + (PAGE_SIZE - 1)) / PAGE_SIZE * PAGE_SIZE = pageRoundUp md.size from rfl]
  generalize pageRoundUp md.size = mdataSize
  generalize md.phdrs.foldl turn { endAddr := stack } = m
  simp only [← refuse_or, apply_ite (Option.map _), Option.map_none, Option.map_some, ← BitVec.not_le, ite_not,
    List.append_assoc, List.cons_append, List.nil_append]

/-! ## What wraps -/

theorem rest_fits (x : BitVec 64) : ¬ (Arith.sub (BitVec.allOnes 64) x).Wraps := by
  show ¬ (BitVec.allOnes 64).toNat < x.toNat
  rw [BitVec.toNat_allOnes]
  omega

theorem turnOps_iff {m : Image} {p : Phdr} (hsum : m.size.toNat + p.memsz.toNat < 2 ^ 64) :
    (∀ a ∈ turnOps m p, ¬ a.Wraps) ↔ (m.maxPaddr < p.paddr → p.paddr.toNat + p.memsz.toNat < 2 ^ 32) := by
  have hsize : ¬ (Arith.add m.size (p.memsz.zeroExtend 64)).Wraps := by
    show ¬ 2 ^ 64 ≤ m.size.toNat + (p.memsz.zeroExtend 64).toNat
    rw [BitVec.toNat_setWidth_of_le (by omega)]
    omega
  unfold turnOps
  by_cases h : p.paddr > m.maxPaddr
  · rw [if_pos h]
    constructor
    · intro hall _
      exact Nat.lt_of_not_le (hall (.add p.paddr p.memsz) (.tail _ (.head _)))
    · intro hfit a ha
      rcases ha with _ | ⟨_, _ | ⟨_, _ | ⟨_, ha⟩⟩⟩
      · exact rest_fits (p.paddr.zeroExtend 64)
      · exact Nat.not_le_of_lt (hfit h)
      · exact hsize
      · exact absurd ha List.not_mem_nil
  · rw [if_neg h]
    refine ⟨fun _ hlt => absurd hlt h, fun _ a ha => ?_⟩
    rw [List.mem_singleton.mp ha]
    exact hsize

theorem maxPaddr_turn_lt (m : Image) (p : Phdr) (x : BitVec 32) :
    (turn m p).maxPaddr < x ↔ m.maxPaddr < x ∧ p.paddr < x := by
  show (if p.paddr > m.maxPaddr then p.paddr else m.maxPaddr) < x ↔ _
  split <;> bv_omega

/-- Only the sum of an address and a size, in 32 bits, can wrap in the loop. -/
theorem loopOps_iff (l : List Phdr) (m : Image) (hsum : m.size.toNat + (l.map fun p => p.memsz.toNat).sum < 2 ^ 64) :
    (∀ a ∈ loopOps m l, ¬ a.Wraps) ↔ ∀ a p b, l = a ++ p :: b → m.maxPaddr < p.paddr → (∀ q ∈ a, q.paddr < p.paddr) →
      p.paddr.toNat + p.memsz.toNat < 2 ^ 32 := by
  induction l generalizing m with
  | nil => exact ⟨fun _ a p b h => absurd h.symm (by simp), fun _ a ha => absurd ha List.not_mem_nil⟩
  | cons p l ih =>
    rw [List.map_cons, List.sum_cons] at hsum
    have hturn : (turn m p).size.toNat = m.size.toNat + p.memsz.toNat := by
      show (m.size + p.memsz.zeroExtend 64).toNat = _
      rw [BitVec.toNat_add, BitVec.toNat_setWidth_of_le (by omega), Nat.mod_eq_of_lt (by omega)]
    have htail := ih (turn m p) (by omega)
    have hhead := turnOps_iff (m := m) (p := p) (by omega)
    constructor
    · rintro hall (_ | ⟨p', a⟩) q b heq hmax hbefore
      · obtain ⟨rfl, rfl⟩ := List.cons.inj heq
        exact hhead.mp (fun x hx => hall x (List.mem_append_left _ hx)) hmax
      · obtain ⟨rfl, rfl⟩ := List.cons.inj heq
        refine htail.mp (fun x hx => hall x (List.mem_append_right _ hx)) a q b rfl ?_ fun x hx => hbefore x (.tail _ hx)
        exact (maxPaddr_turn_lt m p q.paddr).mpr ⟨hmax, hbefore p (.head _)⟩
    · intro hfit x hx
      rcases List.mem_append.mp hx with hx | hx
      · exact hhead.mpr (hfit [] p l rfl · fun q hq => absurd hq List.not_mem_nil) x hx
      · refine htail.mpr (fun a q b heq hmax hbefore => ?_) x hx
        have hlt := (maxPaddr_turn_lt m p q.paddr).mp hmax
        refine hfit (p :: a) q b (congrArg (p :: ·) heq) hlt.1 fun y hy => ?_
        rcases List.mem_cons.mp hy with rfl | hy
        · exact hlt.2
        · exact hbefore y hy

theorem loop_fits_iff (hn : md.phdrs.length < 2 ^ 16) (stack : BitVec 64) :
    (∀ a ∈ loopOps { endAddr := stack } md.phdrs, ¬ a.Wraps) ↔ RisersFit md := by
  have hsum : (0 : BitVec 64).toNat + imageSize md < 2 ^ 64 := by
    have := imageSize_lt hn
    rw [show (0 : BitVec 64).toNat = 0 from rfl]
    omega
  rw [loopOps_iff md.phdrs { endAddr := stack } hsum]
  refine ⟨fun h a p b heq hbefore => ?_, fun h a p b heq _ hbefore => h a p b heq hbefore⟩
  by_cases hp : p.paddr = 0
  · rw [hp, show (0 : BitVec 32).toNat = 0 from rfl]
    have := p.memsz.isLt
    omega
  · exact h a p b heq (show (0 : BitVec 32) < p.paddr by bv_omega) hbefore

/-- Nothing wraps before or after the loop if the metadata fits. -/
theorem around_fits (hn : md.phdrs.length < 2 ^ 16) (hfits : Fits r md) {a : Arith} (ha : a ∈ ops r md stack) :
    a ∈ loopOps { endAddr := stack } md.phdrs ∨ ¬ a.Wraps := by
  have hmdata := toNat_pageRoundUp md.size hfits.round
  have hsize := hfits.size
  have hoff : (r.size - pageRoundUp md.size).toNat = offset r md := by
    rw [BitVec.toNat_sub_of_le (by rw [BitVec.le_def, hmdata]; omega), hmdata]
    rfl
  rcases List.mem_cons.mp ha with rfl | ha
  · exact .inr (Nat.not_le_of_lt hfits.round)
  rcases List.mem_append.mp ha with ha | ha
  · exact .inl ha
  refine .inr ?_
  rcases ha with _ | ⟨_, _ | ⟨_, _ | ⟨_, _ | ⟨_, _ | ⟨_, _ | ⟨_, _ | ⟨_, ha⟩⟩⟩⟩⟩⟩⟩
  · exact rest_fits _
  · show ¬ 2 ^ 64 ≤ _
    rw [toNat_size hn, hmdata]
    have := r.size.isLt
    omega
  · show ¬ r.size.toNat < _
    rw [hmdata]
    omega
  · exact rest_fits _
  · exact rest_fits _
  · show ¬ 2 ^ 64 ≤ _
    rw [toNat_start, hoff]
    exact Nat.not_le_of_lt hfits.start
  · show ¬ 2 ^ 64 ≤ _
    rw [hoff]
    exact Nat.not_le_of_lt hfits.virt
  · exact absurd ha List.not_mem_nil

/-- Where the metadata fits, its copy is exactly at the end of the region. -/
theorem exact_of_fits (hfits : Fits r md) {off : BitVec 64} (hoff : off.toNat = offset r md) : Exact r md off := by
  have hends := fits_offset hfits
  refine ⟨by rw [hoff, hends], hfits.size, fun k hk => ?_⟩
  have hle : md.size.toNat ≤ roundUp md.size.toNat := by
    unfold roundUp
    omega
  rw [BitVec.toNat_add, hoff, Nat.mod_eq_of_lt hfits.virt]
  omega

/-- A run that copies the metadata copies it to the end of the region, and only
the end of a segment, in 32 bits, can wrap in it. -/
theorem arithmetic_exact_iff (hn : md.phdrs.length < 2 ^ 16) {off : BitVec 64} {log : List Arith}
    (h : placing r md stack [] = some (off, log)) :
    (∀ a ∈ log, ¬ a.Wraps) ∧ (off ≠ 0 → Exact r md off) ↔ RisersFit md := by
  rw [placing_eq] at h
  obtain ⟨off', hput, heq⟩ := Option.map_eq_some_iff.mp h
  obtain ⟨rfl, rfl⟩ := Prod.mk.inj heq
  obtain ⟨hfits, -, hoff⟩ := (placeMetadata_eq hn off').mp hput
  rw [← loop_fits_iff hn stack]
  constructor
  · rintro ⟨hall, -⟩ a ha
    exact hall a (List.mem_cons_of_mem _ (List.mem_append_left _ ha))
  · intro hloop
    refine ⟨fun a ha => ?_, fun _ => exact_of_fits hfits hoff⟩
    rcases around_fits hn hfits ha with ha | hfit
    · exact hloop a ha
    · exact hfit

theorem twoSegments_exact :
    ∃ log, placing fivePages twoSegments 0 [] = some (0x4000, log) ∧ (∀ a ∈ log, ¬ a.Wraps) ∧
      ((0x4000 : BitVec 64) ≠ 0 → Exact fivePages twoSegments 0x4000) := by
  have hrun : placing fivePages twoSegments 0 [] = some (0x4000, _) := placing_eq
  refine ⟨_, hrun, (arithmetic_exact_iff (by decide) hrun).mpr fun a p b heq _ => ?_⟩
  have hends : ∀ p ∈ twoSegments.phdrs, p.paddr.toNat + p.memsz.toNat < 2 ^ 32 := by decide
  exact hends p (by rw [heq]; simp)

/-- A segment that starts in the last page of 32 bits, and ends behind it. -/
def wrapping : Metadata :=
  { phdrs := [{ flags := QCOM_MDT_RELOCATABLE, paddr := 0xfffff000, memsz := 0x2000 }], size := 0x1000 }

/-- The metadata is copied, with 0x1000 for the end of the image. -/
theorem wrapping_copied : ¬ ∀ r md stack off log, md.phdrs.length < 2 ^ 16 → placing r md stack [] = some (off, log) →
    (∀ a ∈ log, ¬ a.Wraps) ∧ (off ≠ 0 → Exact r md off) := by
  intro h
  have hrun : placing fivePages wrapping 0 [] = some (0x4000, _) := placing_eq
  have hsum : Arith.add (0xfffff000 : BitVec 32) 0x2000 ∈ ops fivePages wrapping 0 := .tail _ (.tail _ (.head _))
  refine (h fivePages wrapping 0 0x4000 _ (by decide) hrun).1 _ hsum ?_
  show 2 ^ 32 ≤ 0xfffff000 + 0x2000
  decide

end GH.Proof.Metadata
