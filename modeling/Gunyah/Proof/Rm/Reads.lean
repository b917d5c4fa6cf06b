import Mathlib.Data.List.GetD
import Gunyah.Impl.Rm.Accept
import Gunyah.Impl.Rm.Notif
import Gunyah.Proof.Rm.MemReq

/-!
# Reading a payload

What a function reads of a payload is put together from what its parts read
(`below_bind`), and a field that is read is what was stored there.
-/

namespace GH.Proof.Rm

open GH.Impl GH.Impl.Rm

/-! ## Where a function reads -/

section Below

variable {α β : Type} (p : List Byte) (n : Nat)

/-- The function reads bytes of the first `n` only. -/
def Below (x : ReadM α) : Prop := ∀ i ∈ x.reads p, i < n

@[simp] theorem below_pure (a : α) : Below p n (pure a) := by
  simp [Below]

@[simp] theorem below_bind (x : ReadM α) (f : α → ReadM β) :
    Below p n (x >>= f) ↔ Below p n x ∧ Below p n (f (x.val p)) := by
  rw [Below, ReadM.reads_bind, List.forall_mem_append]
  rfl

@[simp] theorem below_readU8 (off : Nat) : Below p n (readU8 off) ↔ off < n := by
  simp [Below, ReadM.reads, readU8]

@[simp] theorem below_readU16 (off : Nat) : Below p n (readU16 off) ↔ off + 1 < n := by
  simp only [Below, ReadM.reads, readU16, List.forall_mem_cons, List.not_mem_nil, false_imp_iff, implies_true,
    and_true]
  omega

@[simp] theorem below_readU32 (off : Nat) : Below p n (readU32 off) ↔ off + 3 < n := by
  simp only [Below, ReadM.reads, readU32, List.forall_mem_map, List.mem_range]
  constructor
  · intro h
    exact h 3 (by omega)
  · intro h i hi
    omega

theorem below_readBytes {off k : Nat} (h : off + k ≤ n) : Below p n (readBytes off k) := by
  simp only [Below, ReadM.reads, readBytes, List.forall_mem_map, List.mem_range]
  intro i hi
  omega

end Below

/-! ## What it reads there -/

theorem getU16_append (bs cs : List Byte) (x : BitVec 16) : getU16 (bs ++ (u16Bytes x ++ cs)) bs.length = x := by
  have hlow : (bs ++ (u16Bytes x ++ cs)).getD bs.length 0 = x.extractLsb' 0 8 := by
    simp [List.getD_eq_getElem?_getD, u16Bytes]
  have hhigh : (bs ++ (u16Bytes x ++ cs)).getD (bs.length + 1) 0 = x.extractLsb' 8 8 := by
    simp [List.getD_eq_getElem?_getD, u16Bytes]
  rw [getU16, hlow, hhigh, u16_join]

theorem readU32_append (x : BitVec 32) (cs : List Byte) : (readU32 0).val (u32Bytes x ++ cs) = x := u32_join x

theorem readU16_append_left {p : List Byte} (behind : List Byte) {off : Nat} (h : off + 1 < p.length) :
    (readU16 off).val (p ++ behind) = (readU16 off).val p := by
  simp only [ReadM.val, readU16, List.getD_append _ _ _ _ h, List.getD_append _ _ _ _ (Nat.lt_of_succ_lt h)]

end GH.Proof.Rm
