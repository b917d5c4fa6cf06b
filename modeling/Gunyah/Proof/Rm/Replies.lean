import Gunyah.Proof.Rm.Reads
import Gunyah.Spec.Rm.Replies

/-!
# Replies with entries

The walk over the entries of `VM_GET_ID` reads the size of an entry before it is known to be there,
and adds it to `resp_entries_size`, which only grows: the sum is the size of the payload exactly where
the entries tile it (`respEntriesSize_val`), but the walk stays inside only where all their headers do
(`respEntriesSize_below`). The lookups do not look at the size, `gh_rm_vm_get_hyp_res` looks at it
first (`replies_inside_iff`).
-/

namespace GH.Proof.Rm

open GH.Impl GH.Impl.Rm GH.Impl.Rm.Replies GH.Spec.Rm GH.Spec.Rm.Replies

/-! ## Entries of `VM_GET_ID` -/

/-- The size of the entry at an offset. -/
def sizeAt (m : List Byte) (off : Nat) : Nat := 4 + roundUp4 ((readU16 (off + 2)).val m).toNat

/-- The size of the entry that the bytes begin with. -/
def entrySize (bs : List Byte) : Nat := sizeAt bs 0

theorem le_roundUp4 {n : Nat} (h : n < 2 ^ 16) : n ≤ roundUp4 n ∧ roundUp4 n ≤ 2 ^ 16 := by
  unfold roundUp4
  omega

theorem sizeAt_le (m : List Byte) (off : Nat) : 4 ≤ sizeAt m off ∧ sizeAt m off ≤ 4 + 2 ^ 16 := by
  have := (le_roundUp4 ((readU16 (off + 2)).val m).isLt).2
  unfold sizeAt
  omega

theorem idEntry_length (e : IdEntry) : e.bytes.length = 4 + roundUp4 e.idInfo.length := by
  have := e.padded
  simp only [IdEntry.bytes, u16Of, u16Bytes, List.length_append, List.length_cons, List.length_nil]
  omega

theorem idEntry_size (e : IdEntry) (rest : List Byte) : (readU16 2).val (e.bytes ++ rest) = BitVec.ofNat 16 e.idInfo.length := by
  simp only [IdEntry.bytes, u16Of, List.append_assoc]
  exact getU16_append [e.idType, e.reserved] (e.idInfo ++ (e.padding ++ rest)) _

theorem entrySize_bytes (e : IdEntry) (rest : List Byte) : entrySize (e.bytes ++ rest) = e.bytes.length := by
  rw [entrySize, sizeAt, idEntry_size, BitVec.toNat_ofNat, Nat.mod_eq_of_lt e.length_lt, idEntry_length]

theorem exists_header {bs : List Byte} (h : 4 ≤ bs.length) : ∃ a b c d tl, bs = a :: b :: c :: d :: tl := by
  match bs, h with
  | a :: b :: c :: d :: tl, _ => exact ⟨a, b, c, d, tl, rfl⟩

/-- The bytes of an entry, if all of them are there. -/
theorem exists_idEntry {bs : List Byte} (h : entrySize bs ≤ bs.length) :
    ∃ e : IdEntry, bs = e.bytes ++ bs.drop (entrySize bs) := by
  obtain ⟨a, b, c, d, tl, rfl⟩ := exists_header (Nat.le_trans (sizeAt_le _ 0).1 h)
  have hsize : entrySize (a :: b :: c :: d :: tl) = roundUp4 (d ++ c).toNat + 4 := Nat.add_comm _ _
  have hu16 : u16Of (d ++ c).toNat = [c, d] := by
    rw [u16Of, BitVec.ofNat_toNat, BitVec.setWidth_eq, u16Bytes, BitVec.extractLsb'_append_eq_right,
      BitVec.extractLsb'_append_eq_left]
  have hlt : (d ++ c).toNat < 2 ^ 16 := (d ++ c).isLt
  rw [hsize] at h ⊢
  generalize (d ++ c).toNat = n at h hu16 hlt ⊢
  obtain ⟨hle, -⟩ := le_roundUp4 hlt
  simp only [List.length_cons] at h
  have hlen : (tl.take n).length = n := List.length_take_of_le (by omega)
  have hpad : ((tl.drop n).take (roundUp4 n - n)).length = roundUp4 n - n :=
    List.length_take_of_le (by rw [List.length_drop]; omega)
  have hdrop : tl.drop (roundUp4 n) = (tl.drop n).drop (roundUp4 n - n) := by
    rw [List.drop_drop, Nat.add_sub_cancel' hle]
  refine ⟨⟨a, b, tl.take n, (tl.drop n).take (roundUp4 n - n), hlen.symm ▸ hlt, ?_⟩, ?_⟩
  · rw [hlen, hpad, Nat.add_sub_cancel' hle]
  · simp only [IdEntry.bytes, hlen, hu16, List.drop_succ_cons, hdrop, List.append_assoc, List.take_append_drop]
    rfl

theorem idEntries_zero (bs : List Byte) : IdEntries 0 bs ↔ bs = [] := by
  simp [IdEntries]

theorem idEntries_succ (n : Nat) (bs : List Byte) :
    IdEntries (n + 1) bs ↔ entrySize bs ≤ bs.length ∧ IdEntries n (bs.drop (entrySize bs)) := by
  constructor
  · rintro ⟨es, hlen, hbs⟩
    obtain ⟨e, es, rfl⟩ := List.exists_cons_of_length_eq_add_one hlen
    rw [List.flatMap_cons] at hbs
    have hsize : entrySize bs = e.bytes.length := by rw [hbs, entrySize_bytes]
    rw [hsize, hbs, List.drop_left]
    exact ⟨by simp, es, Nat.succ.inj hlen, rfl⟩
  · rintro ⟨hle, es, hlen, hbs⟩
    obtain ⟨e, he⟩ := exists_idEntry hle
    exact ⟨e :: es, by rw [List.length_cons, hlen], by rw [List.flatMap_cons, ← hbs, ← he]⟩

theorem idHeaders_zero (bs : List Byte) : IdHeaders 0 bs := .inl rfl

theorem idHeaders_succ (n : Nat) (bs : List Byte) :
    IdHeaders (n + 1) bs ↔ 4 ≤ bs.length ∧ IdHeaders n (bs.drop (entrySize bs)) := by
  constructor
  · rintro (h | ⟨es, hdr, rest, hlen, hhdr, hbs⟩)
    · nomatch h
    · cases es with
      | nil =>
        cases Nat.succ.inj hlen
        exact ⟨by rw [hbs]; simp [hhdr], idHeaders_zero _⟩
      | cons e es =>
        rw [List.flatMap_cons, List.append_assoc, List.append_assoc] at hbs
        have hsize : entrySize bs = e.bytes.length := by rw [hbs, entrySize_bytes]
        rw [hsize, hbs, List.drop_left]
        refine ⟨by rw [List.length_append, idEntry_length]; omega, .inr ⟨es, hdr, rest, Nat.succ.inj hlen, hhdr, ?_⟩⟩
        rw [List.append_assoc]
  · rintro ⟨hle, h | ⟨es, hdr, rest, hlen, hhdr, hbs⟩⟩
    · subst h
      exact .inr ⟨[], bs.take 4, bs.drop 4, rfl, List.length_take_of_le hle, by simp⟩
    · have hsize : entrySize bs ≤ bs.length := by
        have hlen' := congrArg List.length hbs
        simp only [List.length_drop, List.length_append, hhdr] at hlen'
        omega
      obtain ⟨e, he⟩ := exists_idEntry hsize
      refine .inr ⟨e :: es, hdr, rest, by rw [List.length_cons, hlen], hhdr, ?_⟩
      rw [List.flatMap_cons, List.append_assoc, List.append_assoc, ← List.append_assoc (es.flatMap _), ← hbs, ← he]

/-! ## The walk of `gh_rm_vm_get_id` -/

section Walk

variable (p behind : List Byte)

/-- Where the header of an entry is in the payload, its size is read from there. -/
theorem sizeAt_drop (off : Nat) (h : off + 3 < p.length) : sizeAt (p ++ behind) off = entrySize (p.drop off) := by
  rw [sizeAt, readU16_append_left behind h]
  simp only [entrySize, sizeAt, ReadM.val, readU16, List.getD_eq_getElem?_getD, List.getElem?_drop]

theorem respEntriesSize_below (n off size : Nat) :
    Below (p ++ behind) p.length (respEntriesSize n off size) ↔ IdHeaders n (p.drop off) := by
  induction n generalizing off size with
  | zero => simp [respEntriesSize, idHeaders_zero]
  | succ n ih =>
    rw [respEntriesSize, below_bind, below_readU16, idHeaders_succ, List.length_drop, List.drop_drop]
    have hlen : off + 2 + 1 < p.length ↔ 4 ≤ p.length - off := by omega
    rw [hlen]
    refine and_congr_right fun h4 => ?_
    rw [ih, ← sizeAt_drop p behind off (by omega)]
    rfl

/-- The sum does not wrap. -/
theorem respEntriesSize_succ (m : List Byte) {n off size : Nat} (h : size + (n + 1) * (4 + 2 ^ 16) < 2 ^ 64) :
    (respEntriesSize (n + 1) off size).val m = (respEntriesSize n (off + sizeAt m off) (size + sizeAt m off)).val m := by
  have hadd : sizeAdd size (sizeAt m off) = size + sizeAt m off := by
    have := (sizeAt_le m off).2
    exact if_pos (by omega)
  rw [← hadd]
  rfl

theorem respEntriesSize_bounds (m : List Byte) (n off size : Nat) (h : size + n * (4 + 2 ^ 16) < 2 ^ 64) :
    size ≤ (respEntriesSize n off size).val m ∧ (respEntriesSize n off size).val m ≤ size + n * (4 + 2 ^ 16) := by
  induction n generalizing off size with
  | zero => simp [respEntriesSize]
  | succ n ih =>
    have hle := sizeAt_le m off
    have := ih (off + sizeAt m off) (size + sizeAt m off) (by omega)
    rw [respEntriesSize_succ m h]
    omega

/-- The sum is the size of the rest of the payload exactly where the entries tile it. -/
theorem respEntriesSize_val (n off size : Nat) (h : size + n * (4 + 2 ^ 16) < 2 ^ 64) (hoff : off ≤ p.length) :
    (respEntriesSize n off size).val (p ++ behind) = size + (p.length - off) ↔ IdEntries n (p.drop off) := by
  induction n generalizing off size with
  | zero =>
    rw [idEntries_zero, List.drop_eq_nil_iff, respEntriesSize, ReadM.val_pure]
    omega
  | succ n ih =>
    have hle := sizeAt_le (p ++ behind) off
    rw [respEntriesSize_succ _ h, idEntries_succ, List.length_drop, List.drop_drop]
    by_cases hin : off + sizeAt (p ++ behind) off ≤ p.length
    · have hsize := sizeAt_drop p behind off (by omega)
      have hsum : size + (p.length - off) =
          size + sizeAt (p ++ behind) off + (p.length - (off + sizeAt (p ++ behind) off)) := by omega
      rw [hsum, ih _ _ (by omega) hin, ← hsize, and_iff_right (by omega)]
    -- The entry is not all there: the sum is too large already.
    · have hlow := (respEntriesSize_bounds (p ++ behind) n (off + sizeAt (p ++ behind) off)
        (size + sizeAt (p ++ behind) off) (by omega)).1
      refine iff_of_false (by omega) fun hright => ?_
      by_cases h4 : off + 3 < p.length
      · rw [← sizeAt_drop p behind off h4] at hright
        omega
      · have hfour : 4 ≤ entrySize (p.drop off) := (sizeAt_le _ 0).1
        omega

end Walk

/-! ## Payloads -/

theorem readU32_append_left {p : List Byte} (behind : List Byte) (h : 3 < p.length) :
    (readU32 0).val (p ++ behind) = (readU32 0).val p := by
  match p with
  | a :: b :: c :: d :: tl => rfl
  | [] | [_] | [_, _] | [_, _, _] => simp at h

theorem u32Bytes_read {p : List Byte} (h : 3 < p.length) : u32Bytes ((readU32 0).val p) ++ p.drop 4 = p := by
  match p with
  | a :: b :: c :: d :: tl =>
    have hbytes : u32Bytes (d ++ c ++ b ++ a) = [a, b, c, d] := by
      rw [u32Bytes, BitVec.extractLsb'_append_eq_right]
      simp only [BitVec.extractLsb'_append_eq_ite]
      simp
    exact congrArg (· ++ tl) hbytes
  | [] | [_] | [_, _] | [_, _, _] => simp at h

theorem tiles_iff (entries : Nat → List Byte → Prop) (p : List Byte) :
    Tiles entries p ↔ 3 < p.length ∧ entries ((readU32 0).val p).toNat (p.drop 4) := by
  constructor
  · rintro ⟨n, bs, hbs, rfl⟩
    refine ⟨by simp [u32Bytes], ?_⟩
    rwa [readU32_append]
  · rintro ⟨hlen, hright⟩
    exact ⟨_, _, hright, (u32Bytes_read hlen).symm⟩

/-! ## The copy of the entries -/

section Copy

variable (alloc : Bool) (m : List Byte) (off n : Nat)

theorem kmemdup_below {size : Nat} (h : off + n ≤ size) : Below m size (kmemdup alloc off n) := by
  unfold kmemdup
  split
  · rw [below_bind]
    exact ⟨below_readBytes m size h, below_pure m size _⟩
  · exact below_pure m size _

/-- What is left of the functions once the payload is found right. -/
def copyReply (k : BitVec 32) : ReadM (Except Int (BitVec 32 × List Byte)) := do
  match ← kmemdup alloc off n with
  | none => return .error (-ENOMEM)
  | some entries => return .ok (k, entries)

theorem copyReply_below (k : BitVec 32) {size : Nat} (h : off + n ≤ size) : Below m size (copyReply alloc off n k) := by
  rw [copyReply, below_bind]
  refine ⟨kmemdup_below alloc m off n h, ?_⟩
  split <;> exact below_pure m size _

theorem copyReply_accepted (k : BitVec 32) : Accepted ((copyReply alloc off n k).val m) := by
  rw [copyReply, ReadM.val_bind]
  split
  · exact .inr rfl
  · exact .inl ⟨_, rfl⟩

theorem copyReply_ok (k : BitVec 32) {k' : BitVec 32} {entries : List Byte}
    (h : (copyReply alloc off n k).val m = .ok (k', entries)) : k' = k ∧ entries = (m.drop off).take n := by
  rw [copyReply, ReadM.val_bind, kmemdup] at h
  by_cases hok : alloc ∧ n ≤ KMALLOC_MAX_SIZE
  · rw [if_pos hok] at h
    cases h
    exact ⟨rfl, rfl⟩
  · rw [if_neg hok] at h
    nomatch h

theorem not_accepted_einval : ¬ Accepted (.error (-EINVAL) : Except Int (BitVec 32 × List Byte)) := by
  rintro (⟨_, h⟩ | h)
  · nomatch h
  · exact absurd h (by decide)

end Copy

/-! ## The functions -/

section Replies

variable (alloc : Bool) (p behind : List Byte)

/-- The sum is more than the size of a payload that is too short to have a number of entries. -/
theorem sum_eq_iff (h : 3 < p.length) :
    (respEntriesSize ((readU32 0).val p).toNat 4 0).val (p ++ behind) = sizeSub p.length 4 ↔ Tiles IdEntries p := by
  have hlt := ((readU32 0).val p).isLt
  have hval := respEntriesSize_val p behind ((readU32 0).val p).toNat 4 0 (by omega) (by omega)
  have hsub : sizeSub p.length 4 = p.length - 4 := if_pos h
  rw [hsub, ← Nat.zero_add (p.length - 4), hval, tiles_iff, and_iff_right h]

theorem sum_ne (n : BitVec 32) (h : ¬ 3 < p.length) : (respEntriesSize n.toNat 4 0).val (p ++ behind) ≠ sizeSub p.length 4 := by
  have hlt := n.isLt
  have hle := (respEntriesSize_bounds (p ++ behind) n.toNat 4 0 (by omega)).2
  have hsub : sizeSub p.length 4 = 2 ^ 64 + p.length - 4 := if_neg (by omega)
  omega

theorem getIdReply_eq (size : Nat) : getIdReply alloc size = (do
    let nIdEntries ← readU32 0
    let entriesSize ← respEntriesSize nIdEntries.toNat 4 0
    if entriesSize ≠ sizeSub size 4 then return .error (-EINVAL) else copyReply alloc 4 entriesSize nIdEntries) := rfl

theorem getIdReply_below : Below (p ++ behind) p.length (getIdReply alloc p.length) ↔ Tiles IdHeaders p := by
  rw [getIdReply_eq, below_bind, below_bind, below_readU32, tiles_iff]
  refine and_congr_right fun h => ?_
  rw [readU32_append_left behind h, respEntriesSize_below]
  refine and_iff_left ?_
  split
  · exact below_pure _ _ _
  · rename_i heq
    have hsub : sizeSub p.length 4 = p.length - 4 := if_pos h
    rw [not_not, hsub] at heq
    exact copyReply_below _ _ _ _ _ (by omega)

theorem getIdReply_accepted : Accepted ((getIdReply alloc p.length).val (p ++ behind)) ↔ Tiles IdEntries p := by
  rw [getIdReply_eq, ReadM.val_bind, ReadM.val_bind]
  by_cases h : 3 < p.length
  · rw [readU32_append_left behind h]
    by_cases heq : (respEntriesSize ((readU32 0).val p).toNat 4 0).val (p ++ behind) = sizeSub p.length 4
    · rw [if_neg (not_not.mpr heq)]
      exact iff_of_true (copyReply_accepted _ _ _ _ _) ((sum_eq_iff p behind h).mp heq)
    · rw [if_pos heq]
      exact iff_of_false not_accepted_einval (mt (sum_eq_iff p behind h).mpr heq)
  · rw [if_pos (sum_ne p behind _ h)]
    exact iff_of_false not_accepted_einval fun ht => h ((tiles_iff _ _).mp ht).1

/-- What is copied of an accepted payload is its entries. -/
theorem getIdReply_ok {n : BitVec 32} {entries : List Byte}
    (h : (getIdReply alloc p.length).val (p ++ behind) = .ok (n, entries)) : IdEntries n.toNat entries := by
  obtain ⟨k, bs, hbs, rfl⟩ := (getIdReply_accepted alloc p behind).mp (.inl ⟨_, h⟩)
  have hlen : 3 < (u32Bytes k ++ bs).length := by simp [u32Bytes]
  have hsum := (sum_eq_iff (u32Bytes k ++ bs) behind hlen).mpr ⟨k, bs, hbs, rfl⟩
  have hsub : sizeSub (u32Bytes k ++ bs).length 4 = bs.length := if_pos hlen
  rw [readU32_append, hsub] at hsum
  rw [getIdReply_eq, ReadM.val_bind, ReadM.val_bind, readU32_append_left behind hlen, readU32_append, hsum, hsub,
    if_neg (not_not.mpr rfl)] at h
  obtain ⟨rfl, rfl⟩ := copyReply_ok _ _ _ _ _ h
  simpa [u32Bytes] using hbs

theorem lookupReply_below : Below (p ++ behind) p.length lookupReply ↔ Tiles Replies.OneVmid p := by
  rw [lookupReply, below_bind, below_readU32, tiles_iff]
  refine and_congr_right fun h => ?_
  rw [readU32_append_left behind h, Replies.OneVmid, List.length_drop]
  have hone : ((readU32 0).val p).toNat = 1 ↔ (readU32 0).val p = 1 := BitVec.toNat_inj (y := 1)
  split
  · rename_i h1
    rw [below_bind, below_readU16, hone, forall_prop_of_true h1]
    have hpure := below_pure (p ++ behind) p.length ((0 : Int), some ((readU16 4).val (p ++ behind)))
    rw [and_iff_left hpure]
    omega
  · rename_i h1
    rw [hone]
    exact iff_of_true (below_pure _ _ _) fun h1' => absurd h1' h1

theorem hypResEntries_iff (n : Nat) (bs : List Byte) : HypResEntries n bs ↔ bs.length = HYP_RES_ENTRY_SIZE * n := by
  unfold HypResEntries HYP_RES_ENTRY_SIZE
  induction n generalizing bs with
  | zero =>
    rw [Nat.mul_zero, List.length_eq_zero_iff]
    constructor
    · rintro ⟨es, hlen, -, rfl⟩
      rw [List.length_eq_zero_iff.mp hlen, List.flatten_nil]
    · rintro rfl
      exact ⟨[], rfl, nofun, rfl⟩
  | succ n ih =>
    constructor
    · rintro ⟨es, hlen, hes, rfl⟩
      obtain ⟨e, es, rfl⟩ := List.exists_cons_of_length_eq_add_one hlen
      have hrest := (ih es.flatten).mp ⟨es, Nat.succ.inj hlen, fun e he => hes e (List.mem_cons_of_mem _ he), rfl⟩
      rw [List.flatten_cons, List.length_append, hes e List.mem_cons_self, hrest]
      omega
    · intro hlen
      obtain ⟨es, hes, hall, hbs⟩ := (ih (bs.drop 44)).mpr (by rw [List.length_drop]; omega)
      refine ⟨bs.take 44 :: es, by rw [List.length_cons, hes], List.forall_mem_cons.mpr ⟨?_, hall⟩, ?_⟩
      · exact List.length_take_of_le (by omega)
      · rw [List.flatten_cons, ← hbs, List.take_append_drop]

/-- The checks of `gh_rm_vm_get_hyp_res`, none of which wraps. -/
theorem hypResSizeInvalid_iff (n : BitVec 32) (size : Nat) :
    hypResSizeInvalid n size = false ↔ size = 4 + HYP_RES_ENTRY_SIZE * n.toNat ∧ size ≤ U32_MAX := by
  have hchecks : hypResSizeInvalid n size = false ↔ ¬ n.toNat > U32_MAX / HYP_RES_ENTRY_SIZE ∧
      ¬ 4 > sizeSub U32_MAX (n.toNat * HYP_RES_ENTRY_SIZE) ∧ size = 4 + n.toNat * HYP_RES_ENTRY_SIZE := by
    simp [hypResSizeInvalid, and_assoc]
  rw [hchecks, sizeSub]
  unfold U32_MAX HYP_RES_ENTRY_SIZE
  split <;> omega

theorem getHypResReply_eq (size : Nat) : getHypResReply alloc size =
    if size < 4 then return .error (-EINVAL)
    else (do
      let nResourceEntries ← readU32 0
      if hypResSizeInvalid nResourceEntries size then return .error (-EINVAL)
      else copyReply alloc 4 (HYP_RES_ENTRY_SIZE * nResourceEntries.toNat) nResourceEntries) := rfl

theorem getHypResReply_below : Below (p ++ behind) p.length (getHypResReply alloc p.length) := by
  rw [getHypResReply_eq]
  by_cases h : p.length < 4
  · rw [if_pos h]
    exact below_pure _ _ _
  · rw [if_neg h, below_bind, below_readU32]
    refine ⟨by omega, ?_⟩
    split
    · exact below_pure _ _ _
    · rename_i hok
      have hsize := (hypResSizeInvalid_iff _ _).mp (Bool.not_eq_true _ ▸ hok)
      exact copyReply_below _ _ _ _ _ (by omega)

theorem getHypResReply_accepted :
    Accepted ((getHypResReply alloc p.length).val (p ++ behind)) ↔ Tiles HypResEntries p ∧ p.length ≤ U32_MAX := by
  rw [getHypResReply_eq, tiles_iff, hypResEntries_iff, List.length_drop]
  by_cases h : p.length < 4
  · rw [if_pos h]
    exact iff_of_false not_accepted_einval fun ht => by omega
  · rw [if_neg h, ReadM.val_bind, readU32_append_left behind (by omega)]
    by_cases hok : hypResSizeInvalid ((readU32 0).val p) p.length = false
    · rw [hok, if_neg Bool.false_ne_true]
      obtain ⟨hlen, hle⟩ := (hypResSizeInvalid_iff _ _).mp hok
      exact iff_of_true (copyReply_accepted _ _ _ _ _) ⟨⟨by omega, by omega⟩, hle⟩
    · rw [if_pos (Bool.not_eq_false _ ▸ hok)]
      refine iff_of_false not_accepted_einval fun ht => hok ((hypResSizeInvalid_iff _ _).mpr ?_)
      obtain ⟨⟨-, hlen⟩, hle⟩ := ht
      exact ⟨by omega, hle⟩

end Replies

/-! ## Replies -/

section

variable {α : Type} (err : Int → α) (o : Out) (x : Nat → ReadM α) (p behind : List Byte)

theorem readReply_some : readReply err o (reply (some p) behind).callRet x = x p.length (p ++ behind) := rfl

end

theorem accepted_null : ¬ Accepted (.error 0 : Except Int (BitVec 32 × List Byte)) := by
  rintro (⟨_, h⟩ | h)
  · nomatch h
  · exact absurd h (by decide)

/-- A function that reads its reply, and the condition under which it stays inside it and accepts what it is to. -/
theorem readsRight_iff {entries : Nat → List Byte → Prop} {x : Nat → ReadM (Except Int (BitVec 32 × List Byte))} {o : Out}
    {behind : List Byte} {right : List Byte → Prop} (p : Option (List Byte))
    (h : ∀ q, (Below (q ++ behind) q.length (x q.length) ∧
      (Accepted ((x q.length).val (q ++ behind)) ↔ Tiles entries q)) ↔ right q) :
    ReadsRight entries (readReply .error o (reply p behind).callRet x) p ↔ ∀ q ∈ p, right q := by
  cases p with
  | none =>
    refine iff_of_true ⟨nofun, iff_of_false accepted_null ?_⟩ nofun
    rintro ⟨q, hq, -⟩
    nomatch hq
  | some q =>
    have hsome : (∃ q', some q = some q' ∧ Tiles entries q') ↔ Tiles entries q := by simp
    rw [ReadsRight, readReply_some, hsome]
    refine (h q).trans ⟨?_, fun hright => hright q rfl⟩
    intro hright q' hq'
    cases hq'
    exact hright

/-! ## Staying inside -/

theorem sendRequest_map {α β : Type} (g : α → β) (msgId : BitVec 32) (req : Except Int MemReq) (err : Int → α)
    (cont : CallRet → α) (r : Nat → CallRet) :
    ((sendRequest msgId req (fun e => .ret (err e)) fun r => .ret (cont r)).run r).2.map g =
      ((sendRequest msgId req (fun e => .ret (g (err e))) fun r => .ret (g (cont r))).run r).2 := by
  unfold sendRequest
  split
  · rfl
  · split <;> rfl

theorem lookupReply_val (o : Out) (r : CallRet) : (readReply (·, none) o r fun _ => lookupReply).1 =
    if (r.out o).replyErrCode ≠ 0 ∨ r.isErr ∨ r.payload = none then (r.ptrErr, none)
    else if getU32 (r.payload.getD []) 0 = 1 then (0, some (getU16 (r.payload.getD []) 4)) else (-EINVAL, none) := by
  unfold readReply
  by_cases herr : (r.out o).replyErrCode ≠ 0 ∨ r.isErr
  · rw [if_pos herr, if_pos (herr.imp_right .inl)]
  · rw [if_neg herr]
    cases hp : r.payload with
    | none => rw [if_pos (.inr (.inr rfl))]
    | some p =>
      have hval : (readU32 0).val p = getU32 p 0 := BitVec.append_assoc
      rw [if_neg (by rintro (h | h | h); exacts [herr (.inl h), herr (.inr h), nomatch h])]
      show lookupReply.val p = _
      rw [lookupReply, ReadM.val_bind, hval, Option.getD_some]
      split <;> rfl

/-- With the reads left out, the lookup is that of `GH.Impl.Rm`. -/
theorem lookupNameUri_val (msgId : BitVec 32) (data : Option (List Byte)) (vmid alloc : Bool) (o : Out) (r : Nat → CallRet) :
    ((Replies.ghRmVmLookupNameUri msgId data vmid alloc o).run r).2.map Prod.fst =
      ((Rm.ghRmVmLookupNameUri msgId data vmid alloc o).run r).2 := by
  rw [Replies.ghRmVmLookupNameUri, sendRequest_map]
  simp only [lookupReply_val]
  unfold Rm.ghRmVmLookupNameUri
  congr 3
  funext r
  exact (apply_ite RmCalls.ret _ _ _)

/-- A lookup that makes its call reads its reply with `lookupReply`. -/
theorem lookup_sent (type : LookupType) (data : Option (List Byte)) (vmid alloc : Bool) (o : Out) (r : CallRet)
    (hsent : ((Replies.ghRmVmLookup type data vmid alloc o).run fun _ => r).1 ≠ []) :
    ((Replies.ghRmVmLookup type data vmid alloc o).run fun _ => r).2 =
      some (readReply (·, none) o r fun _ => lookupReply) := by
  have hsend : ∀ msgId, ((Replies.ghRmVmLookupNameUri msgId data vmid alloc o).run fun _ => r).1 ≠ [] →
      ((Replies.ghRmVmLookupNameUri msgId data vmid alloc o).run fun _ => r).2 =
        some (readReply (·, none) o r fun _ => lookupReply) := by
    intro msgId hsent
    unfold Replies.ghRmVmLookupNameUri sendRequest at hsent ⊢
    split at hsent
    · exact absurd rfl hsent
    · split at hsent
      · exact absurd rfl hsent
      · rfl
  cases type with
  | name => exact hsend _ hsent
  | uri => exact hsend _ hsent
  | guid =>
    cases data with
    | none => exact absurd rfl hsent
    | some data =>
      by_cases hlen : data.length = 16
      · have hguid : Replies.ghRmVmLookup .guid (some data) vmid alloc o = Replies.ghRmVmLookupGuid (some data) vmid o :=
          if_neg (not_not.mpr hlen)
        rw [hguid] at hsent ⊢
        cases vmid with
        | false => exact absurd rfl hsent
        | true => rfl
      · have hguid : Replies.ghRmVmLookup .guid (some data) vmid alloc o = .ret ((-EINVAL, none), []) := if_pos hlen
        rw [hguid] at hsent
        exact absurd rfl hsent

/-- Whatever is behind the payload of a reply, `gh_rm_vm_get_id` stays inside and accepts the payloads that entries
tile where the header of each entry is in the payload, the lookups where the number of entries is and the VMID they look
for, and `gh_rm_vm_get_hyp_res` unless the entries take 4 GiB. -/
theorem replies_inside_iff (p : Option (List Byte)) (behind : List Byte) (vmid : VmId) (alloc : Bool) (o : Out)
    (type : LookupType) (data : Option (List Byte)) (out : Bool) :
    (ReadsRight IdEntries ((ghRmVmGetId vmid true alloc o).run (reply p behind).callRet) p ↔ ∀ q ∈ p, Tiles IdHeaders q) ∧
      (((Replies.ghRmVmLookup type data out alloc o).run fun _ => (reply p behind).callRet).1 ≠ [] →
        ((∀ x ∈ ((Replies.ghRmVmLookup type data out alloc o).run fun _ => (reply p behind).callRet).2,
          InPayload x.2 p) ↔ ∀ q ∈ p, Tiles Replies.OneVmid q)) ∧
      (ReadsRight HypResEntries ((ghRmVmGetHypRes vmid true alloc o).run (reply p behind).callRet) p ↔
        ∀ q ∈ p, Tiles HypResEntries q → q.length ≤ U32_MAX) := by
  refine ⟨readsRight_iff p fun q => ?_, fun hsent => ?_, readsRight_iff p fun q => ?_⟩
  · rw [getIdReply_below]
    exact and_iff_left (getIdReply_accepted alloc q behind)
  · rw [lookup_sent type data out alloc o _ hsent]
    cases p with
    | none => exact iff_of_true (fun x hx => by cases hx; exact nofun) nofun
    | some q =>
      rw [readReply_some]
      constructor
      · intro h q' hq'
        cases hq'
        exact (lookupReply_below q behind).mp (h _ rfl)
      · intro h x hx
        cases hx
        exact (lookupReply_below q behind).mpr (h q rfl)
  · rw [getHypResReply_accepted, and_iff_right (getHypResReply_below alloc q behind)]
    exact and_iff_left_iff_imp

/-- A reply with the IDs of two VMs, of two bytes and of four. -/
def twoIds : List Byte := u32Bytes 2 ++ [1, 0, 2, 0, 3, 0, 0, 0] ++ [1, 0, 4, 0, 5, 6, 7, 8]

theorem replies_inside_iff_twoIds :
    ReadsRight IdEntries ((ghRmVmGetId 0 true true ⟨0, 0⟩).run (reply (some twoIds) [9]).callRet) (some twoIds) ∧
      ∀ x ∈ ((Replies.ghRmVmLookup .guid (some (List.replicate 16 0)) true true ⟨0, 0⟩).run fun _ =>
        (reply (some twoIds) [9]).callRet).2, InPayload x.2 (some twoIds) := by
  obtain ⟨hid, hlookup, -⟩ := replies_inside_iff (some twoIds) [9] 0 true ⟨0, 0⟩ .guid (some (List.replicate 16 0)) true
  refine ⟨hid.mpr fun q hq => ?_, (hlookup (by decide)).mpr fun q hq => ?_⟩
  · cases hq
    exact ⟨2, _, .inr ⟨[⟨1, 0, [3, 0], [0, 0], by decide, rfl⟩], [1, 0, 4, 0], [5, 6, 7, 8], rfl, rfl, rfl⟩, rfl⟩
  · cases hq
    exact ⟨2, _, nofun, rfl⟩

/-- A payload of four bytes that is to have an entry: the size of the entry is read from behind it, and so is a VMID. -/
theorem replies_outside :
    ¬ InPayload ((ghRmVmGetId 0 true true ⟨0, 0⟩).run (reply (some (u32Bytes 1)) [0, 0, 0, 0]).callRet).2 (some (u32Bytes 1)) ∧
      ¬ ∀ x ∈ ((Replies.ghRmVmLookup .guid (some (List.replicate 16 0)) true true ⟨0, 0⟩).run fun _ =>
        (reply (some (u32Bytes 1)) [0, 0, 0, 0]).callRet).2, InPayload x.2 (some (u32Bytes 1)) := by
  constructor
  · intro h
    exact absurd (h 6 (by decide)) (by decide)
  · intro h
    exact absurd (h _ rfl 4 (by decide)) (by decide)

end GH.Proof.Rm
