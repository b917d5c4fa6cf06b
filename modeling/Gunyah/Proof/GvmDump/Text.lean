import Gunyah.Spec.GvmDump

/-!
# The texts about a guest's memory

The locals of a reader are a function of the text that it has made (`ofText`), and
each append adds its piece to the text, fit or not, as long as what is printed starts in
the buffer (`Fits`). So a reader makes the text of all its pieces, if all its checks
find room (`HasRoom`), and returns an error otherwise (`run_cases`).

No check is behind the last piece of a line. For the lines before the last one
the check at the start of the next line makes up for it (`Lines.hasRoom_range`).
-/

namespace GH.Proof.GvmDump

open GH.Impl GH.Impl.GvmDump GH.Impl.GvmDump.GvmRamdumpCtx GH.Spec.GvmDump

variable {size len n : Nat} {text s : List Char} {as ops : List TextOp}

/-- The locals when a text has been made. -/
def ofText (size : Nat) (text : List Char) : Text := ⟨cstr NUL size text, text.length⟩

/-- What an operation appends. -/
def piece : TextOp → List Char
  | .room _ => []
  | .strlcpy s => s
  | .strlcat s => s
  | .snprintf s _ => s

/-- What the operations append where there is room. -/
def appended (ops : List TextOp) : List Char := ops.flatMap piece

theorem appended_cons (op : TextOp) : appended (op :: ops) = piece op ++ appended ops := List.flatMap_cons

theorem appended_append : appended (as ++ ops) = appended as ++ appended ops := List.flatMap_append

/-! ## One operation -/

theorem empty_eq (hs : 0 < size) : Text.empty size = ofText size [] := by
  rw [Text.empty, ofText, cstr_nil hs]
  rfl

theorem step_room : (ofText size text).step size (.room n) =
    if text.length + n < size then .next (ofText size text) else .ret (-1) := by
  by_cases h : text.length + n < size
  · have hno : ¬ (text.length ≥ size ∨ text.length + n ≥ size) := by omega
    rw [Text.step, if_pos h]
    exact if_neg hno
  · have hyes : text.length ≥ size ∨ text.length + n ≥ size := by omega
    rw [Text.step, if_neg h]
    exact if_pos hyes

theorem step_strlcpy (hs : 0 < size) : (ofText size []).step size (.strlcpy s) = .next (ofText size s) := by
  have hput : putCut NUL (cstr NUL size []) 0 size s = some (cstr NUL size s) := putCut_cstr_of_lt hs
  simp only [Text.step, ofText, strlcpy, hput, Text.append, List.length_nil, Nat.zero_add]

theorem step_strlcat (hs : 0 < size) (hnul : NUL ∉ text) :
    (ofText size text).step size (.strlcat s) = .next (ofText size (text ++ s)) := by
  have hlt : ¬ min text.length (size - 1) ≥ size := by omega
  simp only [Text.step, ofText, strlcat, strlen_cstr hs hnul, if_neg hlt, putCut_cstr hs, Text.append, List.length_append]

/-- What is printed starts in the buffer. -/
theorem step_snprintf (hmax : size ≤ INT_MAX) (hlt : text.length < size) (reads : List Access) :
    (ofText size text).step size (.snprintf s reads) = .next (ofText size (text ++ s)) := by
  have hsub : sizeSub size text.length = size - text.length := if_pos (by omega)
  have hint : ¬ size - text.length > INT_MAX := by omega
  simp only [Text.step, ofText, snprintf, hsub, if_neg hint, putCut_cstr_of_lt hlt, Text.append, List.length_append]

/-! ## All operations -/

/-- Each piece that is printed starts in the buffer, if the checks before it find room. -/
def Fits (size : Nat) : Nat → List TextOp → Prop
  | _, [] => True
  | len, .room n :: ops => len + n < size → Fits size len ops
  | len, .strlcpy s :: ops => len = 0 ∧ Fits size (len + s.length) ops
  | len, .strlcat s :: ops => Fits size (len + s.length) ops
  | len, .snprintf s _ :: ops => len < size ∧ Fits size (len + s.length) ops

/-- Each check finds room. -/
def HasRoom (size : Nat) : Nat → List TextOp → Prop
  | _, [] => True
  | len, .room n :: ops => len + n < size ∧ HasRoom size len ops
  | len, .strlcpy s :: ops => HasRoom size (len + s.length) ops
  | len, .strlcat s :: ops => HasRoom size (len + s.length) ops
  | len, .snprintf s _ :: ops => HasRoom size (len + s.length) ops

theorem Fits.left (h : Fits size len (as ++ ops)) : Fits size len as := by
  induction as generalizing len with
  | nil => trivial
  | cons op as ih =>
    cases op with
    | room n => exact fun hroom => ih (h hroom)
    | strlcpy s => exact ⟨h.1, ih h.2⟩
    | strlcat s => exact ih h
    | snprintf s reads => exact ⟨h.1, ih h.2⟩

theorem hasRoom_append : HasRoom size len (as ++ ops) ↔
    HasRoom size len as ∧ HasRoom size (len + (appended as).length) ops := by
  induction as generalizing len with
  | nil => exact ⟨fun h => ⟨trivial, h⟩, fun h => h.2⟩
  | cons op as ih =>
    rw [appended_cons, List.length_append, ← Nat.add_assoc]
    cases op with
    | room n => simp only [List.cons_append, HasRoom, ih, piece, List.length_nil, Nat.add_zero, and_assoc]
    | strlcpy s => exact ih
    | strlcat s => exact ih
    | snprintf s reads => exact ih

/-- The whole text is made, or an error returned. -/
theorem run_cases (text : List Char) (hs : 0 < size) (hmax : size ≤ INT_MAX) (hfits : Fits size text.length ops)
    (htext : NUL ∉ text) (hops : NUL ∉ appended ops) :
    HasRoom size text.length ops ∧ (ofText size text).run size ops = .next (ofText size (text ++ appended ops)) ∨
      ¬ HasRoom size text.length ops ∧ (ofText size text).run size ops = .ret (-1) := by
  induction ops generalizing text with
  | nil => exact Or.inl ⟨trivial, by rw [Text.run, appended, List.flatMap_nil, List.append_nil]⟩
  | cons op ops ih =>
    rw [appended_cons, List.mem_append, not_or] at hops
    have hnul : NUL ∉ text ++ piece op := by
      rw [List.mem_append, not_or]
      exact ⟨htext, hops.1⟩
    rw [appended_cons, ← List.append_assoc]
    cases op with
    | room n =>
      by_cases hroom : text.length + n < size
      · have hnext := ih text (hfits hroom) htext hops.2
        rw [piece, List.append_nil]
        simpa only [Text.run, step_room, if_true, HasRoom, hroom, true_and] using hnext
      · refine Or.inr ⟨fun h => hroom h.1, ?_⟩
        simp only [Text.run, step_room, if_neg hroom]
    | strlcpy s =>
      obtain rfl := List.eq_nil_of_length_eq_zero hfits.1
      have hnext := ih s (by simpa using hfits.2) hops.1 hops.2
      simpa only [Text.run, step_strlcpy hs, HasRoom, List.length_nil, Nat.zero_add, List.nil_append, piece] using hnext
    | strlcat s =>
      have hnext := ih (text ++ s) (by rw [List.length_append]; exact hfits) hnul hops.2
      rw [List.length_append] at hnext
      simpa only [Text.run, step_strlcat hs htext, HasRoom, piece] using hnext
    | snprintf s reads =>
      have hnext := ih (text ++ s) (by rw [List.length_append]; exact hfits.2) hnul hops.2
      rw [List.length_append] at hnext
      simpa only [Text.run, step_snprintf hmax hfits.1, HasRoom, piece] using hnext

/-! ## A reader -/

/-- A reader is right exactly if its checks find room only for a text that fits. -/
theorem readsRight_iff (hs : 0 < size) (hmax : size ≤ INT_MAX) (hfits : Fits size 0 ops) (hops : NUL ∉ appended ops) :
    ReadsRight size ops (readText size ops) (appended ops) ↔ (HasRoom size 0 ops → (appended ops).length < size) := by
  have hrun := run_cases [] hs hmax hfits List.not_mem_nil hops
  rw [← empty_eq hs, List.nil_append, List.length_nil] at hrun
  constructor
  · intro hright hroom
    obtain ⟨-, hnext⟩ | ⟨hnot, -⟩ := hrun
    · have hread : readText size ops ⟨0, 0, 0⟩ = some (readFrom (cstr NUL size (appended ops)) ⟨0, 0, 0⟩) := by
        simp only [readText, hnext, ofText]
      have hzero : (readFrom (cstr NUL size (appended ops)) ⟨0, 0, 0⟩).1 = 0 := by
        simp [readFrom, simpleReadFromBuffer]
      obtain hneg | hwhole := hright.complete _ _ hread
      · omega
      · exact hwhole.1
    · exact absurd hroom hnot
  · intro hlt
    refine ⟨fun req hnone => ?_, fun done todo t hsplit hdone hin => ?_, fun req r hread => ?_⟩
    · obtain ⟨-, hnext⟩ | ⟨-, hret⟩ := hrun
      · simp only [readText, hnext] at hnone
        cases hnone
      · simp only [readText, hret] at hnone
        cases hnone
    · subst hsplit
      rw [appended_append, List.mem_append, not_or] at hops
      have hpart := run_cases [] hs hmax hfits.left List.not_mem_nil hops.1
      rw [← empty_eq hs, List.nil_append, hdone] at hpart
      obtain ⟨-, hnext⟩ | ⟨-, hret⟩ := hpart
      · cases hnext
        exact (strlen_cstr_iff hs hops.1).mpr hin
      · cases hret
    · obtain ⟨hroom, hnext⟩ | ⟨-, hret⟩ := hrun
      · simp only [readText, hnext, Option.some.injEq] at hread
        subst hread
        exact Or.inr ⟨hlt hroom, by rw [ofText, cstr_of_lt (hlt hroom)]⟩
      · simp only [readText, hret, Option.some.injEq] at hread
        subst hread
        exact Or.inl (by decide)

/-! ## The lines -/

/-- The line of a region, with the text that it makes and the last piece of that: its checks
find room for all but the last piece. -/
structure Lines (size : Nat) (line : Nat → List TextOp) (row last : Nat → List Char) : Prop where
  makes : ∀ idx, appended (line idx) = row idx
  fits : ∀ len idx ops, (∀ len, Fits size len ops) → Fits size len (line idx ++ ops)
  hasRoom : ∀ len idx, HasRoom size len (line idx) ↔ len + (row idx).length < size + (last idx).length
  last_le : ∀ idx, (last idx).length ≤ (row idx).length
  nul : ∀ idx, NUL ∉ row idx

/-- What is before the lines, for which there is room. -/
structure Begins (size : Nat) (first : List TextOp) : Prop where
  fits : ∀ ops, (∀ len, Fits size len ops) → Fits size 0 (first ++ ops)
  hasRoom : HasRoom size 0 first
  nul : NUL ∉ appended first
  lt : (appended first).length < size

namespace Lines

variable {line : Nat → List TextOp} {row last : Nat → List Char} {first : List TextOp}

theorem appended_flatMap (h : Lines size line row last) (idxs : List Nat) :
    appended (idxs.flatMap line) = idxs.flatMap row := by
  induction idxs with
  | nil => rfl
  | cons i idxs ih => rw [List.flatMap_cons, appended_append, h.makes, ih, List.flatMap_cons]

theorem fits_flatMap (h : Lines size line row last) (idxs : List Nat) (len : Nat) :
    Fits size len (idxs.flatMap line) := by
  induction idxs generalizing len with
  | nil => trivial
  | cons i idxs ih =>
    rw [List.flatMap_cons]
    exact h.fits len i _ ih

/-- The checks find room if the text of all lines fits, up to its last piece. -/
theorem hasRoom_range (h : Lines size line row last) (len n : Nat) : HasRoom size len ((List.range n).flatMap line) ↔
    n = 0 ∨ len + ((List.range n).flatMap row).length < size + (last (n - 1)).length := by
  induction n with
  | zero => exact ⟨fun _ => Or.inl rfl, fun _ => trivial⟩
  | succ n ih =>
    have hle := h.last_le n
    rw [List.range_succ, List.flatMap_append, List.flatMap_singleton, hasRoom_append, ih, h.hasRoom, h.appended_flatMap,
      List.flatMap_append, List.flatMap_singleton, List.length_append, Nat.add_sub_cancel, ← Nat.add_assoc]
    constructor
    · rintro ⟨-, hroom⟩
      exact Or.inr hroom
    · rintro (hzero | hroom)
      · cases hzero
      · exact ⟨Or.inr (by omega), hroom⟩

theorem nul_flatMap (h : Lines size line row last) (idxs : List Nat) : NUL ∉ idxs.flatMap row := by
  rw [List.mem_flatMap]
  rintro ⟨idx, -, hmem⟩
  exact h.nul idx hmem

/-- A reader is right exactly if its buffer does not end in the last piece of its text. -/
theorem reader_right_iff (h : Lines size line row last) (hfirst : Begins size first) (hmax : size ≤ INT_MAX) (n : Nat) :
    ReadsRight size (first ++ (List.range n).flatMap line) (readText size (first ++ (List.range n).flatMap line))
        (appended first ++ (List.range n).flatMap row) ↔
      ¬ EndsInLast size (appended first ++ (List.range n).flatMap row) (last (n - 1)) := by
  have htext : appended (first ++ (List.range n).flatMap line) = appended first ++ (List.range n).flatMap row := by
    rw [appended_append, h.appended_flatMap]
  have hnul : NUL ∉ appended (first ++ (List.range n).flatMap line) := by
    rw [htext, List.mem_append, not_or]
    exact ⟨hfirst.nul, h.nul_flatMap _⟩
  have hroom : HasRoom size 0 (first ++ (List.range n).flatMap line) ↔
      n = 0 ∨ (appended first ++ (List.range n).flatMap row).length < size + (last (n - 1)).length := by
    rw [hasRoom_append, and_iff_right hfirst.hasRoom, Nat.zero_add, h.hasRoom_range, List.length_append]
  have hlt := hfirst.lt
  rw [← htext, readsRight_iff (by omega) hmax (hfirst.fits _ (h.fits_flatMap _)) hnul, htext, hroom]
  unfold EndsInLast
  constructor
  · rintro hfit ⟨hle, hlast⟩
    have := hfit (Or.inr hlast)
    omega
  · rintro hnot (rfl | hlast)
    · rwa [List.range_zero, List.flatMap_nil, List.append_nil]
    · by_contra hge
      exact hnot ⟨by omega, hlast⟩

end Lines

/-! ## No NUL in a text -/

theorem digitChar_ne_nul (d : Nat) : Nat.digitChar d ≠ NUL := Nat.digitChar_ne NUL (by decide)

theorem nul_notMem_toDigits {b : Nat} (hb : 1 < b) (n : Nat) : NUL ∉ Nat.toDigits b n := by
  induction n using Nat.strong_induction_on with
  | _ n ih =>
    rw [Nat.toDigits_eq_if hb]
    split
    · exact fun hmem => digitChar_ne_nul n (List.mem_singleton.mp hmem).symm
    · have hlt : n / b < n := Nat.div_lt_self (by omega) hb
      rw [List.mem_append, not_or]
      exact ⟨ih _ hlt, fun hmem => digitChar_ne_nul _ (List.mem_singleton.mp hmem).symm⟩

theorem nul_notMem_decimal : NUL ∉ decimal n := nul_notMem_toDigits (by decide) n

theorem nul_notMem_hex : NUL ∉ hex n := nul_notMem_toDigits (by decide) n

theorem nul_notMem_fileName : NUL ∉ fileName n := by
  unfold fileName
  rw [List.mem_append, List.mem_append, not_or, not_or]
  refine ⟨⟨?_, nul_notMem_decimal⟩, ?_⟩
  · decide
  · decide

/-! ## The readers -/

section readers

variable (c : GvmRamdumpCtx)

/-- The check before the name of the file is the strongest. -/
theorem dumpInfo_lines : Lines size c.dumpInfoLine (dumpInfoRow c) fun idx => fileName idx ++ "\n".toList where
  makes := fun idx => by
    simp only [appended, dumpInfoLine, piece, List.flatMap_cons, List.flatMap_nil, List.nil_append, List.append_nil,
      dumpInfoRow, List.append_assoc]
  fits := fun len idx ops h => by
    simp only [dumpInfoLine, List.cons_append, List.nil_append, Fits]
    exact fun hpref => ⟨by omega, fun hbase => ⟨by omega, fun hlength => ⟨by omega, h _⟩⟩⟩
  hasRoom := fun len idx => by
    simp only [dumpInfoLine, HasRoom, dumpInfoRow, List.length_append, and_true]
    omega
  last_le := fun idx => by
    simp only [dumpInfoRow, List.length_append]
    omega
  nul := fun idx => by
    unfold dumpInfoRow
    simp only [List.mem_append, not_or]
    refine ⟨⟨⟨⟨?_, ⟨?_, nul_notMem_hex⟩, ?_⟩, nul_notMem_decimal, ?_⟩, ?_⟩, nul_notMem_fileName, ?_⟩
    all_goals decide

theorem appended_first : appended [.strlcpy header, .strlcat dotLine] = header ++ dotLine := by
  simp only [appended, piece, List.flatMap_cons, List.flatMap_nil, List.append_nil]

theorem dumpInfo_begins : Begins DUMP_INFO_BUFFER_SIZE [.strlcpy header, .strlcat dotLine] where
  fits := fun ops h => ⟨rfl, h _⟩
  hasRoom := trivial
  nul := by
    rw [appended_first, List.mem_append, not_or]
    exact ⟨by decide, by decide⟩
  lt := by
    rw [appended_first]
    decide +kernel

theorem dumpInfo_right_iff :
    DumpInfoRight c ↔ ¬ EndsInLast DUMP_INFO_BUFFER_SIZE (dumpInfoText c) (dumpInfoLast c) := by
  have hright := (dumpInfo_lines c).reader_right_iff dumpInfo_begins (by decide) c.numMemRegions.toNat
  rw [appended_first] at hright
  exact hright

/-- The check before the last piece is the strongest. -/
theorem loadCmm_lines : Lines size c.loadCmmLine (loadCmmRow c) fun _ => cmmCmd2 where
  makes := fun idx => by
    simp only [appended, loadCmmLine, piece, List.flatMap_cons, List.flatMap_nil, List.nil_append, List.append_nil,
      loadCmmRow, List.append_assoc]
  fits := fun len idx ops h => by
    simp only [loadCmmLine, List.cons_append, List.nil_append, Fits]
    exact fun hcmd => ⟨by omega, fun hname => ⟨by omega, fun _ => h _⟩⟩
  hasRoom := fun len idx => by
    simp only [loadCmmLine, HasRoom, loadCmmRow, List.length_append, and_true]
    omega
  last_le := fun idx => by
    simp only [loadCmmRow, List.length_append]
    omega
  nul := fun idx => by
    unfold loadCmmRow
    simp only [List.mem_append, not_or]
    refine ⟨⟨⟨?_, nul_notMem_fileName, ?_⟩, ⟨?_, nul_notMem_hex⟩, ?_⟩, ?_⟩
    all_goals decide

theorem loadCmm_begins : Begins LOAD_CMM_BUFFER_SIZE [] where
  fits := fun _ h => h 0
  hasRoom := trivial
  nul := List.not_mem_nil
  lt := by decide

theorem loadCmm_right_iff : LoadCmmRight c ↔ ¬ EndsInLast LOAD_CMM_BUFFER_SIZE (loadCmmText c) cmmCmd2 :=
  (loadCmm_lines c).reader_right_iff loadCmm_begins (by decide) c.numMemRegions.toNat

end readers

/-! ## Both readers -/

/-- Both readers are right exactly if neither of the buffers ends in the last piece
of its text. -/
theorem texts_right_iff (c : GvmRamdumpCtx) : DumpInfoRight c ∧ LoadCmmRight c ↔
    ¬ EndsInLast DUMP_INFO_BUFFER_SIZE (dumpInfoText c) (dumpInfoLast c) ∧
      ¬ EndsInLast LOAD_CMM_BUFFER_SIZE (loadCmmText c) cmmCmd2 :=
  and_congr (dumpInfo_right_iff c) (loadCmm_right_iff c)

/-- Ten regions of 1 MiB. -/
def tenRegions : GvmRamdumpCtx where
  numMemRegions := 10
  ramdumpStartAddr := fun idx => 0x80000000 + BitVec.ofNat 64 idx * 0x100000
  ramdumpSize := fun _ => 0x100000

/-- The name of the last file is cut. -/
theorem texts_wrong : ¬ (DumpInfoRight tenRegions ∧ LoadCmmRight tenRegions) := by
  rw [not_and_or, dumpInfo_right_iff, not_not]
  exact Or.inl (by decide +kernel)

end GH.Proof.GvmDump
