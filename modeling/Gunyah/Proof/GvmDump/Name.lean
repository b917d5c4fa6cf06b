import Gunyah.Impl.GvmDump.Ctx
import Mathlib.Data.List.Basic

/-!
# The number in a file's name

`get_ramdump_id` goes back one character from the first dot, and what is read from
there on ends at the dot, so the number is that of one digit (`strtol_digit`). Whatever the
name, it is at most 9 and the number of a region (`getRamdumpId_cases`), and for a name with
one digit before the dot it is that digit (`getRamdumpId_dot`).
-/

namespace GH.Proof.GvmDump

open GH.Impl GH.Impl.GvmDump

variable {file : Dentry} {ch : Char} {rest : List Char} {dot idx : Nat} {numMemRegions : Int}

/-- What a digit stands for. -/
def digit (ch : Char) : Nat := ch.toNat - 48

theorem digit_le (h : ch.isDigit = true) : digit ch ≤ 9 := by
  obtain ⟨-, hle⟩ := Char.isDigit_iff_toNat.mp h
  have hnine : '9'.toNat = 57 := rfl
  unfold digit
  omega

theorem strtol_digit (h : ch.isDigit = true) :
    ((simpleStrtol (ch :: '.' :: rest)).setWidth 32).toInt = digit ch := by
  have hle := digit_le h
  have hsign : ¬ (ch :: '.' :: rest).head? = some '-' := by
    rw [List.head?_cons, Option.some.injEq]
    rintro rfl
    exact absurd h (by decide)
  have htake : (ch :: '.' :: rest).takeWhile Char.isDigit = [ch] := by
    rw [List.takeWhile_cons_of_pos h, List.takeWhile_cons_of_neg (by decide)]
  have hval : simpleStrtol (ch :: '.' :: rest) = BitVec.ofNat 64 (digit ch) := by
    rw [simpleStrtol, if_neg hsign, simpleStrtoull, htake, List.foldl_cons, List.foldl_nil]
    simp [digit]
  have hnat : ((simpleStrtol (ch :: '.' :: rest)).setWidth 32).toNat = digit ch := by
    rw [hval, BitVec.toNat_setWidth, BitVec.toNat_ofNat]
    omega
  rw [BitVec.toInt_eq_toNat_of_lt (by omega), hnat]

/-- What is read starts one character before the dot. -/
theorem drop_dot (h : file.dIname.findIdx? (· = '.') = some dot) :
    ∃ ch rest, (file.before :: file.dIname).drop dot = ch :: '.' :: rest := by
  obtain ⟨hlt, hdot, -⟩ := List.findIdx?_eq_some_iff_getElem.mp h
  have hlt' : dot < (file.before :: file.dIname).length := by
    rw [List.length_cons]
    omega
  refine ⟨(file.before :: file.dIname)[dot], file.dIname.drop (dot + 1), ?_⟩
  rw [List.drop_eq_getElem_cons hlt', List.drop_succ_cons, List.drop_eq_getElem_cons hlt, of_decide_eq_true hdot]

/-- No number, or one of a region that is a digit. -/
theorem getRamdumpId_cases (file : Dentry) (numMemRegions : Int) : getRamdumpId file numMemRegions = -EINVAL ∨
    ∃ id : Nat, getRamdumpId file numMemRegions = id ∧ id ≤ 9 ∧ (id : Int) < numMemRegions := by
  unfold getRamdumpId
  cases hfind : file.dIname.findIdx? (· = '.') with
  | none => exact Or.inl rfl
  | some dot =>
    obtain ⟨ch, rest, hdrop⟩ := drop_dot hfind
    simp only [hdrop, List.headD_cons]
    cases hdigit : ch.isDigit with
    | false => exact Or.inl rfl
    | true =>
      simp only [strtol_digit hdigit, Bool.true_eq_false, if_false]
      by_cases hge : (digit ch : Int) ≥ numMemRegions
      · exact Or.inl (if_pos hge)
      · exact Or.inr ⟨digit ch, if_neg hge, digit_le hdigit, by omega⟩

/-- The digit before the first dot, if it is the number of a region. -/
theorem getRamdumpId_dot (file : Dentry) {init : List Char} (hname : file.dIname = init ++ ch :: '.' :: rest)
    (hinit : '.' ∉ init) (hdigit : ch.isDigit = true) (hlt : (digit ch : Int) < numMemRegions) :
    getRamdumpId file numMemRegions = digit ch := by
  have hch : ¬ ch = '.' := by
    rintro rfl
    exact absurd hdigit (by decide)
  have hfind : file.dIname.findIdx? (· = '.') = some (init.length + 1) := by
    have hnone : init.findIdx? (· = '.') = none := by
      rw [List.findIdx?_eq_none_iff]
      intro d hd
      exact decide_eq_false fun he => hinit (he ▸ hd)
    rw [hname, List.findIdx?_append, hnone]
    simp [List.findIdx?_cons, hch, Nat.add_comm]
  have hdrop : (file.before :: file.dIname).drop (init.length + 1) = ch :: '.' :: rest := by
    rw [List.drop_succ_cons, hname, List.drop_left]
  simp only [getRamdumpId, hfind, hdrop, List.headD_cons, hdigit, Bool.true_eq_false, if_false, strtol_digit hdigit]
  exact if_neg (by omega)

/-- A name with a number of one digit. -/
theorem ramdumpName_of_lt (h : idx < 10) :
    ramdumpName idx = "VMDDRCS".toList ++ Nat.digitChar idx :: '.' :: "bin".toList := by
  unfold ramdumpName fileName decimal
  rw [Nat.toDigits_of_lt_base h]
  rfl

/-- The number of a name is that of its region exactly if it has one digit. -/
theorem getRamdumpId_ramdumpName (before : Char) (h : (idx : Int) < numMemRegions) :
    getRamdumpId ⟨before, ramdumpName idx⟩ numMemRegions = idx ↔ idx < 10 := by
  constructor
  · intro hid
    obtain herr | ⟨id, hval, hle, -⟩ := getRamdumpId_cases ⟨before, ramdumpName idx⟩ numMemRegions
    · rw [herr] at hid
      exact absurd hid (by simp only [EINVAL]; omega)
    · omega
  · intro hlt
    have hdigit : digit (Nat.digitChar idx) = idx := Nat.toNat_digitChar_sub_48_of_lt_ten hlt
    have hisdigit : (Nat.digitChar idx).isDigit = true := by
      rw [Nat.isDigit_digitChar]
      exact decide_eq_true hlt
    have hval := getRamdumpId_dot ⟨before, ramdumpName idx⟩ (ramdumpName_of_lt hlt) (by decide) hisdigit
      (hdigit.symm ▸ h)
    rw [hval, hdigit]

end GH.Proof.GvmDump
