import Mathlib.Data.BitVec
import Mathlib.Data.List.Perm.Basic
import Mathlib.Logic.Function.Basic

/-!
# Reference counts

Objects that are found by a key have a counter of `w` bits each, and the
holders of references are a list of keys. The counts are right (`Counted`) if
every counter says how many holders its object has, and every holder has an
object. They stay right when a reference is taken below the limit (`take`) and
when it is put by its holder (`put`), and they go wrong when a holder leaves
without a put (`not_leak`) and when there is a put without a holder
(`not_steal`).
-/

namespace GH.Refs

variable {K : Type*} [DecidableEq K] {w : Nat}

/-- Every counter is the number of holders of its object. -/
def Right (c : K → Option (BitVec w)) (hs : List K) : Prop := ∀ k r, c k = some r → r.toNat = hs.countP (· = k)

/-- Each count is the number of its holders, and what is held is there. -/
structure Counted (c : K → Option (BitVec w)) (hs : List K) : Prop where
  right : Right c hs
  held : ∀ k ∈ hs, (c k).isSome

theorem counted_nil : Counted (fun _ : K => (none : Option (BitVec w))) [] :=
  ⟨by simp [Right], by simp⟩

variable {c : K → Option (BitVec w)} {hs : List K} {k : K} {r : BitVec w}

theorem countP_eraseIdx {i : Nat} (h : hs[i]? = some k) (j : K) :
    hs.countP (· = j) = (hs.eraseIdx i).countP (· = j) + if k = j then 1 else 0 := by
  obtain ⟨hi, rfl⟩ := List.getElem?_eq_some_iff.mp h
  rw [← (List.getElem_cons_eraseIdx_perm hi).countP_eq, List.countP_cons]
  simp

theorem held_update {l : List K} (hl : ∀ j ∈ l, j = k ∨ j ∈ hs) (h : ∀ j ∈ hs, (c j).isSome) (r : BitVec w) :
    ∀ j ∈ l, (Function.update c k (some r) j).isSome := by
  intro j hj
  by_cases hjk : j = k
  · simp [hjk]
  · rw [Function.update_of_ne hjk]
    exact h j ((hl j hj).resolve_left hjk)

theorem toNat_one (h : 1 < 2 ^ w) : (1 : BitVec w).toNat = 1 := Nat.mod_eq_of_lt h

theorem toNat_succ (hr : r < BitVec.allOnes w) : (r + 1).toNat = r.toNat + 1 := by
  have hlt := BitVec.lt_def.mp hr
  rw [BitVec.toNat_allOnes] at hlt
  rw [BitVec.toNat_add, toNat_one (by omega)]
  exact Nat.mod_eq_of_lt (by omega)

theorem toNat_pred (hr : 0 < r.toNat) : (r - 1).toNat = r.toNat - 1 := by
  have hlt := r.isLt
  have hone : (1 : BitVec w).toNat = 1 := toNat_one (by omega)
  rw [BitVec.toNat_sub_of_le (BitVec.le_def.mpr (by omega)), hone]

theorem Counted.take (h : Counted c hs) (hk : c k = some r) (hr : r < BitVec.allOnes w) :
    Counted (Function.update c k (some (r + 1))) (hs ++ [k]) := by
  refine ⟨fun j r' hj => ?_, held_update (by simp [or_comm]) h.held _⟩
  rw [List.countP_append, List.countP_singleton]
  by_cases hjk : j = k
  · subst hjk
    rw [Function.update_self, Option.some.injEq] at hj
    rw [← hj, toNat_succ hr, h.right j r hk]
    simp
  · rw [Function.update_of_ne hjk] at hj
    rw [h.right j r' hj]
    simp [Ne.symm hjk]

theorem Counted.put (h : Counted c hs) (hk : c k = some r) {i : Nat} (hi : hs[i]? = some k) :
    Counted (Function.update c k (some (r - 1))) (hs.eraseIdx i) := by
  refine ⟨fun j r' hj => ?_, held_update (fun j hj => .inr (List.mem_of_mem_eraseIdx hj)) h.held _⟩
  have he := countP_eraseIdx hi j
  by_cases hjk : j = k
  · subst hjk
    rw [← h.right j r hk, if_pos rfl] at he
    rw [Function.update_self, Option.some.injEq] at hj
    rw [← hj, toNat_pred (by omega)]
    omega
  · rw [Function.update_of_ne hjk] at hj
    rw [h.right j r' hj, he, if_neg (Ne.symm hjk), Nat.add_zero]

/-- A holder leaves without a put. -/
theorem Right.not_leak (h : Right c hs) (hk : c k = some r) {i : Nat} (hi : hs[i]? = some k) :
    ¬ Right c (hs.eraseIdx i) := by
  intro hn
  have he := countP_eraseIdx hi k
  rw [← h k r hk, ← hn k r hk] at he
  simp at he

/-- A put without a holder. -/
theorem Right.not_steal (hw : 0 < w) (h : Right c hs) (hk : c k = some r) :
    ¬ Right (Function.update c k (some (r - 1))) hs := by
  intro hn
  have he := hn k (r - 1) (Function.update_self ..)
  rw [← h k r hk] at he
  by_cases hr : 0 < r.toNat
  · rw [toNat_pred hr] at he
    omega
  · have hpow : 1 < 2 ^ w := Nat.one_lt_two_pow (by omega)
    rw [BitVec.toNat_sub, toNat_one hpow, Nat.mod_eq_of_lt (by omega)] at he
    omega

/-- A new object. -/
theorem Counted.add (h : Counted c hs) (hk : c k = none) : Counted (Function.update c k (some 0)) hs := by
  refine ⟨fun j r' hj => ?_, held_update (fun j hj => .inr hj) h.held _⟩
  by_cases hjk : j = k
  · subst hjk
    have hno : j ∉ hs := by
      intro hmem
      have := h.held j hmem
      rw [hk] at this
      cases this
    rw [Function.update_self, Option.some.injEq] at hj
    rw [← hj, List.countP_eq_zero.mpr fun i hi => by simpa using fun h : i = j => hno (h ▸ hi)]
    simp
  · rw [Function.update_of_ne hjk] at hj
    exact h.right j r' hj

end GH.Refs
