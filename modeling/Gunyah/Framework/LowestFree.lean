import Mathlib.Data.List.Range
import Mathlib.Logic.Function.Iterate

/-!
# The lowest free number

Numbers are handed out of a range, always the lowest that is free
(`lowestFree_some_iff`, `lowestFree_none_iff`). Taken often enough, every free
number is handed out (`exists_lowestFree_takeLowest`).
-/

namespace GH

variable {used : List Nat} {lo hi i : Nat}

/-- The lowest number of `[lo, hi)` that is not in use. -/
def lowestFree (used : List Nat) (lo hi : Nat) : Option Nat :=
  (List.range' lo (hi - lo)).find? fun i => i ∉ used

/-- The lowest number is taken, if there is one. -/
def takeLowest (lo hi : Nat) (used : List Nat) : List Nat := (lowestFree used lo hi).toList ++ used

theorem lowestFree_none_iff : lowestFree used lo hi = none ↔ ∀ j, lo ≤ j → j < hi → j ∈ used := by
  unfold lowestFree
  rw [List.find?_range'_eq_none]
  simp only [decide_not, Bool.not_not, decide_eq_true_eq]
  exact ⟨fun h j hlo hhi => h j hlo (by omega), fun h j hlo hhi => h j hlo (by omega)⟩

/-- What is below the number found is in use. -/
theorem lowestFree_some_iff : lowestFree used lo hi = some i ↔
    lo ≤ i ∧ i < hi ∧ i ∉ used ∧ ∀ j, lo ≤ j → j < i → j ∈ used := by
  unfold lowestFree
  rw [List.find?_range'_eq_some]
  simp only [decide_not, Bool.not_eq_true', decide_eq_false_iff_not, Bool.not_not, decide_eq_true_eq, List.mem_range'_1]
  constructor
  · rintro ⟨hfree, hmem, hbelow⟩
    exact ⟨hmem.1, by omega, hfree, hbelow⟩
  · rintro ⟨hlo, hhi, hfree, hbelow⟩
    exact ⟨hfree, ⟨hlo, by omega⟩, hbelow⟩

/-- A free number is the lowest at some time, if the lowest is taken again and again:
by induction on how far below it the numbers may be free. -/
theorem exists_lowestFree_takeLowest (hlo : lo ≤ i) (hhi : i < hi) (hfree : i ∉ used) :
    ∃ n, lowestFree ((takeLowest lo hi)^[n] used) lo hi = some i := by
  suffices h : ∀ d used, i ∉ used → (∀ j, lo ≤ j → j + d < i → j ∈ used) →
      ∃ n, lowestFree ((takeLowest lo hi)^[n] used) lo hi = some i from
    h i used hfree fun j _ hj => absurd hj (by omega)
  intro d
  induction d with
  | zero => exact fun used hfree hbelow => ⟨0, lowestFree_some_iff.mpr ⟨hlo, hhi, hfree, hbelow⟩⟩
  | succ d ih =>
    intro used hfree hbelow
    by_cases hall : ∀ j, lo ≤ j → j + d < i → j ∈ used
    · exact ih used hfree hall
    · push Not at hall
      obtain ⟨k, hk, hki, hkfree⟩ := hall
      have hkd : ¬ k + (d + 1) < i := fun hlt => hkfree (hbelow k hk hlt)
      have hlowest : ∀ j, lo ≤ j → j < k → j ∈ used := fun j hj hjk => hbelow j hj (by omega)
      have htake : takeLowest lo hi used = k :: used := by
        rw [takeLowest, lowestFree_some_iff.mpr ⟨hk, by omega, hkfree, hlowest⟩]
        rfl
      have hnew : i ∉ k :: used := List.not_mem_cons_of_ne_of_not_mem (by omega) hfree
      obtain ⟨n, hn⟩ := ih (k :: used) hnew fun j hj hji => by
        by_cases he : j = k
        · exact he ▸ List.mem_cons_self
        · exact List.mem_cons_of_mem _ (hbelow j hj (by omega))
      exact ⟨n + 1, by rw [Function.iterate_succ_apply, htake, hn]⟩

end GH
