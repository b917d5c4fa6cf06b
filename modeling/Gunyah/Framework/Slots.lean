import Mathlib.Data.Fin.Tuple.Basic
import Mathlib.Data.Fintype.Pigeonhole
import Mathlib.Logic.Function.Basic

/-!
# A table of slots searched by key

A table of a fixed number of slots, each free or held by a key, in which the
slot of a key is found by a search that stops at the first slot that holds the
key or is free, and otherwise ends at the last slot. A new key takes the slot
the search ends at.

The search is right for a key (`Right`) if it finds the key's slot where there
is one, and never a slot of another key. It is right for every key if the table
is `Packed`: the held slots come first, each with its own key, and the last slot
is free. Taking a slot keeps the search right exactly when it is not the last
slot (`Packed.take`, `not_right_of_full`), and freeing one exactly when it is
the last that is held (`Packed.free`, `not_right_of_gap`).
-/

namespace GH.Slots

variable {n : Nat} {K : Type*} [DecidableEq K]

/-- The first slot that holds `v` or is free, and the last slot if there is
none. -/
def search (f : Fin (n + 1) → Option K) (v : K) : Fin (n + 1) :=
  (Fin.find? fun i => f i = some v ∨ f i = none).getD (Fin.last n)

/-- The search for `v` finds its slot, and never a slot of another key. -/
structure Right (f : Fin (n + 1) → Option K) (v : K) : Prop where
  found : ∀ i, f i = some v → f (search f v) = some v
  own : f (search f v) = some v ∨ f (search f v) = none

/-- The slots in use come before the free ones, the last one is free, and no two hold the same. -/
structure Packed (f : Fin (n + 1) → Option K) : Prop where
  held : ∀ i j, i < j → f i = none → f j = none
  last : f (Fin.last n) = none
  inj : ∀ i j v, f i = some v → f j = some v → i = j

variable {f : Fin (n + 1) → Option K} {v : K}

/-- Where the search ends, if some slot stops it. -/
theorem search_eq_iff {i : Fin (n + 1)} (hi : f i = some v ∨ f i = none) :
    search f v = i ↔ ∀ j < i, f j ≠ some v ∧ f j ≠ none := by
  unfold search
  cases hfind : Fin.find? fun i => f i = some v ∨ f i = none with
  | none => simpa [hi] using Fin.find?_eq_none_iff.mp hfind i
  | some k =>
    obtain ⟨hk, hmin⟩ := Fin.find?_eq_some_iff.mp hfind
    simp only [decide_eq_true_eq] at hk hmin
    rw [Option.getD_some]
    constructor
    · rintro rfl j hj
      simpa using hmin j hj
    · intro h
      rcases lt_trichotomy k i with hlt | rfl | hlt
      · exact absurd hk (not_or.mpr (h k hlt))
      · rfl
      · exact absurd hi (by simpa using hmin i hlt)

theorem not_right_of_full (hf : ∀ i, f i ≠ none) (hv : ∀ i, f i ≠ some v) : ¬ Right f v := by
  intro h
  rcases h.own with h | h
  · exact hv _ h
  · exact hf _ h

/-- A key behind a free slot is not found. -/
theorem not_right_of_gap {i j : Fin (n + 1)} (hij : i < j) (hi : f i = none) (hj : f j = some v)
    (hinj : ∀ k, f k = some v → k = j) : ¬ Right f v := by
  intro h
  have hfound := hinj _ (h.found j hj)
  rw [search_eq_iff (.inl hj)] at hfound
  exact (hfound i hij).2 hi

namespace Packed

variable (h : Packed f)
include h

theorem search_some {i : Fin (n + 1)} (hi : f i = some v) : search f v = i := by
  rw [search_eq_iff (.inl hi)]
  intro j hj
  refine ⟨fun hj' => hj.ne (h.inj j i v hj' hi), fun hj' => ?_⟩
  rw [h.held j i hj hj'] at hi
  cases hi

/-- For a new key, the search ends at the first free slot. -/
theorem search_none (hv : ∀ i, f i ≠ some v) :
    f (search f v) = none ∧ ∀ j < search f v, f j ≠ none := by
  unfold search
  cases hfind : Fin.find? fun i => f i = some v ∨ f i = none with
  | none => simpa [h.last] using Fin.find?_eq_none_iff.mp hfind (Fin.last n)
  | some k =>
    obtain ⟨hk, hmin⟩ := Fin.find?_eq_some_iff.mp hfind
    simp only [decide_eq_true_eq] at hk hmin
    exact ⟨hk.resolve_left (hv k), fun j hj => (not_or.mp (by simpa using hmin j hj)).2⟩

theorem right (v : K) : Right f v := by
  by_cases hv : ∃ i, f i = some v
  · obtain ⟨i, hi⟩ := hv
    have hs := h.search_some hi
    exact ⟨fun _ _ => by rw [hs, hi], .inl (by rw [hs, hi])⟩
  · have hv' : ∀ i, f i ≠ some v := fun i hi => hv ⟨i, hi⟩
    exact ⟨fun i hi => absurd hi (hv' i), .inr (h.search_none hv').1⟩

/-- A new key takes the slot the search ends at, which is not the last. -/
theorem take (hv : ∀ i, f i ≠ some v) (hl : search f v ≠ Fin.last n) :
    Packed (Function.update f (search f v) (some v)) := by
  obtain ⟨hs, hmin⟩ := h.search_none hv
  refine ⟨fun i j hij hi => ?_, ?_, fun i j w hi hj => ?_⟩
  · rw [Function.update_apply] at hi
    split at hi
    · cases hi
    · have hsi : search f v ≤ i := le_of_not_gt fun hlt => hmin i hlt hi
      rw [Function.update_of_ne (lt_of_le_of_lt hsi hij).ne']
      exact h.held i j hij hi
  · rw [Function.update_of_ne hl.symm]
    exact h.last
  · rw [Function.update_apply] at hi hj
    split at hi
    · split at hj
      · rename_i e e'
        rw [e, e']
      · rw [hi] at hv
        exact absurd hj (hv j)
    · split at hj
      · rw [hj] at hv
        exact absurd hi (hv i)
      · exact h.inj i j w hi hj

/-- A key that takes the last free slot fills the table. -/
theorem full (hv : ∀ i, f i ≠ some v) (hl : search f v = Fin.last n) (i : Fin (n + 1)) :
    Function.update f (search f v) (some v) i ≠ none := by
  obtain ⟨-, hmin⟩ := h.search_none hv
  rw [Function.update_apply]
  split
  · simp
  · rename_i hi
    rw [hl] at hmin hi
    exact hmin i (lt_of_le_of_ne (Fin.le_last i) hi)

omit [DecidableEq K] in
/-- Freeing the last slot that is held. -/
theorem free {i : Fin (n + 1)} (hi : ∀ j, i < j → f j = none) : Packed (Function.update f i none) := by
  have hsome : ∀ j w, Function.update f i none j = some w → f j = some w := by
    intro j w hj
    rw [Function.update_apply] at hj
    split at hj
    · cases hj
    · exact hj
  refine ⟨fun j k hjk hj => ?_, ?_, fun j k w hj hk => h.inj j k w (hsome j w hj) (hsome k w hk)⟩
  · rw [Function.update_apply] at hj ⊢
    split at hj
    · rename_i e
      subst e
      split
      · rfl
      · exact hi k hjk
    · split
      · rfl
      · exact h.held j k hjk hj
  · rw [Function.update_apply]
    split
    · rfl
    · exact h.last

end Packed

/-- There are keys that a small table does not hold. -/
theorem exists_new {V : Finset K} (hV : n + 1 < V.card) (f : Fin (n + 1) → Option K) :
    ∃ v ∈ V, ∀ i, f i ≠ some v := by
  by_contra hc
  have hall : ∀ v ∈ V, ∃ i, f i = some v := by
    intro v hv
    by_contra hn
    exact hc ⟨v, hv, fun i hi => hn ⟨i, hi⟩⟩
  have hsub : V.image some ⊆ Finset.univ.image f := by
    intro x hx
    obtain ⟨v, hv, rfl⟩ := Finset.mem_image.mp hx
    obtain ⟨i, hi⟩ := hall v hv
    exact Finset.mem_image.mpr ⟨i, Finset.mem_univ i, hi⟩
  have hle := Finset.card_le_card hsub
  rw [Finset.card_image_of_injective V (Option.some_injective K)] at hle
  have hcard : (Finset.univ.image f).card ≤ n + 1 := by
    simpa using Finset.card_image_le (s := Finset.univ) (f := f)
  omega

end GH.Slots
