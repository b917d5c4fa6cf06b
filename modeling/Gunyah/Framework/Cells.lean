import Mathlib.Algebra.BigOperators.Fin
import Mathlib.Algebra.BigOperators.Group.List.Basic

/-!
# Cells that are filled and emptied

A table of cells, `K → C`, that several users fill and empty. A change is
`Within` a set of cells if no other cell is changed by it. Where what one user
does, first from `c₀` to `c₁` and later from `c₂` to `c₃`, stays within a set of
cells that nobody else changes meanwhile, and leaves these as they were at
first, it is undone cell by cell (`Undone`, `undone`): everything that is
counted in a cell has the same differences (`Undone.add`).

`sum_update_add` and `sum_set_add` are what a sum over cells becomes when one of
them is changed.
-/

namespace GH.Cells

variable {K C : Type*} {N : K → Prop} {c₀ c₁ c₂ c₃ : K → C}

/-- Only cells in `N` are changed. -/
def Within (N : K → Prop) (c c' : K → C) : Prop := ∀ k, ¬ N k → c' k = c k

/-- What changes from `c₂` to `c₃` is what changed from `c₀` to `c₁`, the other way
round. -/
def Undone (c₀ c₁ c₂ c₃ : K → C) : Prop :=
  ∀ k, (c₁ k = c₀ k ∧ c₃ k = c₂ k) ∨ (c₂ k = c₁ k ∧ c₃ k = c₀ k)

theorem undone (h₁ : Within N c₀ c₁) (h₃ : Within N c₂ c₃) (hkept : ∀ k, N k → c₂ k = c₁ k)
    (hback : ∀ k, N k → c₃ k = c₀ k) : Undone c₀ c₁ c₂ c₃ := by
  intro k
  by_cases hk : N k
  · exact .inr ⟨hkept k hk, hback k hk⟩
  · exact .inl ⟨h₁ k hk, h₃ k hk⟩

section Sums

variable {A : Type*} [AddCommMonoid A]

theorem Undone.add (h : Undone c₀ c₁ c₂ c₃) (g : K → C → A) (k : K) :
    g k (c₀ k) + g k (c₂ k) = g k (c₁ k) + g k (c₃ k) := by
  rcases h k with ⟨h₁, h₃⟩ | ⟨h₂, h₃⟩
  · rw [h₁, h₃]
  · rw [h₂, h₃, add_comm]

/-- A cell of a table is changed. -/
theorem sum_update_add [Fintype K] [DecidableEq K] (g : K → C → A) (c : K → C) (i : K) (x : C) :
    ∑ k, g k (Function.update c i x k) + g i (c i) = ∑ k, g k (c k) + g i x := by
  have hrest : ∑ k ∈ Finset.univ.erase i, g k (Function.update c i x k) = ∑ k ∈ Finset.univ.erase i, g k (c k) :=
    Finset.sum_congr rfl fun k hk => by rw [Function.update_of_ne (Finset.ne_of_mem_erase hk)]
  rw [← Finset.add_sum_erase Finset.univ _ (Finset.mem_univ i), hrest, Function.update_self,
    ← Finset.add_sum_erase Finset.univ (fun k => g k (c k)) (Finset.mem_univ i)]
  rw [add_right_comm, add_right_comm (g i (c i)), add_comm (g i x)]

/-- A cell of a list is changed. -/
theorem sum_set_add {l : List A} {k : Nat} {a : A} (h : l[k]? = some a) (b : A) :
    (l.set k b).sum + a = l.sum + b := by
  induction l generalizing k with
  | nil => simp at h
  | cons x l ih =>
    cases k with
    | zero =>
      simp only [List.getElem?_cons_zero, Option.some.injEq] at h
      subst h
      simp only [List.set_cons_zero, List.sum_cons]
      rw [add_right_comm, add_comm b, add_right_comm]
    | succ k =>
      simp only [List.getElem?_cons_succ] at h
      simp only [List.set_cons_succ, List.sum_cons, add_assoc, ih h]

end Sums

end GH.Cells
