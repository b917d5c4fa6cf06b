import Mathlib.Logic.Basic

/-!
# What has happened

A history is the list of what has happened, the newest first. `Since e Ends hist` says that `e` has
happened, and nothing that ends it since: it is decided by the newest, and else by the rest
(`since_cons_iff`).
-/

namespace GH

variable {E : Type*}

/-- `e` has happened, and nothing that ends it since. -/
def Since (e : E) (Ends : E → Prop) (hist : List E) : Prop :=
  ∃ newer older, hist = newer ++ e :: older ∧ ∀ x ∈ newer, ¬ Ends x

variable {e x : E} {Ends : E → Prop} {hist : List E}

theorem since_nil : ¬ Since e Ends [] := by
  rintro ⟨newer, older, heq, -⟩
  exact List.append_ne_nil_of_right_ne_nil newer (List.cons_ne_nil e older) heq.symm

theorem since_new : Since e Ends (e :: hist) := ⟨[], hist, rfl, nofun⟩

theorem since_cons (h : Since e Ends hist) (hx : ¬ Ends x) : Since e Ends (x :: hist) := by
  obtain ⟨newer, older, rfl, hnewer⟩ := h
  exact ⟨x :: newer, older, rfl, List.forall_mem_cons.mpr ⟨hx, hnewer⟩⟩

theorem since_cons_iff : Since e Ends (x :: hist) ↔ x = e ∨ (¬ Ends x ∧ Since e Ends hist) := by
  constructor
  · rintro ⟨newer, older, heq, hnewer⟩
    cases newer with
    | nil => exact .inl (List.cons.inj heq).1
    | cons y newer =>
      obtain ⟨rfl, rfl⟩ := List.cons.inj heq
      obtain ⟨hx, hnewer⟩ := List.forall_mem_cons.mp hnewer
      exact .inr ⟨hx, newer, older, rfl, hnewer⟩
  · rintro (rfl | ⟨hx, h⟩)
    · exact since_new
    · exact since_cons h hx

end GH
