import Mathlib.Data.List.Basic

/-!
# A machine driven by a stream

The answers of the environment as an infinite stream: `driven step s xs k` is the state
after the first `k` of them, and `emitted` is what the machine has put out by then. A
machine that takes no answer stays as it is.
-/

namespace GH

variable {S A O : Type*}

/-- The state after `k` of the given actions, where one that is not enabled does nothing. -/
def driven (step : S → A → Option S) (s : S) (xs : Nat → A) : Nat → S
  | 0 => s
  | k + 1 => (step (driven step s xs k) (xs k)).getD (driven step s xs k)

/-- What the machine puts out in each of its first `n` states. -/
def emitted (step : S → A → Option S) (out : S → Option O) (s : S) (xs : Nat → A) (n : Nat) : List O :=
  (List.range n).filterMap fun k => out (driven step s xs k)

variable {step : S → A → Option S} {out : S → Option O} {s : S} {xs : Nat → A} {k n : Nat}

theorem driven_succ {t : S} (h : step (driven step s xs k) (xs k) = some t) : driven step s xs (k + 1) = t := by
  rw [driven, h, Option.getD_some]

theorem driven_succ_none (h : step (driven step s xs k) (xs k) = none) :
    driven step s xs (k + 1) = driven step s xs k := by
  rw [driven, h, Option.getD_none]

/-- A machine that takes no answer any more. -/
theorem driven_stuck (h : ∀ a, step (driven step s xs k) a = none) (hn : k ≤ n) :
    driven step s xs n = driven step s xs k := by
  obtain ⟨d, rfl⟩ := Nat.exists_eq_add_of_le hn
  induction d with
  | zero => rfl
  | succ d ih =>
    have ih := ih (Nat.le_add_right k d)
    have hno : step (driven step s xs (k + d)) (xs (k + d)) = none := by
      rw [ih]
      exact h _
    rw [← ih]
    exact driven_succ_none hno

theorem emitted_succ :
    emitted step out s xs (n + 1) = emitted step out s xs n ++ (out (driven step s xs n)).toList := by
  rw [emitted, List.range_succ, List.filterMap_append, emitted, List.filterMap_cons]
  cases out (driven step s xs n) <;> rfl

/-- What every answer keeps, and what holds on where there is none to be taken. -/
theorem inv_driven {I : Nat → S → Prop} (h₀ : I 0 s)
    (hI : ∀ k t, I k (driven step s xs k) → step (driven step s xs k) (xs k) = some t → I (k + 1) t)
    (hnone : ∀ k, I k (driven step s xs k) → step (driven step s xs k) (xs k) = none → I (k + 1) (driven step s xs k))
    (k : Nat) : I k (driven step s xs k) := by
  induction k with
  | zero => exact h₀
  | succ k ih =>
    cases ht : step (driven step s xs k) (xs k) with
    | none =>
      rw [driven_succ_none ht]
      exact hnone k ih ht
    | some t =>
      rw [driven_succ ht]
      exact hI k t ih ht

end GH
