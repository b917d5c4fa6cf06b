import Mathlib.Data.List.Infix
import Mathlib.Logic.Function.Basic

/-!
# A queue that is passed on in pieces

What is put into a queue is taken out of it by several hands, a piece at a
time, and given on by them later. While two hands hold something, what comes
out can be in the wrong order; where a hand takes only while all the others are
empty, everything put in is, in its order, what was given, what is in a hand, and what
is in the queue (`InOrder`).
-/

namespace GH

/-- A queue whose items are taken by workers, each of which gives on what it has in hand. -/
structure Relay (ι α : Type*) where
  queue : List α
  hand : ι → List α
  /-- Everything put into the queue. -/
  accepted : List α
  /-- Everything given on. -/
  given : List α

variable {ι α : Type*}

namespace Relay

/-- Items go into the queue. -/
def put (r : Relay ι α) (xs : List α) : Relay ι α :=
  { r with queue := r.queue ++ xs, accepted := r.accepted ++ xs }

variable [DecidableEq ι]

/-- A worker takes the first items of the queue into its hand. -/
def take (r : Relay ι α) (i : ι) (n : Nat) : Relay ι α :=
  { r with queue := r.queue.drop n, hand := Function.update r.hand i (r.queue.take n) }

/-- A worker gives on what it has in hand. -/
def give (r : Relay ι α) (i : ι) : Relay ι α :=
  { r with given := r.given ++ r.hand i, hand := Function.update r.hand i [] }

/-- One hand, at most, holds something, and it is what comes between what was given and
what is in the queue. -/
def InOrder (r : Relay ι α) : Prop :=
  ∃ i, (∀ j, j ≠ i → r.hand j = []) ∧ r.accepted = r.given ++ r.hand i ++ r.queue

variable {r : Relay ι α} {i : ι} {n : Nat} {xs : List α}

omit [DecidableEq ι] in
theorem InOrder.begins (h : InOrder r) : r.given <+: r.accepted := by
  obtain ⟨i, -, hall⟩ := h
  exact ⟨r.hand i ++ r.queue, by rw [hall, List.append_assoc]⟩

omit [DecidableEq ι] in
theorem InOrder.put (h : InOrder r) : InOrder (r.put xs) := by
  obtain ⟨i, hi, hall⟩ := h
  refine ⟨i, hi, ?_⟩
  simp only [Relay.put, hall, List.append_assoc]

/-- A hand takes while all hands are empty. -/
theorem InOrder.take (h : InOrder r) (hempty : ∀ j, r.hand j = []) : InOrder (r.take i n) := by
  obtain ⟨k, -, hall⟩ := h
  refine ⟨i, fun j hj => ?_, ?_⟩
  · simp only [Relay.take, Function.update_of_ne hj, hempty j]
  · simp only [Relay.take, Function.update_self, hall, hempty k, List.append_nil, List.append_assoc,
      List.take_append_drop]

theorem InOrder.give (h : InOrder r) : InOrder (r.give i) := by
  obtain ⟨k, hk, hall⟩ := h
  by_cases hik : i = k
  · subst hik
    refine ⟨i, fun j hj => ?_, ?_⟩
    · simp only [Relay.give, Function.update_of_ne hj, hk j hj]
    · simp only [Relay.give, Function.update_self, hall, List.append_nil]
  · refine ⟨k, fun j hj => ?_, ?_⟩
    · by_cases hji : j = i
      · simp only [Relay.give, hji, Function.update_self]
      · simp only [Relay.give, Function.update_of_ne hji, hk j hj]
    · simp only [Relay.give, Function.update_of_ne (Ne.symm hik), hk i hik, hall, List.append_nil]

end Relay

end GH
