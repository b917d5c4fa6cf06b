import Mathlib.Logic.Function.Basic
import Mathlib.Tactic.SplitIfs

/-!
# Waiting for a condition

A thread that waits for a condition `c` (`wait_event`) looks at it, and enters
itself into a queue if it does not hold; then it looks again, and sleeps if it still
does not hold and nobody has woken the queue since it entered. Who makes a
condition true wakes the queue afterwards: until then the wake-up is owed.

No thread sleeps although its condition holds, unless a wake-up is owed to it
(`NoLost`). A thread keeps this whatever it does (`NoLost.move`, with `check_asleep`, `prepare_asleep`
and so on), and so does a change that owes a wake-up for each condition that
becomes true (`NoLost.write`), and a wake-up (`NoLost.wake`).
-/

namespace GH.WaitQueue

/-- Where a thread is in a wait for a condition. -/
inductive Place (C : Type*) where
  | out
  /-- It looks at the condition for the first time. -/
  | first (c : C)
  /-- It is going to enter itself into the queue. -/
  | awake (c : C)
  /-- It is in the queue, and is going to look at the condition; a wake-up may have reached it since. -/
  | queued (c : C) (woken : Bool)
  | asleep (c : C)
  /-- It has found the condition true. -/
  | past (c : C)
  deriving DecidableEq, Repr

namespace Place

variable {C : Type*} {c : C} {p : Place C} {holds reach : C → Bool}

/-- The thread looks at its condition. -/
def check (holds : C → Bool) : Place C → Place C
  | .first c => if holds c then .past c else .awake c
  | .queued c woken => if holds c then .past c else if woken then .awake c else .asleep c
  | p => p

/-- The thread enters itself into the queue. -/
def prepare : Place C → Place C
  | .awake c => .queued c false
  | p => p

/-- The thread is woken, if the wake-up reaches it. -/
def wake (reach : C → Bool) : Place C → Place C
  | .queued c woken => .queued c (woken || reach c)
  | .asleep c => if reach c then .awake c else .asleep c
  | p => p

/-- The condition of a thread that is in a wait. -/
def waits : Place C → Option C
  | .out | .past _ => none
  | .first c | .awake c | .queued c _ | .asleep c => some c

theorem check_asleep (h : p.check holds = .asleep c) : p = .asleep c ∨ holds c = false := by
  unfold check at h
  split at h
  · split_ifs at h
  · split_ifs at h with hc hw
    cases h
    exact .inr (Bool.eq_false_iff.mpr hc)
  · exact .inl h

theorem check_past (h : p.check holds = .past c) : p = .past c ∨ holds c = true := by
  unfold check at h
  split at h
  · split_ifs at h with hc
    cases h
    exact .inr hc
  · split_ifs at h with hc hw
    cases h
    exact .inr hc
  · exact .inl h

theorem prepare_asleep (h : p.prepare = .asleep c) : p = .asleep c := by
  unfold prepare at h
  split at h
  · cases h
  · exact h

theorem prepare_past (h : p.prepare = .past c) : p = .past c := by
  unfold prepare at h
  split at h
  · cases h
  · exact h

theorem wake_asleep (h : p.wake reach = .asleep c) : p = .asleep c ∧ reach c = false := by
  unfold wake at h
  split at h
  · cases h
  · split_ifs at h with hr
    cases h
    exact ⟨rfl, Bool.eq_false_iff.mpr hr⟩
  · rename_i hq hs
    exact absurd h (hs c)

theorem wake_past (h : p.wake reach = .past c) : p = .past c := by
  unfold wake at h
  split at h
  · cases h
  · split_ifs at h
  · exact h

end Place

variable {K C : Type*}

/-- No thread sleeps although its condition holds, unless a wake-up is owed to it. -/
def NoLost (holds : C → Bool) (owed : C → Prop) (place : K → Place C) : Prop :=
  ∀ k c, place k = .asleep c → holds c = true → owed c

variable {holds holds' : C → Bool} {owed owed' : C → Prop} {place : K → Place C}

/-- A thread goes on, and does not fall asleep unless its condition is false. -/
theorem NoLost.move [DecidableEq K] (h : NoLost holds owed place) (k : K) (p : Place C)
    (hp : ∀ c, p = .asleep c → place k = .asleep c ∨ holds c = false) :
    NoLost holds owed (Function.update place k p) := by
  intro j c hj hc
  by_cases hjk : j = k
  · subst hjk
    rw [Function.update_self] at hj
    rcases hp c hj with hj | hf
    · exact h j c hj hc
    · rw [hc] at hf
      cases hf
  · rw [Function.update_of_ne hjk] at hj
    exact h j c hj hc

/-- The conditions change: for each that becomes true a wake-up is owed. -/
theorem NoLost.write (h : NoLost holds owed place) (hw : ∀ c, holds' c = true → holds c = true ∨ owed' c)
    (ho : ∀ c, owed c → owed' c) : NoLost holds' owed' place := by
  intro k c hk hc
  rcases hw c hc with hc | hc
  · exact ho c (h k c hk hc)
  · exact hc

/-- A wake-up: it is not owed any more to those that it reaches. -/
theorem NoLost.wake (h : NoLost holds owed place) {reach : C → Bool}
    (ho : ∀ c, owed c → reach c = false → owed' c) :
    NoLost holds owed' fun k => (place k).wake reach := by
  intro k c hk hc
  obtain ⟨hk, hr⟩ := Place.wake_asleep hk
  exact ho c (h k c hk hc) hr

end GH.WaitQueue
