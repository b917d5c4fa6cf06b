import Mathlib.Logic.Function.Basic

/-!
# Threads that share a lock

Threads, each at a place in its code, and a lock with at most one holder, which
need not be one of the threads. `Held` is what every use of the lock keeps: a
thread is at a place where it has the lock exactly when it is the holder. So no
two threads are at such places (`Held.others`), and what a thread does without
the lock (`Held.move`), by taking it (`Held.take`) or by releasing it
(`Held.release`) is the only thing to check.
-/

namespace GH.Lock

variable {K H P : Type*} {who : K → H} {locked : P → Bool} {lock lock' : Option H} {pcs : K → P} {k : K} {pc : P}

/-- A thread is where it has the lock exactly when it is the holder. -/
def Held (who : K → H) (locked : P → Bool) (lock : Option H) (pcs : K → P) : Prop :=
  ∀ k, locked (pcs k) = true ↔ lock = some (who k)

namespace Held

theorem of_unlocked (h : Held who locked lock pcs) (hk : locked (pcs k) = false) : lock ≠ some (who k) := by
  intro hl
  rw [(h k).mpr hl] at hk
  cases hk

/-- The holder is not one of the threads. -/
theorem unlocked (h : Held who locked lock pcs) (hl : ∀ k, lock ≠ some (who k)) (k : K) : locked (pcs k) = false := by
  rw [Bool.eq_false_iff]
  exact fun hk => hl k ((h k).mp hk)

/-- Another thread than the holder. -/
theorem others (h : Held who locked lock pcs) (hwho : who.Injective) (hl : lock = some (who k)) {j : K}
    (hj : j ≠ k) : locked (pcs j) = false := by
  rw [Bool.eq_false_iff]
  intro hlj
  have := (h j).mp hlj
  rw [hl, Option.some.injEq] at this
  exact hj (hwho this).symm

/-- The lock changes hands, and no thread is the holder before or after. -/
theorem outside (h : Held who locked lock pcs) (hl : ∀ k, lock ≠ some (who k)) (hl' : ∀ k, lock' ≠ some (who k)) :
    Held who locked lock' pcs :=
  fun k => iff_of_false (by rw [h.unlocked hl k]; nofun) (hl' k)

section Update

variable [DecidableEq K]

/-- A thread goes on, with the lock if it had it and without it if not. -/
theorem move (h : Held who locked lock pcs) (hpc : locked pc = locked (pcs k)) :
    Held who locked lock (Function.update pcs k pc) :=
  (Function.forall_update_iff pcs fun j pc => locked pc = true ↔ lock = some (who j)).mpr
    ⟨hpc ▸ h k, fun j _ => h j⟩

/-- A thread takes the lock. -/
theorem take (h : Held who locked lock pcs) (hwho : who.Injective) (hl : lock = none) (hpc : locked pc = true) :
    Held who locked (some (who k)) (Function.update pcs k pc) := by
  refine (Function.forall_update_iff pcs fun j pc => locked pc = true ↔ some (who k) = some (who j)).mpr
    ⟨iff_of_true hpc rfl, fun j hj => ?_⟩
  have hfree := h.unlocked (fun k => by rw [hl]; nofun) j
  exact iff_of_false (by rw [hfree]; nofun) fun e => hj (hwho (Option.some.inj e)).symm

/-- The holder releases the lock. -/
theorem release (h : Held who locked lock pcs) (hwho : who.Injective) (hl : lock = some (who k))
    (hpc : locked pc = false) : Held who locked none (Function.update pcs k pc) := by
  refine (Function.forall_update_iff pcs fun j pc => locked pc = true ↔ none = some (who j)).mpr
    ⟨iff_of_false (by rw [hpc]; nofun) nofun, fun j hj => ?_⟩
  exact iff_of_false (by rw [h.others hwho hl hj]; nofun) nofun

end Update

end Held

end GH.Lock
