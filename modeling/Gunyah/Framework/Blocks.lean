import Mathlib.Data.List.Basic
import Mathlib.Data.List.Nodup

/-!
# Writers that take turns

Writers, each with a series of its own, write to one log. A writer takes a
lock, writes the items of its series one after the other and releases the
lock, at any point and once. The log is then made of blocks (`Blocks.Inv`):
one for each writer that held the lock, with the first items of its series.
-/

namespace GH

variable {ι α : Type*}

/-- A log that writers add to, one at a time, each holding the lock for all its items. -/
structure Blocks (ι α : Type*) where
  log : List α
  /-- The writer that holds the lock, and how many items it has written. -/
  holder : Option (ι × Nat)
  /-- The writers that released the lock, and how many items each wrote. -/
  past : List (ι × Nat)

namespace Blocks

/-- Nothing is written, and the lock is free. -/
def init : Blocks ι α := ⟨[], none, []⟩

variable (series : ι → List α)

/-- What can happen. -/
inductive Step (c : Blocks ι α) : Blocks ι α → Prop where
  | take (k : ι) (h : c.holder = none) (hk : ∀ b ∈ c.past, b.1 ≠ k) : Step c { c with holder := some (k, 0) }
  | write (k : ι) (n : Nat) (x : α) (h : c.holder = some (k, n)) (hx : (series k)[n]? = some x) :
    Step c { c with log := c.log ++ [x], holder := some (k, n + 1) }
  | release (k : ι) (n : Nat) (h : c.holder = some (k, n)) :
    Step c { c with holder := none, past := c.past ++ [(k, n)] }

/-- What writer `b.1` has written. -/
def block (b : ι × Nat) : List α := (series b.1).take b.2

/-- The blocks of the log: the past ones, and the one being written. -/
def blocks (c : Blocks ι α) : List (ι × Nat) := c.past ++ c.holder.toList

/-- The log is the blocks of different writers, one after the other. -/
structure Inv (c : Blocks ι α) : Prop where
  log : c.log = c.blocks.flatMap (block series)
  nodup : (c.blocks.map (·.1)).Nodup

theorem Inv.init : Inv series (Blocks.init : Blocks ι α) := ⟨rfl, List.nodup_nil⟩

variable {series} {c c' : Blocks ι α}

theorem block_succ {k : ι} {n : Nat} {x : α} (hx : (series k)[n]? = some x) :
    block series (k, n + 1) = block series (k, n) ++ [x] := by
  rw [block, block, List.take_add_one, hx, Option.toList_some]

theorem Inv.step (h : c.Inv series) (hs : c.Step series c') : c'.Inv series := by
  obtain ⟨hlog, hnodup⟩ := h
  cases hs with
  | take k hk hnew =>
    simp only [blocks, hk, Option.toList_none, List.append_nil] at hlog hnodup
    refine ⟨?_, ?_⟩
    · simp only [blocks, Option.toList_some, List.flatMap_append, List.flatMap_singleton]
      rw [hlog, block, List.take_zero, List.append_nil]
    · simp only [blocks, Option.toList_some, List.map_append, List.map_cons, List.map_nil]
      refine List.nodup_append.mpr ⟨hnodup, List.nodup_singleton k, ?_⟩
      intro a ha b hb
      obtain ⟨p, hp, rfl⟩ := List.mem_map.mp ha
      rw [List.mem_singleton.mp hb]
      exact hnew p hp
  | write k n x hk hx =>
    simp only [blocks, hk, Option.toList_some, List.flatMap_append, List.flatMap_singleton] at hlog
    simp only [blocks, hk, Option.toList_some, List.map_append, List.map_cons, List.map_nil] at hnodup
    refine ⟨?_, ?_⟩
    · simp only [blocks, Option.toList_some, List.flatMap_append, List.flatMap_singleton]
      rw [hlog, block_succ hx, List.append_assoc]
    · simpa only [blocks, Option.toList_some, List.map_append, List.map_cons, List.map_nil] using hnodup
  | release k n hk =>
    have hb : blocks { c with holder := none, past := c.past ++ [(k, n)] } = c.blocks := by
      simp only [blocks, hk, Option.toList_none, Option.toList_some, List.append_nil]
    exact ⟨by rw [hb]; exact hlog, by rw [hb]; exact hnodup⟩

end Blocks

end GH
