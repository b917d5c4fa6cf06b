import Mathlib.Data.List.Basic

/-!
# Writes to a buffer

A message is built in a buffer by writes at offsets into it. A sequence of
writes has a result only if each of them is inside the buffer (`stores_some_iff`).
Writes that keep to blocks of the buffer, one after the other, give the blocks
one after the other (`stores_block`, `stores_each`), and only so (`stores_parts`).
Where nothing stops a write that is not inside the buffer, the buffer has the
part of it that is (`overwrites`).
-/

namespace GH

variable {α β : Type*}

/-- `bytes` is written from offset `off` on. -/
structure Write (β : Type*) where
  off : Nat
  bytes : List β
  deriving DecidableEq, Repr

namespace Write

/-- The write, to a buffer that starts `k` positions further on. -/
def shift (k : Nat) (w : Write β) : Write β := ⟨k + w.off, w.bytes⟩

/-- Nothing is written behind the first `n` positions. -/
def Inside (w : Write β) (n : Nat) : Prop := w.bytes.length = 0 ∨ w.off + w.bytes.length ≤ n

/-- Position `i` is written to. -/
def Covers (w : Write β) (i : Nat) : Prop := w.off ≤ i ∧ i < w.off + w.bytes.length

instance (w : Write β) (n : Nat) : Decidable (w.Inside n) := inferInstanceAs (Decidable (_ ∨ _))
instance (w : Write β) (i : Nat) : Decidable (w.Covers i) := inferInstanceAs (Decidable (_ ∧ _))

end Write

/-- The buffer after a write: `none` where it is not inside the buffer. -/
def store (w : Write β) (buf : List β) : Option (List β) :=
  if w.Inside buf.length then some (buf.take w.off ++ w.bytes ++ buf.drop (w.off + w.bytes.length)) else none

/-- The buffer after a sequence of writes. -/
def stores : List (Write β) → List β → Option (List β)
  | [], buf => some buf
  | w :: ws, buf => (store w buf).bind (stores ws)

/-- What a buffer has after a write, which may go on behind its end. -/
def overwrite (w : Write β) (buf : List β) : List β :=
  buf.take w.off ++ w.bytes.take (buf.length - w.off) ++ buf.drop (w.off + w.bytes.length)

/-- What it has after a sequence of them. -/
def overwrites : List (Write β) → List β → List β
  | [], buf => buf
  | w :: ws, buf => overwrites ws (overwrite w buf)

/-- The writes to a buffer that starts at offset `k`. -/
def atOffset (k : Nat) (ws : List (Write β)) : List (Write β) := ws.map (Write.shift k)

/-- The writes to an array of elements of size `k`, one element after the other. -/
def each (k : Nat) (f : α → List (Write β)) : List α → List (Write β)
  | [] => []
  | x :: xs => f x ++ atOffset k (each k f xs)

variable {w : Write β} {ws vs : List (Write β)} {buf buf' : List β}

theorem inside_iff {n : Nat} : w.Inside n ↔ ∀ i, w.Covers i → i < n := by
  constructor
  · rintro h i ⟨hle, hlt⟩
    rcases h with h | h <;> omega
  · intro h
    by_cases h0 : w.bytes.length = 0
    · exact .inl h0
    · have := h (w.off + w.bytes.length - 1) ⟨by omega, by omega⟩
      exact .inr (by omega)

theorem Write.Inside.mono {m n : Nat} (h : w.Inside m) (hmn : m ≤ n) : w.Inside n := by
  simp only [Write.Inside] at h ⊢
  omega

theorem length_store (h : store w buf = some buf') : buf'.length = buf.length := by
  simp only [store, Option.ite_none_right_eq_some, Option.some.injEq] at h
  obtain ⟨hin, rfl⟩ := h
  simp only [List.length_append, List.length_take, List.length_drop]
  rcases hin with hin | hin <;> omega

theorem length_stores (h : stores ws buf = some buf') : buf'.length = buf.length := by
  induction ws generalizing buf with
  | nil =>
    simp only [stores, Option.some.injEq] at h
    rw [h]
  | cons w ws ih =>
    obtain ⟨mid, hw, h⟩ := Option.bind_eq_some_iff.mp h
    exact (ih h).trans (length_store hw)

theorem stores_append : stores (ws ++ vs) buf = (stores ws buf).bind (stores vs) := by
  induction ws generalizing buf with
  | nil => rfl
  | cons w ws ih =>
    simp only [List.cons_append, stores, Option.bind_assoc]
    exact Option.bind_congr fun _ _ => ih

/-- Writes have a result exactly if they are all inside the buffer. -/
theorem stores_some_iff : (∃ buf', stores ws buf = some buf') ↔ ∀ w ∈ ws, w.Inside buf.length := by
  induction ws generalizing buf with
  | nil => simp [stores]
  | cons w ws ih =>
    by_cases hw : w.Inside buf.length
    · obtain ⟨mid, hmid⟩ : ∃ mid, store w buf = some mid := ⟨_, if_pos hw⟩
      rw [stores, hmid, Option.bind_some, ih, length_store hmid, List.forall_mem_cons, and_iff_right hw]
    · simp [stores, store, hw]

/-! ## Writes behind the end -/

theorem length_overwrites : (overwrites ws buf).length = buf.length := by
  induction ws generalizing buf with
  | nil => rfl
  | cons w ws ih =>
    rw [overwrites, ih]
    simp only [overwrite, List.length_append, List.length_take, List.length_drop]
    omega

theorem overwrite_of_store (h : store w buf = some buf') : overwrite w buf = buf' := by
  simp only [store, Option.ite_none_right_eq_some, Option.some.injEq] at h
  obtain ⟨hin, rfl⟩ := h
  have hle : w.bytes.length ≤ buf.length - w.off := by
    rcases hin with hin | hin <;> omega
  rw [overwrite, List.take_of_length_le (l := w.bytes) hle]

/-- Writes that are all inside the buffer. -/
theorem overwrites_of_stores (h : stores ws buf = some buf') : overwrites ws buf = buf' := by
  induction ws generalizing buf with
  | nil => exact Option.some.inj h
  | cons w ws ih =>
    obtain ⟨mid, hw, h⟩ := Option.bind_eq_some_iff.mp h
    rw [overwrites, overwrite_of_store hw, ih h]

/-! ## Blocks -/

theorem atOffset_append (k : Nat) : atOffset k (ws ++ vs) = atOffset k ws ++ atOffset k vs := List.map_append

theorem atOffset_atOffset (k l : Nat) : atOffset k (atOffset l ws) = atOffset (k + l) ws := by
  simp only [atOffset, List.map_map]
  refine List.map_congr_left fun w _ => ?_
  simp only [Function.comp_apply, Write.shift, Nat.add_assoc]

theorem store_left (h : store w buf = some buf') (cs : List β) : store w (buf ++ cs) = some (buf' ++ cs) := by
  simp only [store, Option.ite_none_right_eq_some, Option.some.injEq] at h ⊢
  obtain ⟨hin, rfl⟩ := h
  rcases hin with hin | hin
  · exact ⟨.inl hin, by simp [List.length_eq_zero_iff.mp hin]⟩
  · refine ⟨.inr (by rw [List.length_append]; omega), ?_⟩
    rw [List.take_append_of_le_length (by omega), List.drop_append_of_le_length hin]
    simp only [List.append_assoc]

theorem stores_left (h : stores ws buf = some buf') (cs : List β) : stores ws (buf ++ cs) = some (buf' ++ cs) := by
  induction ws generalizing buf with
  | nil =>
    simp only [stores, Option.some.injEq] at h ⊢
    rw [h]
  | cons w ws ih =>
    obtain ⟨mid, hw, h⟩ := Option.bind_eq_some_iff.mp h
    rw [stores, store_left hw, Option.bind_some, ih h]

theorem store_right (h : store w buf = some buf') (as : List β) :
    store (w.shift as.length) (as ++ buf) = some (as ++ buf') := by
  simp only [store, Option.ite_none_right_eq_some, Option.some.injEq] at h ⊢
  obtain ⟨hin, rfl⟩ := h
  constructor
  · simp only [Write.Inside, Write.shift, List.length_append] at hin ⊢
    omega
  · simp only [Write.shift, List.take_length_add_append, Nat.add_assoc, List.drop_length_add_append,
      List.append_assoc]

theorem stores_right (h : stores ws buf = some buf') (as : List β) :
    stores (atOffset as.length ws) (as ++ buf) = some (as ++ buf') := by
  induction ws generalizing buf with
  | nil =>
    simp only [stores, Option.some.injEq] at h
    rw [atOffset, List.map_nil, stores, h]
  | cons w ws ih =>
    obtain ⟨mid, hw, h⟩ := Option.bind_eq_some_iff.mp h
    have ih := ih h
    rw [atOffset] at ih
    rw [atOffset, List.map_cons, stores, store_right hw, Option.bind_some, ih]

/-- Writes to a block, and writes to what comes after it. -/
theorem stores_block {as as' cs cs' : List β} {k : Nat} (hk : as.length = k) (has : stores ws as = some as')
    (hcs : stores vs cs = some cs') : stores (ws ++ atOffset k vs) (as ++ cs) = some (as' ++ cs') := by
  rw [stores_append, stores_left has, Option.bind_some, ← hk, ← length_stores has, stores_right hcs]

theorem inside_of_shift {k n : Nat} (h : (w.shift k).Inside (k + n)) : w.Inside n := by
  simp only [Write.Inside, Write.shift] at h ⊢
  omega

/-- The result of writes to a block and to what comes after it, where there is one. -/
theorem stores_parts {as cs out : List β} {k : Nat} (hk : as.length = k) (hws : ∀ w ∈ ws, w.Inside k)
    (h : stores (ws ++ atOffset k vs) (as ++ cs) = some out) :
    ∃ as' cs', stores ws as = some as' ∧ stores vs cs = some cs' ∧ out = as' ++ cs' := by
  obtain ⟨as', has⟩ := stores_some_iff.mpr (show ∀ w ∈ ws, w.Inside as.length by rwa [hk])
  have hvs : ∀ w ∈ vs, w.Inside cs.length := by
    intro w hw
    have hin := stores_some_iff.mp ⟨out, h⟩ (w.shift k) (List.mem_append_right _ (List.mem_map_of_mem hw))
    rw [List.length_append, hk] at hin
    exact inside_of_shift hin
  obtain ⟨cs', hcs⟩ := stores_some_iff.mpr hvs
  rw [stores_block hk has hcs, Option.some.injEq] at h
  exact ⟨as', cs', has, hcs, h.symm⟩

/-- A block that is written as a whole. -/
theorem stores_whole {as bs : List β} (h : bs.length = as.length) : stores [⟨0, bs⟩] as = some bs := by
  have hin : (Write.mk 0 bs).Inside as.length := .inr (by simp [h])
  simp [stores, store, hin, h]

/-- An array, each element of which is written to a block of the same buffer. -/
theorem stores_each {f : α → List (Write β)} {g : α → List β} {old : List β} {k : Nat} (hk : old.length = k)
    (hf : ∀ x, stores (f x) old = some (g x)) (xs : List α) :
    stores (each k f xs) (List.replicate xs.length old).flatten = some (xs.flatMap g) := by
  induction xs with
  | nil => rfl
  | cons x xs ih =>
    rw [each, List.length_cons, List.replicate_succ, List.flatten_cons, List.flatMap_cons]
    exact stores_block hk (hf x) ih

/-- An array that is written inside a buffer, where the end of each element is written, is not longer than this. -/
theorem each_le {f : α → List (Write β)} {k : Nat} (hf : ∀ x, ∃ w ∈ f x, w.bytes.length ≠ 0 ∧ w.off + w.bytes.length = k)
    {xs : List α} {n : Nat} (h : ∀ w ∈ each k f xs, w.Inside n) : k * xs.length ≤ n := by
  induction xs generalizing n with
  | nil => exact Nat.zero_le n
  | cons x xs ih =>
    obtain ⟨w, hw, hne, hend⟩ := hf x
    have hk : k ≤ n := by
      have hin := (h w (List.mem_append_left _ hw)).resolve_left hne
      omega
    have hrest : ∀ w ∈ each k f xs, w.Inside (n - k) := by
      intro w hw
      have hin := h (w.shift k) (List.mem_append_right _ (List.mem_map_of_mem hw))
      rw [show n = k + (n - k) by omega] at hin
      exact inside_of_shift hin
    have hle := ih hrest
    rw [List.length_cons, Nat.mul_succ]
    omega

end GH
