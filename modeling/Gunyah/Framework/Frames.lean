import Gunyah.Framework.Blocks

/-!
# Frames in a stream

A stream of messages with frames in it: the first message of a frame says how many follow, and only a
first message can start one. A reader (`Reader.listen`) that does not find a whole frame goes on with the
next message. So of the log of writers that take turns (`Blocks`), each of which may give up in
the middle of its frame, it reads the frames that are whole, in their order (`listen_blocks`).
-/

namespace GH

variable {α β ι : Type*}

/-- How the messages of a stream are told apart into frames: a first message, which says how many follow it, and these. -/
structure Reader (α β : Type*) where
  /-- The message starts a frame. -/
  starts : α → Prop
  /-- How many messages follow it. -/
  size : α → Nat
  /-- What a frame says. -/
  frame : List α → Option β
  frame_nil : frame [] = none
  of_frame : ∀ {m ms b}, frame (m :: ms) = some b → starts m ∧ ms.length = size m ∧ ∀ m' ∈ ms, ¬ starts m'

namespace Reader

variable (r : Reader α β)

/-- What is read in `n` turns. -/
def listenFor : Nat → List α → List β
  | 0, _ => []
  | _ + 1, [] => []
  | n + 1, m :: ms =>
    match r.frame (m :: ms.take (r.size m)) with
    | some b => b :: listenFor n (ms.drop (r.size m))
    | none => listenFor n ms

/-- A turn takes a message at least. -/
def listen (ms : List α) : List β := r.listenFor ms.length ms

variable {r} {m : α} {ms rest : List α} {b : β}

theorem listenFor_congr {n k : Nat} (hn : ms.length ≤ n) (hk : ms.length ≤ k) : r.listenFor n ms = r.listenFor k ms := by
  induction n generalizing k ms with
  | zero =>
    obtain rfl := List.eq_nil_of_length_eq_zero (Nat.le_zero.mp hn)
    cases k <;> rfl
  | succ n ih =>
    cases ms with
    | nil => cases k <;> rfl
    | cons m ms =>
      cases k with
      | zero => cases hk
      | succ k =>
        have hn' := Nat.le_of_succ_le_succ hn
        have hk' := Nat.le_of_succ_le_succ hk
        have hdrop : (ms.drop (r.size m)).length ≤ ms.length := by
          rw [List.length_drop]
          exact Nat.sub_le ..
        rw [listenFor, listenFor, ih hn' hk', ih (Nat.le_trans hdrop hn') (Nat.le_trans hdrop hk')]

@[simp] theorem listen_nil : r.listen [] = [] := rfl

/-- Where no frame begins, the reader goes on with the next message. -/
theorem listen_none (h : r.frame (m :: ms.take (r.size m)) = none) : r.listen (m :: ms) = r.listen ms := by
  rw [listen, List.length_cons, listenFor, h]
  rfl

theorem listen_some (h : r.frame (m :: ms.take (r.size m)) = some b) :
    r.listen (m :: ms) = b :: r.listen (ms.drop (r.size m)) := by
  rw [listen, List.length_cons, listenFor, h]
  refine congrArg (b :: ·) (listenFor_congr ?_ (Nat.le_refl _))
  rw [List.length_drop]
  exact Nat.sub_le ..

/-- A message that starts nothing is passed over. -/
theorem listen_skip (h : ¬ r.starts m) : r.listen (m :: ms) = r.listen ms := by
  cases hf : r.frame (m :: ms.take (r.size m)) with
  | none => exact listen_none hf
  | some b => exact absurd (r.of_frame hf).1 h

theorem listen_skips (h : ∀ m ∈ ms, ¬ r.starts m) : r.listen (ms ++ rest) = r.listen rest := by
  induction ms with
  | nil => rfl
  | cons m ms ih =>
    rw [List.cons_append, listen_skip (h m List.mem_cons_self)]
    exact ih fun m' hm' => h m' (List.mem_cons_of_mem _ hm')

theorem listen_whole (h : r.frame ms = some b) : r.listen (ms ++ rest) = b :: r.listen rest := by
  cases ms with
  | nil => rw [r.frame_nil] at h; cases h
  | cons m ms =>
    obtain ⟨-, hlen, -⟩ := r.of_frame h
    rw [List.cons_append, listen_some (by rw [← hlen, List.take_left, h]), ← hlen, List.drop_left]

/-- Nothing, or a message that starts a frame. -/
def Begins (r : Reader α β) (ms : List α) : Prop := ∀ m ∈ ms.head?, r.starts m

/-- A frame that breaks off is passed over. -/
theorem listen_part (h : r.frame ms = some b) {n : Nat} (hn : n < ms.length) (hrest : r.Begins rest) :
    r.listen (ms.take n ++ rest) = r.listen rest := by
  cases n with
  | zero => rfl
  | succ n =>
  cases ms with
  | nil => cases hn
  | cons m ms =>
  obtain ⟨-, hlen, hms⟩ := r.of_frame h
  have htail : ∀ m' ∈ ms.take n, ¬ r.starts m' := fun m' hm' => hms m' (List.mem_of_mem_take hm')
  rw [List.take_succ_cons, List.cons_append]
  cases hb : r.frame (m :: (ms.take n ++ rest).take (r.size m)) with
  | none => rw [listen_none hb, listen_skips htail]
  | some b' =>
    -- the frame would go on into the rest
    obtain ⟨-, hlen', hmore⟩ := r.of_frame hb
    have hshort : (ms.take n).length < r.size m := by
      rw [List.length_cons] at hn
      rw [List.length_take]
      omega
    cases rest with
    | nil =>
      rw [List.append_nil, List.length_take] at hlen'
      omega
    | cons x rest =>
      refine absurd (hrest x rfl) (hmore x ?_)
      rw [List.take_append]
      refine List.mem_append_right _ ?_
      obtain ⟨k, hk⟩ : ∃ k, r.size m - (ms.take n).length = k + 1 := ⟨_, (Nat.succ_pred_eq_of_pos (by omega)).symm⟩
      rw [hk, List.take_succ_cons]
      exact List.mem_cons_self

/-! ## Blocks -/

section

variable {series : ι → List α} {value : ι → β}

theorem begins_blocks {bs : List (ι × Nat)} (h : ∀ b ∈ bs, r.frame (series b.1) = some (value b.1)) :
    r.Begins (bs.flatMap (Blocks.block series)) := by
  induction bs with
  | nil => nofun
  | cons b bs ih =>
    intro m hm
    rw [List.flatMap_cons, Blocks.block] at hm
    have hb := h b List.mem_cons_self
    cases hs : series b.1 with
    | nil => rw [hs, r.frame_nil] at hb; cases hb
    | cons m' ms =>
      rw [hs] at hb hm
      cases hn : b.2 with
      | zero =>
        rw [hn, List.take_zero, List.nil_append] at hm
        exact ih (fun b' hb' => h b' (List.mem_cons_of_mem _ hb')) m hm
      | succ n =>
        rw [hn] at hm
        obtain rfl : m' = m := Option.some.inj hm
        exact (r.of_frame hb).1

/-- The reader hears the writers that have written all of their frame. -/
theorem listen_blocks {bs : List (ι × Nat)} (h : ∀ b ∈ bs, r.frame (series b.1) = some (value b.1)) :
    r.listen (bs.flatMap (Blocks.block series)) =
      (bs.filter fun b => (series b.1).length ≤ b.2).map fun b => value b.1 := by
  induction bs with
  | nil => exact listen_nil
  | cons b bs ih =>
    have hbs : ∀ b' ∈ bs, r.frame (series b'.1) = some (value b'.1) := fun b' hb' => h b' (List.mem_cons_of_mem _ hb')
    have hb := h b List.mem_cons_self
    rw [List.flatMap_cons]
    by_cases hn : (series b.1).length ≤ b.2
    · rw [Blocks.block, List.take_of_length_le hn, listen_whole hb, ih hbs, List.filter_cons_of_pos (by simpa using hn)]
      rfl
    · rw [Blocks.block, listen_part hb (Nat.lt_of_not_le hn) (begins_blocks hbs), ih hbs,
        List.filter_cons_of_neg (by simpa using hn)]

end

end Reader

end GH
