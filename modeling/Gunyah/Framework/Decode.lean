import Mathlib.Data.List.Basic

/-!
# Reading a layout

A layout of a message is a decoder: it reads a value off the front of the
message and leaves the rest. `Decodes d bs a` says that `bs` is such a front: `d`
reads `a` from it, and leaves what follows it, whatever that is. The layout of
a message with several parts is put together with `bind`, and `Decodes` goes
through it part by part. `Consumes` says how long the front is, by what is read from it.
-/

namespace GH

universe u

/-- A reader of values of type `α` off the front of a list. -/
abbrev Decoder (β : Type u) (α : Type u) := StateT (List β) Option α

variable {β α γ : Type u}

namespace Decoder

/-- The next `n` elements. -/
def take (n : Nat) : Decoder β (List β) := fun bs =>
  if n ≤ bs.length then some (bs.take n, bs.drop n) else none

/-- The next `n` elements are passed over. -/
def skip (n : Nat) : Decoder β PUnit := fun bs =>
  if n ≤ bs.length then some (⟨⟩, bs.drop n) else none

/-- `n` values, one after the other. -/
def count (d : Decoder β α) : Nat → Decoder β (List α)
  | 0 => pure []
  | n + 1 => do
    let a ← d
    let as ← count d n
    return a :: as

end Decoder

/-- `d` reads `a` from `bs`, and leaves what follows. -/
def Decodes (d : Decoder β α) (bs : List β) (a : α) : Prop := ∀ rest, d (bs ++ rest) = some (a, rest)

namespace Decodes

variable {d : Decoder β α} {bs cs : List β} {a : α} {c : γ}

protected theorem pure (a : α) : Decodes (β := β) (pure a) [] a := fun _ => rfl

protected theorem bind {f : α → Decoder β γ} (h : Decodes d bs a) (h' : Decodes (f a) cs c) :
    Decodes (d >>= f) (bs ++ cs) c := by
  intro rest
  rw [List.append_assoc]
  exact (congrArg (fun x => x.bind fun p => f p.1 p.2) (h (cs ++ rest))).trans (h' rest)

/-- The last part of a layout. -/
theorem bind_pure {f : α → γ} (h : Decodes d bs a) (hc : f a = c) :
    Decodes (d >>= fun a => Pure.pure (f a)) bs c := by
  subst hc
  have h' : Decodes (d >>= fun a => Pure.pure (f a)) (bs ++ []) (f a) := h.bind (.pure (f a))
  rwa [List.append_nil] at h'

theorem take {n : Nat} (h : bs.length = n) : Decodes (Decoder.take n) bs bs := by
  intro rest
  subst h
  simp [Decoder.take]

theorem skip {n : Nat} (h : bs.length = n) : Decodes (Decoder.skip n) bs ⟨⟩ := by
  intro rest
  subst h
  simp [Decoder.skip]

theorem count {enc : α → List β} (h : ∀ a, Decodes d (enc a) a) (as : List α) :
    Decodes (d.count as.length) (as.flatMap enc) as := by
  induction as with
  | nil => exact .pure []
  | cons a as ih =>
    rw [List.flatMap_cons]
    exact (h a).bind (ih.bind_pure rfl)

/-- A message that is all of the layout. -/
theorem exact (h : Decodes d bs a) : d bs = some (a, []) := by
  have := h []
  rwa [List.append_nil] at this

/-- Where `bs` is followed by something, `d` does not use up the message. -/
theorem rest_of_eq {rest rest' : List β} {a' : α} (h : Decodes d bs a) (h' : d (bs ++ rest) = some (a', rest')) :
    a = a' ∧ rest = rest' := by
  rw [h rest, Option.some.injEq, Prod.mk.injEq] at h'
  exact h'

end Decodes

/-- With the `k` elements before it, what `d` reads has the length that `size` says. -/
def Consumes (k : Nat) (d : Decoder β α) (size : α → Nat) : Prop :=
  ∀ bs a rest, d bs = some (a, rest) → k + bs.length = size a + rest.length

namespace Consumes

variable {d : Decoder β α} {k n : Nat} {size : α → Nat}

protected theorem pure {a : α} (h : k = size a) : Consumes (β := β) k (pure a) size := by
  rintro bs b rest hb
  cases hb
  rw [h]

protected theorem bind {f : α → Decoder β γ} {size' : γ → Nat} (h : Consumes 0 d size)
    (h' : ∀ a, Consumes (k + size a) (f a) size') : Consumes k (d >>= f) size' := by
  intro bs c rest hc
  obtain ⟨⟨a, mid⟩, ha, hc⟩ := Option.bind_eq_some_iff.mp hc
  have hfront := h bs a mid ha
  have hback := h' a mid c rest hc
  omega

theorem behind {size' : α → Nat} (h : Consumes 0 d size) (h' : ∀ a, k + size a = size' a) : Consumes k d size' := by
  intro bs a rest ha
  have hlen := h bs a rest ha
  rw [← h' a]
  omega

theorem take (n : Nat) : Consumes (β := β) 0 (Decoder.take n) fun _ => n := by
  intro bs a rest h
  simp only [Decoder.take, Option.ite_none_right_eq_some, Option.some.injEq, Prod.mk.injEq] at h
  obtain ⟨hn, -, rfl⟩ := h
  rw [List.length_drop, Nat.zero_add, Nat.add_sub_cancel' hn]

theorem skip (n : Nat) : Consumes (β := β) 0 (Decoder.skip n) fun _ => n := by
  intro bs a rest h
  simp only [Decoder.skip, Option.ite_none_right_eq_some, Option.some.injEq, Prod.mk.injEq] at h
  obtain ⟨hn, -, rfl⟩ := h
  rw [List.length_drop, Nat.zero_add, Nat.add_sub_cancel' hn]

theorem count (h : Consumes 0 d fun _ => n) (m : Nat) : Consumes 0 (d.count m) fun as => n * as.length := by
  induction m with
  | zero => exact .pure (Nat.mul_zero n).symm
  | succ m ih =>
    intro bs as rest has
    obtain ⟨⟨a, mid⟩, ha, has⟩ := Option.bind_eq_some_iff.mp has
    obtain ⟨⟨as', mid'⟩, has', heq⟩ := Option.bind_eq_some_iff.mp has
    cases heq
    have hfirst := h bs a mid ha
    have hmore := ih mid as' rest has'
    simp only [List.length_cons, Nat.mul_succ] at hfirst hmore ⊢
    omega

end Consumes

end GH
