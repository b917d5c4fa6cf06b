import Gunyah.Framework.Buffer
import Mathlib.Data.List.Basic

/-!
# Strings in a buffer

A string in a buffer goes up to the first NUL. `putCut` writes one with its NUL, as
much of it as there is room for. A buffer that holds a text, up to where the buffer
ends, is `cstr`: its string has the length of the text exactly if the text fits
(`strlen_cstr`), and what is put at the end of the string is added to the
text (`putCut_cstr`).
-/

namespace GH

variable {β : Type*} (nul : β)

/-- The length of the string in a buffer: `none` if there is no NUL in it. -/
def strlen [DecidableEq β] (buf : List β) : Option Nat := if nul ∈ buf then some (buf.idxOf nul) else none

/-- At most `size` positions are written from `off` on, with the NUL: `none`
where they are not in the buffer. -/
def putCut (buf : List β) (off size : Nat) (s : List β) : Option (List β) :=
  if size = 0 then some buf else store ⟨off, s.take (size - 1) ++ [nul]⟩ buf

/-- A buffer of `n` positions that holds a text, cut where it ends. -/
def cstr (n : Nat) (text : List β) : List β :=
  text.take (n - 1) ++ List.replicate (n - min text.length (n - 1)) nul

variable {nul} {n : Nat} {text s : List β}

theorem length_cstr (hn : 0 < n) : (cstr nul n text).length = n := by
  rw [cstr, List.length_append, List.length_take, List.length_replicate]
  omega

/-- A text that fits is followed by NULs. -/
theorem cstr_of_lt (h : text.length < n) : cstr nul n text = text ++ List.replicate (n - text.length) nul := by
  rw [cstr, List.take_of_length_le (by omega), Nat.min_eq_left (by omega)]

theorem cstr_nil (hn : 0 < n) : cstr nul n [] = List.replicate n nul := by
  rw [cstr_of_lt (by simpa using hn)]
  rfl

theorem strlen_cstr [DecidableEq β] (hn : 0 < n) (h : nul ∉ text) :
    strlen nul (cstr nul n text) = some (min text.length (n - 1)) := by
  obtain ⟨k, hk⟩ : ∃ k, n - min text.length (n - 1) = k + 1 := ⟨n - min text.length (n - 1) - 1, by omega⟩
  have hnot : nul ∉ text.take (n - 1) := fun hmem => h (List.mem_of_mem_take hmem)
  have hmem : nul ∈ cstr nul n text := by
    rw [cstr, hk, List.replicate_succ]
    exact List.mem_append_right _ List.mem_cons_self
  rw [strlen, if_pos hmem, cstr, List.idxOf_append_of_notMem hnot, hk, List.replicate_succ, List.idxOf_cons_self,
    List.length_take]
  congr 1
  omega

/-- The string in the buffer is as long as the text exactly if the text fits. -/
theorem strlen_cstr_iff [DecidableEq β] (hn : 0 < n) (h : nul ∉ text) :
    strlen nul (cstr nul n text) = some text.length ↔ text.length < n := by
  rw [strlen_cstr hn h, Option.some.injEq]
  omega

/-- What is put at the end of the string is added to the text. -/
theorem putCut_cstr (hn : 0 < n) :
    putCut nul (cstr nul n text) (min text.length (n - 1)) (n - min text.length (n - 1)) s =
      some (cstr nul n (text ++ s)) := by
  obtain ⟨m, hm⟩ : ∃ m, m = min text.length (n - 1) := ⟨_, rfl⟩
  have hlt : ¬ n - m = 0 := by omega
  have hlen : (s.take (n - m - 1) ++ [nul]).length = min s.length (n - m - 1) + 1 := by
    rw [List.length_append, List.length_take, List.length_singleton, Nat.min_comm]
  have hin : (Write.mk m (s.take (n - m - 1) ++ [nul])).Inside (cstr nul n text).length := by
    refine Or.inr ?_
    rw [length_cstr hn]
    simp only [hlen]
    omega
  have hpos : m = (text.take (n - 1)).length := by
    rw [List.length_take, hm, Nat.min_comm]
  have htake : (cstr nul n text).take m = text.take (n - 1) := by
    rw [cstr, hpos, List.take_left]
  have hdrop : (cstr nul n text).drop (m + (min s.length (n - m - 1) + 1)) =
      List.replicate (n - m - (min s.length (n - m - 1) + 1)) nul := by
    rw [cstr, ← hm, List.drop_append, ← hpos, List.drop_eq_nil_of_le (by omega), List.nil_append,
      Nat.add_sub_cancel_left, List.drop_replicate]
  have hroom : n - m - 1 = n - 1 - text.length := by omega
  have hrest : n - min (text ++ s).length (n - 1) = n - m - (min s.length (n - m - 1) + 1) + 1 := by
    rw [List.length_append]
    omega
  rw [← hm, putCut, if_neg hlt, store, if_pos hin]
  simp only [hlen, htake, hdrop]
  rw [cstr, hrest, List.take_append, ← hroom, List.replicate_succ]
  simp only [List.append_assoc, List.singleton_append]

/-- At the end of a text that fits. -/
theorem putCut_cstr_of_lt (h : text.length < n) :
    putCut nul (cstr nul n text) text.length (n - text.length) s = some (cstr nul n (text ++ s)) := by
  have hlen : min text.length (n - 1) = text.length := Nat.min_eq_left (by omega)
  rw [← putCut_cstr (by omega), hlen]

end GH
