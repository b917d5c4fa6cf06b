import Gunyah.Spec.Vm.Life

/-!
# The log of a VM

A log whose requests are in turn stays so with one more that is in turn (`LogOk.append`): of the
VMIDs that were allocated the last one is the book's, and the only one that the RM is asked to take back.
-/

namespace GH.Proof.Life

open GH.Impl.Rm GH.Impl.Main GH.Impl.Life GH.Spec.Life

theorem book_append (log : List Event) (e : Event) : book (log ++ [e]) = (book log).after e := by
  rw [book, List.foldl_append]
  rfl

theorem inTurn_append {b : Book} {log : List Event} {e : Event} :
    InTurn b (log ++ [e]) ↔ InTurn b log ∧ (log.foldl Book.after b).inTurn e := by
  induction log generalizing b with
  | nil => simp [InTurn]
  | cons x log ih =>
    rw [List.cons_append, InTurn, InTurn, ih, List.foldl_cons, and_assoc]

/-- The last VMID that was allocated is the one of the book, and the only one that the RM is asked to take back. -/
structure LogOk (log : List Event) : Prop where
  inTurn : InTurn {} log
  last : (allocated log).getLast? = if (book log).stage = .unknown then none else some (book log).vmid
  returned : returned log = if (book log).stage = .gone then [(book log).vmid] else []

theorem LogOk.nil : LogOk [] := ⟨trivial, rfl, rfl⟩

/-- The VMID that a request allocates. -/
def allocates : Event → Option VmId
  | .ask .allocVmid vmid true => some vmid
  | _ => none

/-- The VMID that the RM is asked to take back. -/
def returns : Event → Option VmId
  | .ask .deallocVmid vmid _ => some vmid
  | _ => none

theorem allocated_append (log : List Event) (e : Event) :
    allocated (log ++ [e]) = allocated log ++ (allocates e).toList := by
  have h : allocated [e] = (allocates e).toList := by
    rcases e with ⟨r, vmid, ok⟩ | ⟨x, vmid⟩
    · cases r <;> cases ok <;> rfl
    · rfl
  rw [← h, allocated, List.filterMap_append]
  rfl

theorem returned_append (log : List Event) (e : Event) :
    returned (log ++ [e]) = returned log ++ (returns e).toList := by
  have h : returned [e] = (returns e).toList := by
    rcases e with ⟨r, vmid, ok⟩ | ⟨x, vmid⟩
    · cases r <;> rfl
    · rfl
  rw [← h, returned, List.filterMap_append]
  rfl

/-- A VMID is unknown before the first is allocated, and gone once the RM has been asked to take it back. -/
theorem after_same {b : Book} {e : Event} (hi : b.inTurn e) (hf : b.fair e) (ha : allocates e = none)
    (hr : returns e = none) :
    (b.after e).vmid = b.vmid ∧ ((b.after e).stage = .unknown ↔ b.stage = .unknown) ∧
      ((b.after e).stage = .gone ↔ b.stage = .gone) := by
  rcases e with ⟨r, vmid, ok⟩ | ⟨x, vmid⟩
  · cases ok
    · cases r <;> first | exact ⟨rfl, .rfl, .rfl⟩ | cases hr
    · cases r <;>
        simp_all [allocates, returns, Book.inTurn, Book.allows, Book.after, Stage.next]
      rcases hi.2 with (hs | hs | hs | hs) | hs <;> simp [hs]
  · cases x <;> simp_all [Book.fair, saidAt, Book.after]

theorem eq_of_allocates {e : Event} {vmid : VmId} (h : allocates e = some vmid) : e = .ask .allocVmid vmid true := by
  unfold allocates at h
  split at h <;> cases h
  rfl

theorem eq_of_returns {e : Event} {vmid : VmId} (h : returns e = some vmid) : ∃ ok, e = .ask .deallocVmid vmid ok := by
  unfold returns at h
  split at h <;> cases h
  exact ⟨_, rfl⟩

theorem LogOk.append {log : List Event} {e : Event} (h : LogOk log) (hi : (book log).inTurn e)
    (hf : (book log).fair e) : LogOk (log ++ [e]) := by
  have hl := h.last
  have hr := h.returned
  cases ha : allocates e with
  | some vmid =>
    obtain rfl := eq_of_allocates ha
    have hgone : (book log).stage ≠ .gone := fun hg => by simp [Book.fair, hg] at hf
    rw [if_neg hgone] at hr
    refine ⟨inTurn_append.mpr ⟨h.inTurn, hi⟩, ?_, ?_⟩
    · rw [book_append, allocated_append, ha]
      simp [Book.after]
    · rw [book_append, returned_append, hr]
      simp [returns, Book.after]
  | none =>
  cases hr' : returns e with
  | some vmid =>
    obtain ⟨ok, rfl⟩ := eq_of_returns hr'
    obtain ⟨rfl, hal⟩ := hi
    have hunknown : (book log).stage ≠ .unknown := fun hu => by simp [Book.allows, hu] at hal
    have hgone : (book log).stage ≠ .gone := fun hg => by simp [Book.allows, hg] at hal
    rw [if_neg hgone] at hr
    rw [if_neg hunknown] at hl
    refine ⟨inTurn_append.mpr ⟨h.inTurn, rfl, hal⟩, ?_, ?_⟩
    · rw [book_append, allocated_append, ha]
      simpa [Book.after] using hl
    · rw [book_append, returned_append, hr, hr']
      simp [Book.after]
  | none =>
    obtain ⟨hv, hu, hg⟩ := after_same hi hf ha hr'
    refine ⟨inTurn_append.mpr ⟨h.inTurn, hi⟩, ?_, ?_⟩
    · rw [book_append, allocated_append, ha, hv]
      simpa [hu] using hl
    · rw [book_append, returned_append, hr', hv]
      simpa [hg] using hr

end GH.Proof.Life
