import Gunyah.Impl.Rm.Core

/-!
# The state of the calls and the receive task

What `set`, `free` and `setCall` leave as it is, what following a pointer
gives, and who holds a connection: a call in flight (`InFlight`), or the
receive task.
-/

namespace GH.Proof.Rm

open GH.Impl GH.Impl.Rm

section Updates

variable (s : Core) (a b : Addr) (c : Connection) (k : Nat) (x : CallState)

@[simp] theorem set_heap : (s.set a c).heap = Function.update s.heap a (some c) := rfl
@[simp] theorem set_next : (s.set a c).next = s.next := rfl
@[simp] theorem set_idr : (s.set a c).idr = s.idr := rfl
@[simp] theorem set_calls : (s.set a c).calls = s.calls := rfl
@[simp] theorem set_pending : (s.set a c).pending = s.pending := rfl
@[simp] theorem set_task : (s.set a c).task = s.task := rfl
@[simp] theorem set_works : (s.set a c).works = s.works := rfl
@[simp] theorem set_appended : (s.set a c).appended = s.appended := rfl
@[simp] theorem set_completed : (s.set a c).completed = s.completed := rfl

@[simp] theorem free_heap : (s.free a).heap = Function.update s.heap a none := rfl
@[simp] theorem free_next : (s.free a).next = s.next := rfl
@[simp] theorem free_idr : (s.free a).idr = s.idr := rfl
@[simp] theorem free_calls : (s.free a).calls = s.calls := rfl
@[simp] theorem free_pending : (s.free a).pending = s.pending := rfl
@[simp] theorem free_task : (s.free a).task = s.task := rfl
@[simp] theorem free_works : (s.free a).works = s.works := rfl
@[simp] theorem free_appended : (s.free a).appended = s.appended := rfl
@[simp] theorem free_completed : (s.free a).completed = s.completed := rfl

@[simp] theorem setCall_heap : (s.setCall k x).heap = s.heap := rfl
@[simp] theorem setCall_next : (s.setCall k x).next = s.next := rfl
@[simp] theorem setCall_idr : (s.setCall k x).idr = s.idr := rfl
@[simp] theorem setCall_calls : (s.setCall k x).calls = Function.update s.calls k x := rfl
@[simp] theorem setCall_pending : (s.setCall k x).pending = s.pending := rfl
@[simp] theorem setCall_task : (s.setCall k x).task = s.task := rfl
@[simp] theorem setCall_works : (s.setCall k x).works = s.works := rfl
@[simp] theorem setCall_appended : (s.setCall k x).appended = s.appended := rfl
@[simp] theorem setCall_completed : (s.setCall k x).completed = s.completed := rfl

end Updates

/-- What an updated table holds: the new entry, or an old one. -/
theorem of_update {α β : Type} [DecidableEq α] {f : α → Option β} {i j : α} {x : Option β} {y : β}
    (h : Function.update f i x j = some y) : (j = i ∧ x = some y) ∨ (j ≠ i ∧ f j = some y) := by
  by_cases e : j = i
  · subst e
    exact .inl ⟨rfl, by rwa [Function.update_self] at h⟩
  · exact .inr ⟨e, by rwa [Function.update_of_ne e] at h⟩

theorem deref_live {s : Core} {a : Addr} {c : Connection} (h : s.heap a = some c) (f : RecvFn) :
    s.deref f (.obj a) = .ok (a, c) := by
  simp [Core.deref, h]

theorem deref_freed {s : Core} {a : Addr} (h : s.heap a = none) (f : RecvFn) :
    s.deref f (.obj a) = .error (.badPtr f (.obj a), s) := by
  simp [Core.deref, h]

theorem deref_err (s : Core) (e : Int) (f : RecvFn) :
    s.deref f (.err e) = .error (.badPtr f (.err e), s) := rfl

/-- Call `k` has allocated a sequence number for the connection at `a` and
has not returned. -/
def InFlight (s : Core) (k : Nat) (a : Addr) : Prop :=
  s.calls k = .sending a ∨ s.calls k = .waiting a

end GH.Proof.Rm
