import Gunyah.Impl.MemNotifier

/-!
# What the memory notifier is for

For a tag, a handler is registered from its registration until the tag is
unregistered (`Registered`), and a tag has at most one. A notification finds the
handler that is registered for its tag when it looks, calls that with the data
that it was registered with, and calls it once.
-/

namespace GH.Spec.MemNotifier

open GH.Impl GH.Impl.Rm GH.Impl.Handlers GH.Impl.MemNotifier

/-- The handler has been registered for the tag, which has not been unregistered since. -/
def Registered (hist : List Event) (tag : Nat) (handler data : Addr) : Prop :=
  Since (.registered tag handler data) (· = .unregistered tag) hist

/-- The notifications that the memory notifier is interested in. -/
def Interesting (action : BitVec 32) : Prop :=
  action = GH_RM_NOTIF_MEM_SHARED ∨ action = GH_RM_NOTIF_MEM_RELEASED ∨ action = GH_RM_NOTIF_MEM_ACCEPTED

/-- What must hold where an event happens, with the events before it. -/
def EventRight : Event → List Event → Prop
  | .registered tag _ _, past =>
    tag < GH_MEM_NOTIFIER_TAG_MAX ∧ ∀ handler data, ¬ Registered past tag handler data
  | .refused tag handler e, past =>
    (e = -EINVAL ∧ (GH_MEM_NOTIFIER_TAG_MAX ≤ tag.toNat ∨ handler = none)) ∨
      (e = -EEXIST ∧ ∃ handler data, Registered past tag.toNat handler data)
  | .unregistered _, _ => True
  | .looked n found, past =>
    ∀ handler data, found = some (handler, data) ↔ Interesting n.action ∧ Registered past n.tag handler data
  | .called n handler data, past =>
    ∃ past', .looked n (some (handler, data)) :: past' <:+ past ∧ Registered past' n.tag handler data

/-- The calls of a notification. -/
def calls (hist : List Event) (n : Notif) : Nat :=
  hist.countP fun
    | .called n' _ _ => n' = n
    | _ => false

/-- The table and each event agree with what has happened before. -/
structure Right (s : Notifier) : Prop where
  /-- The table holds what is registered. -/
  table : ∀ (tag : Tag) handler data, s.entries tag = (some handler, data) ↔ Registered s.hist tag handler data
  events : ∀ e past, e :: past <:+ s.hist → EventRight e past
  /-- A notification that has found a handler has called it once, or is yet to call it. -/
  once : ∀ n found, .looked n found ∈ s.hist →
    calls s.hist n + (if (s.pending n.i).isSome then 1 else 0) = if found.isSome then 1 else 0

end GH.Spec.MemNotifier
