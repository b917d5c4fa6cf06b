import Gunyah.Impl.Handlers
import Gunyah.Framework.History

/-!
# The memory notifier

`gh_mem_notifier.c`: a handler and its data for each tag, in a table under a
mutex. The code under the mutex is one step. A notification copies the entry of
its tag there (`ghMemNotifierCall` of `Impl.Handlers`), and calls the handler
after it has released the mutex, in a step of its own; registrations, and other
notifications, come in between. A cookie is the address of an entry: it is the
same for all registrations of a tag. `hist` is history.
-/

namespace GH.Impl.MemNotifier

open GH.Impl.Rm GH.Impl.Handlers

/-- A tag that the table has an entry for, which is also the cookie. -/
abbrev Tag := Fin GH_MEM_NOTIFIER_TAG_MAX

/-- `gh_mem_notifier_register`: the table, and the cookie or an error. -/
def ghMemNotifierRegister (entries : MemNotifierEntries) (tag : BitVec 32) (handler : Option Addr) (data : Addr) :
    MemNotifierEntries × Except Int Tag :=
  if h : tag.toNat < GH_MEM_NOTIFIER_TAG_MAX then
    match handler with
    | none => (entries, .error (-EINVAL))
    | some handler =>
      if (entries ⟨tag.toNat, h⟩).1.isSome then (entries, .error (-EEXIST))
      else (Function.update entries ⟨tag.toNat, h⟩ (some handler, data), .ok ⟨tag.toNat, h⟩)
  else (entries, .error (-EINVAL))

/-- `gh_mem_notifier_unregister`, with a cookie or `NULL`. -/
def ghMemNotifierUnregister (entries : MemNotifierEntries) : Option Tag → MemNotifierEntries
  | none => entries
  | some tag => Function.update entries tag (none, 0)

/-! ## Runs -/

/-- A notification: its number, and what the notifier chain gets. -/
structure Notif where
  i : Nat
  action : BitVec 32
  msg : List Byte
  deriving DecidableEq, Repr

/-- The tag of a notification. -/
def Notif.tag (n : Notif) : Nat := ((ghMemNotifierGetTag n.action).val n.msg).toNat

/-- What happens to the table and to the notifications. -/
inductive Event where
  | registered (tag : Nat) (handler data : Addr)
  /-- A registration has failed. -/
  | refused (tag : BitVec 32) (handler : Option Addr) (e : Int)
  | unregistered (tag : Nat)
  /-- A notification has copied the entry of its tag. -/
  | looked (n : Notif) (found : Option (Addr × Addr))
  /-- It calls the handler with the data. -/
  | called (n : Notif) (handler data : Addr)
  deriving DecidableEq, Repr

/-- The table, and the notifications that are between the copy of their entry and the call of its handler. -/
structure Notifier where
  entries : MemNotifierEntries := fun _ => (none, 0)
  /-- The number of the next notification. -/
  next : Nat := 0
  /-- The notifications that have found a handler, and have not called it yet. -/
  pending : Nat → Option (Notif × Addr × Addr) := fun _ => none
  hist : List Event := []

/-- The calls of the notifier's functions, in two steps where the lock is released in between. -/
inductive Act where
  | register (tag : BitVec 32) (handler : Option Addr) (data : Addr)
  | unregister (cookie : Option Tag)
  | notify (action : BitVec 32) (msg : List Byte)
  | call (i : Nat)

/-- The table after a registration. -/
def Notifier.registered (s : Notifier) (tag : BitVec 32) (handler : Option Addr) (data : Addr) : Notifier :=
  match ghMemNotifierRegister s.entries tag handler data with
  | (entries, .ok _) => { s with entries, hist := .registered tag.toNat (handler.getD 0) data :: s.hist }
  | (entries, .error e) => { s with entries, hist := .refused tag handler e :: s.hist }

/-- A notification has looked for its handler. -/
def Notifier.looked (s : Notifier) (n : Notif) (found : Option (Addr × Addr)) : Notifier :=
  { s with
    next := s.next + 1
    pending := Function.update s.pending n.i (found.map (n, ·))
    hist := .looked n found :: s.hist }

/-- One such step. -/
def step (s : Notifier) : Act → Option Notifier
  | .register tag handler data => some (s.registered tag handler data)
  | .unregister cookie =>
    some { s with
      entries := ghMemNotifierUnregister s.entries cookie
      hist := (cookie.map fun tag => Event.unregistered tag).toList ++ s.hist }
  | .notify action msg => some (s.looked ⟨s.next, action, msg⟩ ((ghMemNotifierCall s.entries action).val msg).2)
  | .call i =>
    (s.pending i).map fun (n, handler, data) =>
      { s with pending := Function.update s.pending i none, hist := .called n handler data :: s.hist }

end GH.Impl.MemNotifier
