import Gunyah.Impl.DblClient

/-!
# The registrations of doorbells

A Tx and an Rx client can be registered for each label. The history has the
registrations, each with the descriptor that the client was given: a
registration is there from a successful register until a successful unregister
of its direction. A descriptor serves the registrations that it was given for.
-/

namespace GH.Spec.Dbl

open GH.Impl GH.Impl.Dbl

/-- The side that a client registers for. -/
inductive Dir where
  | tx
  | rx
  deriving DecidableEq, Repr

/-- The client of a direction is registered. -/
def regDone (e : ClientEntry) : Dir → Bool
  | .tx => e.txRegDone
  | .rx => e.rxRegDone

/-- The driver's table, with the registrations that its functions have returned. -/
structure DblState where
  clients : Clients
  regs : Dir → Label → Option Addr

/-- No client is registered. -/
def DblState.init (initialized : Bool) : DblState := ⟨.init initialized, fun _ _ => none⟩

/-- A registration is made or dropped. -/
def DblState.setReg (s : DblState) (dir : Dir) (label : BitVec 32) (d : Option Addr) : Dir → Label → Option Addr :=
  if h : label.toNat < GH_DBL_LABEL_MAX then
    Function.update s.regs dir (Function.update (s.regs dir) ⟨label.toNat, h⟩ d)
  else s.regs

/-- A register function has returned. -/
def DblState.registered (s : DblState) (dir : Dir) (label : BitVec 32) : Clients × Ptr → DblState
  | (c, .obj d) => ⟨c, s.setReg dir label (some d)⟩
  | (c, _) => ⟨c, s.regs⟩

/-- An unregister function has returned. -/
def DblState.unregistered (s : DblState) (dir : Dir) (p : Ptr) : Clients × Int → DblState
  | (c, ret) =>
    match p with
    | .obj d => ⟨c, if ret = 0 then s.setReg dir ((s.clients.descs d).getD 0) none else s.regs⟩
    | _ => ⟨c, s.regs⟩

/-- The functions that clients call. -/
inductive DblAct where
  | txRegister (label : BitVec 32) (alloc : Option Addr)
  | rxRegister (label : BitVec 32) (rxCb : Option Addr) (priv : Addr) (alloc : Option Addr)
  | txUnregister (p : Ptr)
  | rxUnregister (p : Ptr)

/-- An allocation gives an address that is not in use. -/
def Fresh (s : DblState) (alloc : Option Addr) : Prop := ∀ d ∈ alloc, s.clients.descs d = none

instance (s : DblState) : (alloc : Option Addr) → Decidable (Fresh s alloc)
  | none => isTrue nofun
  | some d => decidable_of_iff (s.clients.descs d = none) (by simp [Fresh])

/-- One of these, where an allocation gives what is not in use. -/
def dblStep (s : DblState) : DblAct → Option DblState
  | .txRegister label alloc =>
    if Fresh s alloc then some (s.registered .tx label (ghDblTxRegister s.clients label alloc)) else none
  | .rxRegister label rxCb priv alloc =>
    if Fresh s alloc then some (s.registered .rx label (ghDblRxRegister s.clients label rxCb priv alloc)) else none
  | .txUnregister p => (ghDblTxUnregister s.clients p).map (s.unregistered .tx p)
  | .rxUnregister p => (ghDblRxUnregister s.clients p).map (s.unregistered .rx p)

/-- The descriptor serves a registration. -/
def Serves (s : DblState) (d : Addr) : Prop := ∃ dir l, s.regs dir l = some d

/-- The table agrees with the registrations. -/
structure Registered (s : DblState) : Prop where
  /-- The flags say which clients are registered. -/
  flags : ∀ dir l, regDone (s.clients.table l) dir = (s.regs dir l).isSome
  desc : ∀ l, (s.clients.table l).clientDesc ≠ none ↔
    (s.clients.table l).txRegDone = true ∨ (s.clients.table l).rxRegDone = true
  /-- The clients of a label have the same descriptor. -/
  shared : ∀ l d d', s.regs .tx l = some d → s.regs .rx l = some d' → d = d'
  /-- A descriptor is allocated while it serves a registration. -/
  live : ∀ d, s.clients.descs d ≠ none ↔ Serves s d
  /-- An entry has no descriptor of another label. -/
  label : ∀ l d, (s.clients.table l).clientDesc = some d →
    ∃ label, s.clients.descs d = some label ∧ label.toNat = l.val
  /-- A descriptor serves one label only. -/
  apart : ∀ dir dir' l l' d, s.regs dir l = some d → s.regs dir' l' = some d → l = l'

/-- What a step does to descriptors: one is freed with the last registration that
it serves, and an entry only takes the descriptor of its own label. -/
structure DropsLast (s : DblState) (act : DblAct) (t : DblState) : Prop where
  freed : ∀ d, s.clients.descs d ≠ none → (t.clients.descs d = none ↔ Serves s d ∧ ¬ Serves t d)
  own : ∀ d, act = .txUnregister (.obj d) ∨ act = .rxUnregister (.obj d) →
    ∀ l, t.clients.table l ≠ s.clients.table l → ∃ dir, s.regs dir l = some d

end GH.Spec.Dbl
