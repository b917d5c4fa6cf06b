import Gunyah.Impl.Msgq.Entry

/-!
# The table of message queues

`gh_msgq.c`: registration of clients, and the capabilities and interrupts the
resource manager hands out and takes back. An entry of `gh_msgq_cap_list` is
made by whichever of `gh_msgq_register` and `gh_msgq_populate_cap_info` comes
first for its label. Addresses stand for objects and are not used again. What
allocations and `request_irq` answer are inputs. The names of the interrupts,
`irq_set_irq_wake` and `free_irq` are left out.
-/

namespace GH.Impl.Msgq

/-- `struct gh_msgq_desc`. -/
structure Desc where
  label : Int
  capTable : Addr
  deriving DecidableEq

/-- The entries of the driver, with the descriptors of their clients. -/
structure Registry where
  /-- `gh_msgq_cap_list`. -/
  capList : List Addr
  /-- The entries that are allocated. -/
  entries : Addr → Option CapTable
  /-- The descriptors that are allocated. -/
  descs : Addr → Option Desc
  /-- The address of the next object. -/
  next : Addr

namespace Registry

/-- The list is empty. -/
def init : Registry := ⟨[], fun _ => none, fun _ => none, 0⟩

/-- The label of the entry at an address. -/
def label (s : Registry) (a : Addr) : Option Int := (s.entries a).map (·.label)

/-- The client descriptor of the entry at an address. -/
def clientDesc (s : Registry) (a : Addr) : Option Addr := (s.entries a).bind (·.clientDesc)

/-- The entry at `a` is changed. -/
def modify (s : Registry) (a : Addr) (f : CapTable → CapTable) : Registry :=
  { s with entries := Function.update s.entries a ((s.entries a).map f) }

/-- The loop over `gh_msgq_cap_list`. -/
def find (s : Registry) (label : Int) : Option Addr := s.capList.find? fun a => s.label a = some label

/-- The entry at `a` leaves the list and is freed. -/
def free (s : Registry) (a : Addr) : Registry :=
  { s with capList := s.capList.erase a, entries := Function.update s.entries a none }

end Registry

/-- `gh_msgq_alloc_entry`; `alloc` is whether its allocations succeed. -/
def ghMsgqAllocEntry (s : Registry) (label : Int) (alloc : Bool) : Registry × Except Int Addr :=
  if alloc then
    ({ s with capList := s.next :: s.capList
              entries := Function.update s.entries s.next (some { label })
              next := s.next + 1 }, .ok s.next)
  else (s, .error (-ENOMEM))

/-- The entry of a label, which is allocated if there is none: the beginning of
`gh_msgq_register` and `gh_msgq_populate_cap_info`. -/
def Registry.findOrAlloc (s : Registry) (label : Int) (alloc : Bool) : Registry × Except Int Addr :=
  match s.find label with
  | some a => (s, .ok a)
  | none => ghMsgqAllocEntry s label alloc

/-- `gh_msgq_register`; `desc` is whether the descriptor can be allocated. -/
def ghMsgqRegister (s : Registry) (label : Int) (alloc desc : Bool) : Registry × Ptr :=
  if label < 0 then (s, .err (-EINVAL))
  else
    match s.findOrAlloc label alloc with
    | (s, .error e) => (s, .err e)
    | (s, .ok a) =>
      if s.clientDesc a ≠ none then (s, .err (-EBUSY))
      else if desc = false then (s, .err (-ENOMEM))
      else
        ({ s.modify a (fun e => { e with clientDesc := some s.next }) with
           descs := Function.update s.descs s.next (some ⟨label, a⟩)
           next := s.next + 1 }, .obj s.next)

/-- `gh_msgq_unregister`: `none` where the descriptor or the entry it points to
is no longer allocated. -/
def ghMsgqUnregister (s : Registry) (clientDesc : Option Addr) : Option (Registry × Int) :=
  match clientDesc with
  | none => some (s, -EINVAL)
  | some d => do
    let desc ← s.descs d
    let e ← s.entries desc.capTable
    if e.clientDesc ≠ some d then return (s, -EINVAL)
    return ({ s.modify desc.capTable (fun e => { e with clientDesc := none }) with
              descs := Function.update s.descs d none }, 0)

/-- The arguments of `gh_msgq_populate_cap_info`, whether an entry can be
allocated, and what `request_irq` returns. -/
structure Populate where
  label : Int
  capId : BitVec 64
  direction : Int
  irq : Int
  alloc : Bool := true
  irqRet : Int := 0

/-- `gh_msgq_populate_cap_info`. -/
def ghMsgqPopulateCapInfo (s : Registry) (p : Populate) : Registry × Int :=
  if p.label < 0 then (s, -EINVAL)
  else if p.irq < 0 then (s, - ENXIO)
  else
    match s.findOrAlloc p.label p.alloc with
    | (s, .error e) => (s, e)
    | (s, .ok a) =>
      match Direction.ofInt p.direction with
      | some d =>
        if p.irqRet < 0 then (s.free a, p.irqRet)
        else (s.modify a fun e => e.setCap p.capId p.irq d, 0)
      | none => (s.free a, -EINVAL)

/-- `gh_msgq_reset_cap_info`, with what it stores in `*irq`; `irq` is whether
that pointer is given. -/
def ghMsgqResetCapInfo (s : Registry) (label direction : Int) (irq : Bool) : Registry × Int × Option Int :=
  if label < 0 then (s, -EINVAL, none)
  else if irq = false then (s, -EINVAL, none)
  else
    match s.find label with
    | none => (s, -EINVAL, none)
    | some a =>
      match Direction.ofInt direction with
      | some d =>
        let i := ((s.entries a).map (·.irq d)).getD 0
        if i = 0 then (s, - ENXIO, none)
        else (s.modify a fun e => e.setCap GH_CAPID_INVAL 0 d, 0, some i)
      | none => (s, -EINVAL, none)

/-- The functions that change the entries. -/
inductive RegAct where
  | register (label : Int) (alloc desc : Bool)
  | unregister (clientDesc : Option Addr)
  | populate (p : Populate)
  | reset (label direction : Int) (irq : Bool)
  /-- `__gh_msgq_send` or `__gh_msgq_recv` on the entry at `a`, with the
  hypervisor's answer. -/
  | answer (d : Direction) (a : Addr) (r : Resp)
  /-- The interrupt handler of the entry at `a`. -/
  | isr (d : Direction) (a : Addr)

/-- A step of the table; `none` where an object would be used that is not
allocated. -/
def regStep (s : Registry) : RegAct → Option Registry
  | .register label alloc desc => some (ghMsgqRegister s label alloc desc).1
  | .unregister clientDesc => (ghMsgqUnregister s clientDesc).map (·.1)
  | .populate p => some (ghMsgqPopulateCapInfo s p).1
  | .reset label direction irq => some (ghMsgqResetCapInfo s label direction irq).1
  | .answer d a r => (s.entries a).map fun _ => s.modify a fun e => (ghMsgqAnswer d e r).1
  | .isr d a => (s.entries a).map fun _ => s.modify a (ghMsgqIsr d)

end GH.Impl.Msgq
