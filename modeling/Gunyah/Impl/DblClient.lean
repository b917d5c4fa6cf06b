import Gunyah.Impl.Dbl

/-!
# The clients of doorbells

`gh_dbl.c`: the registration of a Tx client and an Rx client of each doorbell.
Both have the same descriptor. `descs` holds the descriptors that are
allocated; an allocation gives an address that is not in use, or fails, as its
caller is told. What an entry of `gh_dbl_cap_table` has of the doorbell itself
is in `Impl.Dbl`.
-/

namespace GH.Impl.Dbl

/-- `struct gh_dbl_cap_table`, as far as the clients use it. -/
structure ClientEntry where
  clientDesc : Option Addr := none
  txRegDone : Bool := false
  rxRegDone : Bool := false
  rxCallback : Option Addr := none
  rxPrivData : Addr := 0
  deriving DecidableEq, Repr

/-- The table of the doorbells as their clients register with it. -/
structure Clients where
  initialized : Bool
  table : Label → ClientEntry
  /-- The descriptors, each with its label. -/
  descs : Addr → Option (BitVec 32)

/-- Before any registration. -/
def Clients.init (initialized : Bool) : Clients := ⟨initialized, fun _ => {}, fun _ => none⟩

/-- The entry of a label is changed. -/
def Clients.set (s : Clients) (l : Label) (e : ClientEntry) : Clients :=
  { s with table := Function.update s.table l e }

/-- The descriptor of an entry, which is allocated at `alloc` if there is none. -/
def Clients.clientDesc (s : Clients) (l : Label) (label : BitVec 32) (alloc : Option Addr) : Option (Clients × Addr) :=
  match (s.table l).clientDesc with
  | some d => some (s, d)
  | none =>
    alloc.map fun d =>
      ({ s.set l { s.table l with clientDesc := some d } with descs := Function.update s.descs d (some label) }, d)

/-- `gh_dbl_tx_register`. -/
def ghDblTxRegister (s : Clients) (label : BitVec 32) (alloc : Option Addr) : Clients × Ptr :=
  if h : label.toNat < GH_DBL_LABEL_MAX then
    if s.initialized = false then (s, .err (-EPROBE_DEFER))
    else
      let l : Label := ⟨label.toNat, h⟩
      if (s.table l).txRegDone then (s, .err (-EBUSY))
      else
        match s.clientDesc l label alloc with
        | none => (s, .err (-ENOMEM))
        | some (s, d) => (s.set l { s.table l with txRegDone := true }, .obj d)
  else (s, .err (-EINVAL))

/-- `gh_dbl_rx_register`. -/
def ghDblRxRegister (s : Clients) (label : BitVec 32) (rxCb : Option Addr) (priv : Addr) (alloc : Option Addr) :
    Clients × Ptr :=
  if h : label.toNat < GH_DBL_LABEL_MAX then
    if s.initialized = false then (s, .err (-EPROBE_DEFER))
    else
      let l : Label := ⟨label.toNat, h⟩
      if (s.table l).rxRegDone then (s, .err (-EBUSY))
      else
        match s.clientDesc l label alloc with
        | none => (s, .err (-ENOMEM))
        | some (s, d) =>
          (s.set l { s.table l with rxCallback := rxCb, rxPrivData := priv, rxRegDone := true }, .obj d)
  else (s, .err (-EINVAL))

/-- The descriptor of an entry is freed. -/
def Clients.free (s : Clients) (l : Label) (d : Addr) : Clients :=
  { s.set l { s.table l with clientDesc := none } with descs := Function.update s.descs d none }

/-- `gh_dbl_tx_unregister`: `none` where the descriptor is no longer allocated. -/
def ghDblTxUnregister (s : Clients) (clientDesc : Ptr) : Option (Clients × Int) :=
  match clientDesc with
  | .null | .err _ => some (s, -EINVAL)
  | .obj d => do
    let label ← s.descs d
    if h : label.toNat < GH_DBL_LABEL_MAX then
      let l : Label := ⟨label.toNat, h⟩
      if (s.table l).clientDesc ≠ some d then return (s, -EINVAL)
      else
        let s := if (s.table l).rxRegDone = false then s.free l d else s
        return (s.set l { s.table l with txRegDone := false }, 0)
    else return (s, -EINVAL)

/-- `gh_dbl_rx_unregister`: `none` where the descriptor is no longer allocated. -/
def ghDblRxUnregister (s : Clients) (clientDesc : Ptr) : Option (Clients × Int) :=
  match clientDesc with
  | .null | .err _ => some (s, -EINVAL)
  | .obj d => do
    let label ← s.descs d
    if h : label.toNat < GH_DBL_LABEL_MAX then
      let l : Label := ⟨label.toNat, h⟩
      if (s.table l).clientDesc ≠ some d then return (s, -EINVAL)
      else
        let s := if (s.table l).txRegDone = false then s.free l d else s
        return (s.set l { s.table l with rxCallback := none, rxPrivData := 0, rxRegDone := false }, 0)
    else return (s, -EINVAL)

end GH.Impl.Dbl
