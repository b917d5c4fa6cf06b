import Gunyah.Impl.Msgq.Entry

/-!
# The table of doorbells

`gh_dbl.c`: the capabilities and interrupts of doorbells that the resource
manager hands out and takes back. `irqs` holds the interrupts that are
requested for a label, with `request_threaded_irq` answering as its caller is
told. The clients of the doorbells are left out.
-/

namespace GH.Impl.Dbl

/-- `GH_DBL_LABEL_MAX`. -/
abbrev GH_DBL_LABEL_MAX : Nat := 9

/-- A label that `gh_dbl_cap_table` has an entry for. -/
abbrev Label := Fin GH_DBL_LABEL_MAX

/-- `enum gh_dbl_dir`. -/
def GH_DBL_DIRECTION_TX : Int := 0
def GH_DBL_DIRECTION_RX : Int := 1

/-- `struct gh_dbl_cap_table`. -/
structure DblCapTable where
  txCapId : BitVec 64 := GH_CAPID_INVAL
  rxCapId : BitVec 64 := GH_CAPID_INVAL
  rxIrq : Int := 0
  deriving DecidableEq, Repr

/-- The table of the doorbells, and the interrupts that are requested for each. -/
structure Doorbells where
  initialized : Bool
  /-- `gh_dbl_cap_table`. -/
  table : Label → DblCapTable
  irqs : Label → List Int

/-- After `gh_dbl_init`. -/
def Doorbells.init : Doorbells where
  initialized := true
  table := fun _ => {}
  irqs := fun _ => []

/-- The entry of a label is changed. -/
def Doorbells.set (s : Doorbells) (l : Label) (e : DblCapTable) : Doorbells := { s with table := Function.update s.table l e }

/-- `gh_dbl_populate_cap_info`; `irqRet` is what `request_threaded_irq` returns. -/
def ghDblPopulateCapInfo (s : Doorbells) (label : BitVec 32) (capId : BitVec 64) (direction rxIrq irqRet : Int) : Doorbells × Int :=
  if s.initialized = false then (s, -EAGAIN)
  else if h : label.toNat < GH_DBL_LABEL_MAX then
    let l : Label := ⟨label.toNat, h⟩
    if direction = GH_DBL_DIRECTION_TX then
      if rxIrq > 0 then (s, - ENXIO)
      else (s.set l { s.table l with txCapId := capId }, 0)
    else if direction = GH_DBL_DIRECTION_RX then
      if rxIrq ≤ 0 then (s, - ENXIO)
      else
        let s := s.set l { s.table l with rxIrq := rxIrq }
        if irqRet < 0 then (s, irqRet)
        else
          ({ s.set l { s.table l with rxCapId := capId } with
             irqs := Function.update s.irqs l (rxIrq :: s.irqs l) }, irqRet)
    else (s, -EINVAL)
  else (s, -EINVAL)

/-- `gh_dbl_reset_cap_info`, with what it stores in `*irq`; `irq` is whether that
pointer is given. -/
def ghDblResetCapInfo (s : Doorbells) (label : BitVec 32) (direction : Int) (irq : Bool) : Doorbells × Int × Option Int :=
  if s.initialized = false then (s, -EAGAIN, none)
  else if h : label.toNat < GH_DBL_LABEL_MAX then
    let l : Label := ⟨label.toNat, h⟩
    let e := s.table l
    if irq = false then (s, -EINVAL, none)
    else if direction = GH_DBL_DIRECTION_TX then (s.set l { e with txCapId := GH_CAPID_INVAL }, 0, some 0)
    else if direction = GH_DBL_DIRECTION_RX then
      if e.rxIrq = 0 then (s, - ENXIO, none)
      else
        ({ s.set l { e with rxIrq := 0, rxCapId := GH_CAPID_INVAL } with
           irqs := Function.update s.irqs l ((s.irqs l).erase e.rxIrq) }, 0, some e.rxIrq)
    else (s, -EINVAL, none)
  else (s, -EINVAL, none)

end GH.Impl.Dbl
