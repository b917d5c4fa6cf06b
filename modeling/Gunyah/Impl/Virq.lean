import Mathlib.Data.List.Basic
import Gunyah.Impl.Kernel
import Gunyah.Framework.LowestFree

/-!
# Numbers of virtual interrupts

`irq.c` of `arch/arm64/gunyah`: the driver hands out numbers for virtual
interrupts that the resource manager leaves to it (`gh_get_virq`), and takes them
back (`gh_put_virq`). The numbers are those of the IDR `gh_rm_free_virq_idr`,
which is the list of its ids in use here, and `IRQ_OFFSET`.
-/

namespace GH.Impl.Virq

/-- The last SPI, the first one, and their type in the device tree. -/
def GIC_V3_SPI_MAX : Int := 1019
def IRQ_OFFSET : Int := 32
def GIC_SPI : BitVec 32 := 0

/-- `idr_alloc`: what it returns, and the ids in use; `mem` says if there is memory. -/
def idrAlloc (ids : List Nat) (start stop : Int) (mem : Bool) : Int × List Nat :=
  if start < 0 then (-EINVAL, ids)
  else if mem = false then (-ENOMEM, ids)
  else
    match lowestFree ids start.toNat (if stop > 0 then stop.toNat else 2 ^ 31) with
    | none => (-ENOSPC, ids)
    | some id => (id, id :: ids)

/-- `idr_find`. -/
def idrFind (ids : List Nat) (id : Int) : Bool := decide (0 ≤ id ∧ id.toNat ∈ ids)

/-- `idr_remove`. -/
def idrRemove (ids : List Nat) (id : Int) : List Nat := ids.erase id.toNat

/-- `gh_get_irq`: if it warns, and the mapping that it asks for. -/
def ghGetIrq (virq type : BitVec 32) : Bool × List (BitVec 32) :=
  (decide (virq < BitVec.ofInt 32 IRQ_OFFSET ∨ virq ≥ BitVec.ofInt 32 GIC_V3_SPI_MAX),
    [GIC_SPI, virq - BitVec.ofInt 32 IRQ_OFFSET, type])

/-- `gh_get_virq`; the code does not read its argument `virq`. -/
def ghGetVirq (ids : List Nat) (baseVirq : Int) (mem : Bool) : Int × List Nat :=
  let r := idrAlloc ids (baseVirq - IRQ_OFFSET) GIC_V3_SPI_MAX mem
  if r.1 < 0 then r else (r.1 + IRQ_OFFSET, r.2)

/-- `gh_put_virq`. -/
def ghPutVirq (ids : List Nat) (virq : Int) : Int × List Nat :=
  let virqNum := virq - IRQ_OFFSET
  if idrFind ids virqNum = true then (0, idrRemove ids virqNum) else (-EINVAL, ids)

/-! ## The callers -/

/-- The IDR, and the numbers that have been handed out and not put back since. -/
structure Virqs where
  ids : List Nat := []
  out : List Int := []
  deriving DecidableEq, Repr

/-- The calls of `gh_get_virq` and `gh_put_virq`. -/
inductive Op where
  | get (mem : Bool)
  | put (virq : Int)

/-- A call, with the base that the driver has from the device tree. -/
def Virqs.step (baseVirq : Int) (s : Virqs) : Op → Option Virqs
  | .get mem =>
    let r := ghGetVirq s.ids baseVirq mem
    some { ids := r.2, out := if r.1 < 0 then s.out else r.1 :: s.out }
  | .put virq => some { ids := (ghPutVirq s.ids virq).2, out := s.out.erase virq }

end GH.Impl.Virq
