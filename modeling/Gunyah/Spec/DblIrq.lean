import Gunyah.Impl.Dbl
import Gunyah.Framework.History

/-!
# The interrupts of doorbells

The resource manager populates and resets doorbells in any order, and `request_threaded_irq` succeeds or
fails. The history has the requests that have succeeded and what has been freed; a call is balanced if an
error leaves the entry as it was, and nothing is freed that is not requested.
-/

namespace GH.Spec.Dbl

open GH.Impl GH.Impl.Dbl

/-- What happens to an interrupt of a label. -/
inductive IrqOp where
  | requested (l : Label) (irq : Int)
  | freed (l : Label) (irq : Int)
  deriving DecidableEq, Repr

/-- The request has succeeded for the label, and the interrupt was not freed since. -/
def Requested (ops : List IrqOp) (l : Label) (irq : Int) : Prop := Since (.requested l irq) (· = .freed l irq) ops

/-- The doorbells, with what has happened to their interrupts. -/
structure CapRun where
  dbl : Doorbells
  /-- What has happened, the newest first. -/
  ops : List IrqOp

/-- Nothing has happened. -/
def CapRun.init (initialized : Bool) : CapRun := ⟨{ Doorbells.init with initialized }, []⟩

/-- The functions that request and free the interrupts. -/
inductive CapAct where
  /-- `gh_dbl_populate_cap_info`; `irqRet` is what `request_threaded_irq` returns. -/
  | populate (label : BitVec 32) (capId : BitVec 64) (direction rxIrq irqRet : Int)
  /-- `gh_dbl_reset_cap_info`. -/
  | reset (label : BitVec 32) (direction : Int) (irq : Bool)

/-- Something happens to the interrupt of a label that has an entry. -/
def opFor (label : BitVec 32) (op : Label → IrqOp) : List IrqOp :=
  if h : label.toNat < GH_DBL_LABEL_MAX then [op ⟨label.toNat, h⟩] else []

/-- The interrupt that `gh_dbl_reset_cap_info` passes to `free_irq`: what is in `*irq`, unless it fails. -/
def freedIrq (x : Doorbells × Int × Option Int) : Option Int := if x.2.1 = 0 then x.2.2.filter (· ≠ 0) else none

/-- A call, where one to `gh_dbl_populate_cap_info` for `RX` returns no error only if the request has succeeded. -/
def capStep (s : CapRun) : CapAct → Option CapRun
  | .populate label capId direction rxIrq irqRet =>
    let x := ghDblPopulateCapInfo s.dbl label capId direction rxIrq irqRet
    some ⟨x.1, (if direction = GH_DBL_DIRECTION_RX ∧ 0 ≤ x.2 then opFor label (.requested · rxIrq) else []) ++ s.ops⟩
  | .reset label direction irq =>
    let x := ghDblResetCapInfo s.dbl label direction irq
    some ⟨x.1, (freedIrq x).toList.flatMap (fun i => opFor label (.freed · i)) ++ s.ops⟩

/-- An error of `gh_dbl_populate_cap_info` leaves the entry as it was, and `gh_dbl_reset_cap_info` frees an interrupt only
that is requested for the label. -/
def CallBalanced (s : CapRun) : CapAct → CapRun → Prop
  | .populate label capId direction rxIrq irqRet, t =>
    (ghDblPopulateCapInfo s.dbl label capId direction rxIrq irqRet).2 < 0 →
      ∀ l : Label, l.val = label.toNat → t.dbl.table l = s.dbl.table l
  | .reset label direction irq, _ =>
    ∀ i ∈ freedIrq (ghDblResetCapInfo s.dbl label direction irq), ∃ l : Label, l.val = label.toNat ∧ Requested s.ops l i

/-- `gh_dbl_populate_cap_info` gets to its request. -/
def Asks (s : Doorbells) (label : BitVec 32) (direction rxIrq : Int) : Prop :=
  s.initialized ∧ label.toNat < GH_DBL_LABEL_MAX ∧ direction = GH_DBL_DIRECTION_RX ∧ 0 < rxIrq

/-- A request that fails is for the interrupt that is in the entry already. -/
def FailsKnown (s : CapRun) : CapAct → CapRun → Prop
  | .populate label _ direction rxIrq irqRet, _ =>
    Asks s.dbl label direction rxIrq → irqRet < 0 → ∀ l : Label, l.val = label.toNat → (s.dbl.table l).rxIrq = rxIrq
  | .reset .., _ => True

end GH.Spec.Dbl
