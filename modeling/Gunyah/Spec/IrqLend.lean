import Gunyah.Impl.IrqLend
import Gunyah.Spec.Rm.Iface

/-!
# The roles of lent interrupts

An entry of `gh_irq_entries` has a role from when it leaves `NONE` until it is
`NONE` again: this VM lends the interrupt, or borrows it. The history says
which role each entry has (`role`), and which requests were made for an entry,
with its role (`reqs`). `RolesApart` is what the roles are promised.
-/

namespace GH.Spec.Irq

open GH.Impl GH.Impl.Rm GH.Impl.Irq GH.Spec.Rm

/-- The side of a lent interrupt that this VM is on. -/
inductive Role where
  | lender
  | borrower
  deriving DecidableEq, Repr

/-- The driver's table, with the role that each entry was last taken up in and the requests that were made. -/
structure IrqSys where
  table : IrqTable
  role : IrqLabel → Option Role
  /-- The requests: the role of the entry each was made for, and the message id. -/
  reqs : List (Option Role × BitVec 32)

/-- No entry has been taken up. -/
def IrqSys.init : IrqSys := ⟨IrqTable.init, fun _ => none, []⟩

/-- The table becomes `t`; an entry that leaves `NONE` gets the role `r`. -/
def IrqSys.next (s : IrqSys) (t : IrqTable) (r : Option Role) : IrqSys :=
  { s with
    table := t
    role := fun l =>
      if (t l).state = .none then none else if (s.table l).state = .none then r else s.role l }

/-- A function that may make a request for the entry of a label, which the RM
answers with the outcome `x`. -/
def IrqSys.request (s : IrqSys) (label : BitVec 32) (f : RmCall (IrqTable × Int)) (x : Outcome) (r : Option Role) :
    IrqSys :=
  match f with
  | .ret (t, _) => s.next t r
  | .call args cont =>
    { s.next (cont x.callRet).1 r with
      reqs := s.reqs ++ [(withLabel label none s.role, args.messageId)] }

/-- The functions of the driver, and the notifications. -/
inductive IrqAct where
  | lend (label : BitVec 32) (virq : Option (BitVec 32)) (vmid : Except Int VmId) (cbHandle : Option Addr)
      (data : Addr) (o : Out) (x : Outcome)
  | reclaim (label : BitVec 32) (o : Out) (x : Outcome)
  | waitForLend (label : BitVec 32) (name : VmName) (onLend : Option Addr) (data : Addr)
  | accept (label : BitVec 32) (irq : Int) (virq : Option (BitVec 32)) (newIrq : Int) (o : Out) (x : Outcome)
  | release (label : BitVec 32) (o : Out) (x : Outcome)
  /-- The notifier chain is called. -/
  | notif (getVmName : VmId → Except Int VmName) (cmd : BitVec 32) (payload : List Byte)

/-- One of these. -/
def irqStep (s : IrqSys) : IrqAct → Option IrqSys
  | .lend label virq vmid cbHandle data o x =>
    some (s.request label (ghIrqLendV2 s.table label virq vmid cbHandle data o) x (some .lender))
  | .reclaim label o x => some (s.request label (ghIrqReclaim s.table label o) x none)
  | .waitForLend label name onLend data =>
    some (s.next (ghIrqWaitForLendV2 s.table label name onLend data).1 (some .borrower))
  | .accept label irq virq newIrq o x =>
    some (s.request label (ghIrqAccept s.table label irq virq newIrq o) x none)
  | .release label o x => some (s.request label (ghIrqRelease s.table label o) x none)
  | .notif getVmName cmd payload =>
    let s := s.next ((ghIrqLentNbHandler s.table getVmName cmd).val payload).1 none
    some (s.next ((ghIrqReleasedAcceptedNbHandler s.table cmd).val payload).1 none)

/-- An entry is in the states of its role, and has made the requests of its role
only. -/
structure RolesApart (s : IrqSys) : Prop where
  lender : ∀ l, s.role l = some .lender → (s.table l).state ∈ [.waitReleaseOrAccept, .accepted, .released]
  borrower : ∀ l, s.role l = some .borrower → (s.table l).state ∈ [.waitLend, .lent, .accepted]
  lenderReqs : ∀ q ∈ s.reqs, q.1 = some .lender →
    q.2 ≠ GH_RM_RPC_MSG_ID_CALL_VM_IRQ_RELEASE ∧ q.2 ≠ GH_RM_RPC_MSG_ID_CALL_VM_IRQ_ACCEPT
  borrowerReqs : ∀ q ∈ s.reqs, q.1 = some .borrower → q.2 ≠ GH_RM_RPC_MSG_ID_CALL_VM_IRQ_RECLAIM

/-- The first entry that is in `WAIT_RELEASE_OR_ACCEPT` or `ACCEPTED` and has the
handle. -/
def holder (t : IrqTable) (h : VirqHandle) : Option IrqLabel :=
  (List.finRange GH_IRQ_LABEL_MAX).find? fun l =>
    ((t l).state = .waitReleaseOrAccept ∨ (t l).state = .accepted) ∧ h = (t l).virqHandle

/-- `gh_irq_release` is not called for an interrupt that this VM has lent and that
is accepted, and no `RELEASED` notification comes with the handle of an
interrupt that this VM has borrowed and accepted. -/
def RoleFits (s : IrqSys) : IrqAct → IrqSys → Prop
  | .release label _ _, _ =>
    withLabel label True fun l => ¬ ((s.table l).state = .accepted ∧ s.role l = some .lender)
  | .notif _ cmd payload, _ =>
    cmd = GH_RM_NOTIF_VM_IRQ_RELEASED →
      ∀ l ∈ holder s.table ((readU32 0).val payload), s.role l ≠ some .borrower
  | _, _ => True

end GH.Spec.Irq
