import Gunyah.Impl.IrqApi
import Gunyah.Framework.History
import Gunyah.Spec.IrqLend

/-!
# Lent interrupts, while others run

What a lend that fails leaves (`LabelFree`), which entry a notification is for (`LentMatches`,
`HandleMatches`) and what is done with it (`Touches`), and which interrupts a `RELEASED` can be
sent for (`Held`). The functions run as any number of calls, each up to its request and from the answer on, with
notifications between; the history has what has happened to the entries.
-/

namespace GH.Spec.Irq

open GH.Impl GH.Impl.Rm GH.Impl.Irq GH.Spec.Rm

/-! ## A lend that fails -/

/-- The label is free: it can be lent and waited for, and no notification is delivered for it. -/
structure LabelFree (t : IrqTable) (l : IrqLabel) : Prop where
  none : (t l).state = .none
  lendable : ∀ virq vmid cb data o h, ((ghIrqLendV2 t (BitVec.ofNat 32 l.val) (some virq) (.ok vmid) (some cb) data o).run
    (Outcome.answered (some (u32Bytes h)) 4).callRet).2 = 0
  waitable : ∀ name cb data, (ghIrqWaitForLendV2 t (BitVec.ofNat 32 l.val) name (some cb) data).2 = 0
  quietLent : ∀ getVmName cmd p h d, ((ghIrqLentNbHandler t getVmName cmd).val p).2.2 ≠ some (h, d, l)
  quietReleased : ∀ cmd p h d, ((ghIrqReleasedAcceptedNbHandler t cmd).val p).2.2 ≠ some (h, d, l)

/-- The RM grants a lend: it answers with error code 0, and if it sends anything, with a handle. -/
def Grants : Outcome → Prop
  | .answered payload size => payload = none ∨ size = 4
  | _ => False

/-! ## Runs -/

/-- The functions that make a request for an entry. -/
inductive Api where
  | lend (label : BitVec 32) (virq : Option (BitVec 32)) (vmid : Except Int VmId) (cbHandle : Option Addr)
      (data : Addr) (o : Out)
  | reclaim (label : BitVec 32) (o : Out)
  | accept (label : BitVec 32) (irq : Int) (virq : Option (BitVec 32)) (newIrq : Int) (o : Out)
  | release (label : BitVec 32) (o : Out)

namespace Api

/-- The function up to its request, and from the answer on. -/
def split (t : IrqTable) : Api → Api.Split
  | .lend label virq vmid cbHandle data o => Api.ghIrqLendV2 t label virq vmid cbHandle data o
  | .reclaim label o => Api.ghIrqReclaim t label o
  | .accept label irq virq newIrq o => Api.ghIrqAccept t label irq virq newIrq o
  | .release label o => Api.ghIrqRelease t label o

/-- The label that a call is for. -/
def label : Api → BitVec 32
  | .lend label .. => label
  | .reclaim label _ => label
  | .accept label .. => label
  | .release label _ => label

/-- The call takes up an entry that is free. -/
def isLend : Api → Bool
  | .lend .. => true
  | _ => false

/-- The call accepts a handle. -/
def isAccept : Api → Bool
  | .accept .. => true
  | _ => false

end Api

/-- What happens to an entry. -/
inductive IrqEvent where
  /-- It leaves `NONE`. -/
  | begins (l : IrqLabel) (r : Role)
  /-- It gets a handle by a `LENT` notification. -/
  | lent (l : IrqLabel) (h : VirqHandle)
  /-- `gh_irq_accept` has accepted the handle. -/
  | accepted (l : IrqLabel) (h : VirqHandle)

/-- Something happens to the entry of a label that has one. -/
def event (label : BitVec 32) (ev : IrqLabel → IrqEvent) : List IrqEvent := withLabel label [] fun l => [ev l]

/-- A call that waits for the RM, with the handle that was in the entry. -/
structure Pending where
  api : Api
  handle : VirqHandle
  cont : CallRet → Except Int (IrqTable → IrqTable × Int)

/-- The driver's table with the calls that wait for the RM, and what has happened to the entries. -/
structure IrqRun where
  table : IrqTable
  /-- The handlers of the old interface. -/
  handle : IrqLabel → Option Addr
  pending : Nat → Option Pending
  /-- What has happened, the newest first. -/
  hist : List IrqEvent

/-- No entry has been taken up. -/
def IrqRun.init : IrqRun := ⟨IrqTable.init, fun _ => none, fun _ => none, []⟩

/-- The functions of both interfaces, and the notifications. -/
inductive RunAct where
  /-- Call `k` begins. -/
  | start (k : Nat) (api : Api)
  /-- The RM answers call `k`, which ends. -/
  | finish (k : Nat) (x : Outcome)
  | waitForLend (label : BitVec 32) (name : VmName) (onLend : Option Addr) (data : Addr)
  | oldLend (label : BitVec 32) (cbHandle : Option Addr)
  | oldWaitForLend
  | lendNotify (label : BitVec 32) (alloc : Bool) (o : Out) (x : Outcome)
  | acceptNotify (label : BitVec 32) (alloc : Bool) (o : Out) (x : Outcome)
  | releaseNotify (label : BitVec 32) (alloc : Bool) (o : Out) (x : Outcome)
  /-- The notifier chain is called, where the VMs have the names of the table. -/
  | notif (names : VmTable) (cmd : BitVec 32) (payload : List Byte)

namespace IrqRun

/-- Call `k` begins: it returns, or waits for the RM. -/
def start (s : IrqRun) (k : Nat) (api : Api) : IrqRun :=
  match (api.split s.table).call with
  | .ret _ => s
  | .call _ cont =>
    { s with
      table := (api.split s.table).table
      pending := Function.update s.pending k (some ⟨api, withLabel api.label 0 fun l => (s.table l).virqHandle, cont⟩)
      hist := (if api.isLend then event api.label (.begins · .lender) else []) ++ s.hist }

/-- The call ends with the RM's answer. -/
def finish (s : IrqRun) (k : Nat) (p : Pending) (x : Outcome) : IrqRun :=
  match p.cont x.callRet with
  | .error _ => { s with pending := Function.update s.pending k none }
  | .ok next =>
    { s with
      table := (next s.table).1
      pending := Function.update s.pending k none
      hist := (if p.api.isAccept then event p.api.label (.accepted · p.handle) else []) ++ s.hist }

/-- `gh_irq_wait_for_lend_v2`. -/
def waitForLend (s : IrqRun) (label : BitVec 32) (name : VmName) (onLend : Option Addr) (data : Addr) : IrqRun :=
  let x := ghIrqWaitForLendV2 s.table label name onLend data
  { s with table := x.1, hist := (if x.2 = 0 then event label (.begins · .borrower) else []) ++ s.hist }

/-- `gh_irq_lent_nb_handler`. -/
def lent (s : IrqRun) (names : VmTable) (cmd : BitVec 32) (payload : List Byte) : IrqRun :=
  match (ghIrqLentNbHandler s.table (ghRmGetVmName names) cmd).val payload with
  | (t, _, some (_, _, l)) => { s with table := t, hist := .lent l (t l).virqHandle :: s.hist }
  | (t, _, none) => { s with table := t }

/-- `gh_irq_released_accepted_nb_handler`. -/
def releasedAccepted (s : IrqRun) (cmd : BitVec 32) (payload : List Byte) : IrqRun :=
  { s with table := ((ghIrqReleasedAcceptedNbHandler s.table cmd).val payload).1 }

end IrqRun

/-- One such step, `none` where it is not enabled. -/
def runStep (s : IrqRun) : RunAct → Option IrqRun
  | .start k api => if (s.pending k).isSome then none else some (s.start k api)
  | .finish k x => (s.pending k).map (s.finish k · x)
  | .waitForLend label name onLend data => some (s.waitForLend label name onLend data)
  | .oldLend label cbHandle => some { s with handle := (Api.ghIrqLend s.handle label cbHandle).1 }
  | .notif names cmd payload => some ((s.lent names cmd payload).releasedAccepted cmd payload)
  | _ => some s

/-! ## Notifications -/

/-- The entry that a `LENT` notification is for: the one of its label, if it waits for the sender. -/
def LentMatches (t : IrqTable) (getVmName : VmId → Except Int VmName) (p : List Byte) (l : IrqLabel) : Prop :=
  ((t l).state = .waitLend ∨ (t l).state = .lent) ∧ l.val = ((readU32 8).val p).toNat ∧
    ∃ owner, getVmName ((readU16 0).val p) = .ok owner ∧ ((t l).vmName = .max ∨ (t l).vmName = owner)

/-- An entry that waits for a `RELEASED` or `ACCEPTED` with the handle. -/
def AwaitsHandle (t : IrqTable) (p : List Byte) (l : IrqLabel) : Prop :=
  ((t l).state = .waitReleaseOrAccept ∨ (t l).state = .accepted) ∧ (readU32 0).val p = (t l).virqHandle

instance (t : IrqTable) (p : List Byte) (l : IrqLabel) : Decidable (AwaitsHandle t p l) := inferInstanceAs (Decidable (_ ∧ _))

/-- The entry that a `RELEASED` or `ACCEPTED` notification is for: the first of those that wait for it. -/
def HandleMatches (t : IrqTable) (p : List Byte) (l : IrqLabel) : Prop :=
  AwaitsHandle t p l ∧ ∀ l' < l, ¬ AwaitsHandle t p l'

/-- A handler changes at most the one entry that matches, and says so; the handler of that entry is called, with its data
and its label. -/
structure Touches (t : IrqTable) (Matches : IrqLabel → Prop) (x : IrqTable × Int × Option HandleCall) : Prop where
  one : ∀ l l', Matches l → Matches l' → l = l'
  frame : ∀ l, ¬ Matches l → x.1 l = t l
  ok : x.2.1 = NOTIFY_OK ↔ ∃ l, Matches l
  called : ∀ l, Matches l → ∃ cb, (t l).v2Handle = some cb ∧ x.2.2 = some (some cb, (t l).data, l)
  silent : (¬ ∃ l, Matches l) → x.2.2 = none

/-- Both handlers of the chain, for every notification. -/
structure NotifiedRight (t : IrqTable) : Prop where
  lent : ∀ names p, Touches t (LentMatches t (ghRmGetVmName names) p)
    ((ghIrqLentNbHandler t (ghRmGetVmName names) GH_RM_NOTIF_VM_IRQ_LENT).val p)
  handle : ∀ cmd ∈ [GH_RM_NOTIF_VM_IRQ_RELEASED, GH_RM_NOTIF_VM_IRQ_ACCEPTED], ∀ p,
    Touches t (HandleMatches t p) ((ghIrqReleasedAcceptedNbHandler t cmd).val p)
  /-- A handler leaves the notifications of the other alone. -/
  others : (∀ names p, ∀ cmd ∈ [GH_RM_NOTIF_VM_IRQ_RELEASED, GH_RM_NOTIF_VM_IRQ_ACCEPTED],
      (ghIrqLentNbHandler t (ghRmGetVmName names) cmd).val p = (t, NOTIFY_DONE, none)) ∧
    ∀ p, (ghIrqReleasedAcceptedNbHandler t GH_RM_NOTIF_VM_IRQ_LENT).val p = (t, NOTIFY_DONE, none)

/-! ## What is released -/

/-- The request `IRQ_NOTIFY(RELEASED)` for a handle. -/
def releasedRequest (h : VirqHandle) : CallArgs := ⟨GH_RM_RPC_MSG_ID_CALL_VM_IRQ_NOTIFY, some (u32Bytes h ++ [2, 0, 0, 0]), true⟩

/-- The event makes the entry wait for a handle to be accepted, or be lent to others. -/
def IrqEvent.Renews (l : IrqLabel) : IrqEvent → Prop
  | .begins l' _ | .lent l' _ => l' = l
  | .accepted .. => False

/-- `gh_irq_accept` has accepted the handle for the label, and nothing new has begun for it since. -/
def Held (hist : List IrqEvent) (l : IrqLabel) (h : VirqHandle) : Prop := Since (.accepted l h) (·.Renews l) hist

/-- A `RELEASED` is sent for handles that are held only. -/
def ReleasesHeld (s : IrqRun) : RunAct → IrqRun → Prop
  | .releaseNotify label alloc o x, _ =>
    ∀ h, releasedRequest h ∈ ((Api.ghIrqReleaseNotify s.table label alloc o).run fun _ => x.callRet).1 →
      withLabel label False fun l => Held s.hist l h
  | _, _ => True

/-- The role that the entry has had since it left `NONE`. -/
def roleSince (l : IrqLabel) : List IrqEvent → Option Role
  | [] => none
  | .begins l' r :: es => if l' = l then some r else roleSince l es
  | _ :: es => roleSince l es

/-- A `LENT` has come since the entry left `NONE`. -/
def lentSince (l : IrqLabel) : List IrqEvent → Bool
  | [] => false
  | .begins l' _ :: es => if l' = l then false else lentSince l es
  | .lent l' _ :: es => if l' = l then true else lentSince l es
  | _ :: es => lentSince l es

/-- `gh_irq_release_notify` is called for an interrupt that this VM waits for and that has been lent to it; the calls that
ask the RM do not run at once for a label, and no `LENT` comes for it while `gh_irq_accept` does. -/
def UsedRight (s : IrqRun) : RunAct → IrqRun → Prop
  | .releaseNotify label _ _ _, _ =>
    withLabel label True fun l => (s.table l).state = .accepted ∨ (s.table l).state = .waitLend →
      roleSince l s.hist = some .borrower ∧ lentSince l s.hist
  | .start _ api, _ => ∀ k p, s.pending k = some p → p.api.label ≠ api.label
  | .notif _ cmd payload, _ =>
    cmd = GH_RM_NOTIF_VM_IRQ_LENT → ∀ k p, s.pending k = some p → p.api.isAccept → p.api.label ≠ (readU32 8).val payload
  | _, _ => True

end GH.Spec.Irq
