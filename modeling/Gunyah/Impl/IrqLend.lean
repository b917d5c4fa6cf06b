import Gunyah.Impl.Rm.Notif

/-!
# Lent interrupts

`gh_irq_lend.c`, by which a VM lends hardware interrupts to other VMs and
takes interrupts that are lent to it, and the requests of `gh_rm_iface.c` that
it makes. What the rest of the driver answers (the number of an interrupt, the
VMID of a name) is an input. Here a function has the RM's answer at once; what
can run before that, and the functions that leave the table as it is, are in
`GH.Impl.Irq.Api`.
-/

namespace GH.Impl.Irq

open GH.Impl.Rm

/-! ## Requests -/

/-- The message ids of the IRQ requests. -/
def GH_RM_RPC_MSG_ID_CALL_VM_IRQ_ACCEPT : BitVec 32 := 0x56000050
def GH_RM_RPC_MSG_ID_CALL_VM_IRQ_LEND : BitVec 32 := 0x56000051
def GH_RM_RPC_MSG_ID_CALL_VM_IRQ_RELEASE : BitVec 32 := 0x56000052
def GH_RM_RPC_MSG_ID_CALL_VM_IRQ_RECLAIM : BitVec 32 := 0x56000053

/-- `gh_virq_handle_t`. -/
abbrev VirqHandle := BitVec 32

/-- `gh_rm_vm_irq_lend`: what it returns, and what it stores in `*virq_handle`. -/
def ghRmVmIrqLend (vmid : VmId) (virq label : BitVec 32) (o : Out) : RmCall (Int × Option VirqHandle) :=
  .call ⟨GH_RM_RPC_MSG_ID_CALL_VM_IRQ_LEND,
      some (u16Bytes vmid ++ u16Bytes 0 ++ u32Bytes virq ++ u32Bytes label), true⟩ fun r =>
    let o := r.out o
    if o.replyErrCode ≠ 0 ∨ r.isErr ∨ r.payload = none then (r.ptrErr, none)
    else if o.respPayloadSize ≠ 4 then (-EINVAL, none)
    else (0, some ((readU32 0).val (r.payload.getD [])))

/-- The request that gives a handle back, which `gh_rm_vm_irq_release` and
`gh_rm_vm_irq_reclaim` make. -/
def irqHandleCall (messageId : BitVec 32) (virqHandle : VirqHandle) (o : Out) : RmCall Int :=
  .call ⟨messageId, some (u32Bytes virqHandle), true⟩ fun r =>
    let o := r.out o
    if r.isErr then r.ptrErr
    else if o.replyErrCode ≠ 0 then o.replyErrCode.toInt
    else if o.respPayloadSize ≠ 0 then -EINVAL
    else 0

/-- `gh_rm_vm_irq_release`. -/
def ghRmVmIrqRelease (virqHandle : VirqHandle) (o : Out) : RmCall Int :=
  irqHandleCall GH_RM_RPC_MSG_ID_CALL_VM_IRQ_RELEASE virqHandle o

/-- `gh_rm_vm_irq_reclaim`. -/
def ghRmVmIrqReclaim (virqHandle : VirqHandle) (o : Out) : RmCall Int :=
  irqHandleCall GH_RM_RPC_MSG_ID_CALL_VM_IRQ_RECLAIM virqHandle o

/-- `gh_rm_vm_irq_accept`. -/
def ghRmVmIrqAccept (virqHandle : VirqHandle) (virq : Int) (o : Out) : RmCall Int :=
  if virq < -1 then .ret (-EINVAL)
  else
    .call ⟨GH_RM_RPC_MSG_ID_CALL_VM_IRQ_ACCEPT, some (u32Bytes virqHandle ++ u32Bytes (BitVec.ofInt 32 virq)), true⟩
      fun r =>
        let o := r.out o
        if o.replyErrCode ≠ 0 ∨ r.isErr ∨ r.payload = none then r.ptrErr
        else if virq = -1 ∧ o.respPayloadSize ≠ 4 then -EINVAL
        else if virq = -1 then ((readU32 0).val (r.payload.getD [])).toInt
        else virq

/-! ## The table -/

/-- `GH_IRQ_LABEL_MAX`. -/
abbrev GH_IRQ_LABEL_MAX : Nat := 5

/-- A label that has an entry. -/
abbrev IrqLabel := Fin GH_IRQ_LABEL_MAX

/-- The states of `struct gh_irq_entry`. -/
inductive IrqState where
  | none
  | waitReleaseOrAccept
  | waitLend
  | released
  | accepted
  | lent
  deriving DecidableEq, Repr

/-- `struct gh_irq_entry`, without the handler of the old interface. -/
structure IrqEntry where
  vmid : VmId := 0
  vmName : VmName := .selfVm
  v2Handle : Option Addr := none
  data : Addr := 0
  state : IrqState := .none
  virqHandle : VirqHandle := 0
  deriving DecidableEq, Repr

/-- `gh_irq_entries`. -/
abbrev IrqTable := IrqLabel → IrqEntry

/-- The table as it is after `gh_irq_lend_init`. -/
def IrqTable.init : IrqTable := fun _ => {}

/-- `entry->state = st` -/
def IrqTable.setState (t : IrqTable) (l : IrqLabel) (st : IrqState) : IrqTable :=
  Function.update t l { t l with state := st }

/-- The entry of a label, where the functions check that it has one. -/
def withLabel {α : Type} (label : BitVec 32) (no : α) (f : IrqLabel → α) : α :=
  if h : label.toNat < GH_IRQ_LABEL_MAX then f ⟨label.toNat, h⟩ else no

/-! ## Lending and reclaiming -/

/-- `gh_irq_lend_v2`. `virq` is what `gh_rm_irq_to_virq` finds, and `vmid` what
`gh_rm_get_vmid` answers. -/
def ghIrqLendV2 (t : IrqTable) (label : BitVec 32) (virq : Option (BitVec 32)) (vmid : Except Int VmId)
    (cbHandle : Option Addr) (data : Addr) (o : Out) : RmCall (IrqTable × Int) :=
  withLabel label (.ret (t, -EINVAL)) fun l =>
    if cbHandle = none then .ret (t, -EINVAL)
    else
      match virq with
      | none => .ret (t, -EINVAL)
      | some virq =>
        if (t l).state ≠ .none then .ret (t, -EINVAL)
        else
          match vmid with
          | .error ret => .ret (t, ret)
          | .ok vmid =>
            let e := { t l with vmid := vmid, v2Handle := cbHandle, data := data, state := .waitReleaseOrAccept }
            (ghRmVmIrqLend vmid virq label o).map fun (ret, h) =>
              (Function.update t l { e with virqHandle := h.getD e.virqHandle }, ret)

/-- `gh_irq_reclaim`. -/
def ghIrqReclaim (t : IrqTable) (label : BitVec 32) (o : Out) : RmCall (IrqTable × Int) :=
  withLabel label (.ret (t, -EINVAL)) fun l =>
    if (t l).state ≠ .waitReleaseOrAccept ∧ (t l).state ≠ .released then .ret (t, -EINVAL)
    else
      (ghRmVmIrqReclaim (t l).virqHandle o).map fun ret => (if ret = 0 then t.setState l .none else t, ret)

/-! ## Borrowing and releasing -/

/-- `gh_irq_wait_for_lend_v2`. -/
def ghIrqWaitForLendV2 (t : IrqTable) (label : BitVec 32) (name : VmName) (onLend : Option Addr) (data : Addr) :
    IrqTable × Int :=
  withLabel label (t, -EINVAL) fun l =>
    if onLend = none then (t, -EINVAL)
    else if (t l).state ≠ .none then (t, -EINVAL)
    else
      (Function.update t l { t l with vmName := name, v2Handle := onLend, data := data, state := .waitLend }, 0)

/-- `gh_irq_accept`. `virq` is what `gh_rm_irq_to_virq` finds for an `irq` that is
given, and `newIrq` what `gh_rm_virq_to_irq` answers. -/
def ghIrqAccept (t : IrqTable) (label : BitVec 32) (irq : Int) (virq : Option (BitVec 32)) (newIrq : Int) (o : Out) :
    RmCall (IrqTable × Int) :=
  withLabel label (.ret (t, -EINVAL)) fun l =>
    if (t l).state ≠ .lent then .ret (t, -EINVAL)
    else if irq ≠ -1 ∧ virq = none then .ret (t, -EINVAL)
    else
      let virq := if irq ≠ -1 then (virq.getD 0).toInt else -1
      (ghRmVmIrqAccept (t l).virqHandle virq o).map fun ret =>
        if ret < 0 then (t, ret) else (t.setState l .accepted, if irq = -1 then newIrq else irq)

/-- `gh_irq_release`. -/
def ghIrqRelease (t : IrqTable) (label : BitVec 32) (o : Out) : RmCall (IrqTable × Int) :=
  withLabel label (.ret (t, -EINVAL)) fun l =>
    if (t l).state ≠ .accepted then .ret (t, -EINVAL)
    else
      (ghRmVmIrqRelease (t l).virqHandle o).map fun ret => (if ret = 0 then t.setState l .waitLend else t, ret)

/-! ## Notifications -/

/-- What a notifier returns. -/
def NOTIFY_DONE : Int := 0
def NOTIFY_OK : Int := 1

/-- The call of an entry's handler: the handler, its data and the label. -/
abbrev HandleCall := Option Addr × Addr × IrqLabel

/-- The loop of `gh_irq_released_accepted_nb_handler`: the first entry that waits
for the notification with the handle in the payload. -/
def findReleasedAccepted (t : IrqTable) : List IrqLabel → ReadM (Option IrqLabel)
  | [] => pure none
  | l :: ls =>
    if (t l).state ≠ .waitReleaseOrAccept ∧ (t l).state ≠ .accepted then findReleasedAccepted t ls
    else do
      let virqHandle ← readU32 0
      if virqHandle = (t l).virqHandle then pure (some l) else findReleasedAccepted t ls

/-- `gh_irq_released_accepted_nb_handler`. -/
def ghIrqReleasedAcceptedNbHandler (t : IrqTable) (cmd : BitVec 32) : ReadM (IrqTable × Int × Option HandleCall) :=
  if cmd ≠ GH_RM_NOTIF_VM_IRQ_RELEASED ∧ cmd ≠ GH_RM_NOTIF_VM_IRQ_ACCEPTED then pure (t, NOTIFY_DONE, none)
  else do
    match ← findReleasedAccepted t (List.finRange GH_IRQ_LABEL_MAX) with
    | some l =>
      let st := if cmd = GH_RM_NOTIF_VM_IRQ_RELEASED then IrqState.released else .accepted
      pure (t.setState l st, NOTIFY_OK, some ((t l).v2Handle, (t l).data, l))
    | none => pure (t, NOTIFY_DONE, none)

/-- The loop of `gh_irq_lent_nb_handler`: the entry of the label in the payload,
if it waits for the owner. -/
def findLent (t : IrqTable) (ownerName : VmName) : List IrqLabel → ReadM (Option IrqLabel)
  | [] => pure none
  | l :: ls =>
    if (t l).state ≠ .waitLend ∧ (t l).state ≠ .lent then findLent t ownerName ls
    else do
      let virqLabel ← readU32 8
      if l.val = virqLabel.toNat ∧ ((t l).vmName = .max ∨ (t l).vmName = ownerName) then pure (some l)
      else findLent t ownerName ls

/-- `gh_irq_lent_nb_handler`; `getVmName` is `gh_rm_get_vm_name`. -/
def ghIrqLentNbHandler (t : IrqTable) (getVmName : VmId → Except Int VmName) (cmd : BitVec 32) :
    ReadM (IrqTable × Int × Option HandleCall) :=
  if cmd ≠ GH_RM_NOTIF_VM_IRQ_LENT then pure (t, NOTIFY_DONE, none)
  else do
    let ownerVmid ← readU16 0
    match getVmName ownerVmid with
    | .error ret => pure (t, ret, none)
    | .ok ownerName =>
      match ← findLent t ownerName (List.finRange GH_IRQ_LABEL_MAX) with
      | some l =>
        let vmid ← readU16 0
        let virqHandle ← readU32 4
        pure (Function.update t l { t l with vmid := vmid, virqHandle := virqHandle, state := .lent },
          NOTIFY_OK, some ((t l).v2Handle, (t l).data, l))
      | none => pure (t, NOTIFY_DONE, none)

end GH.Impl.Irq
