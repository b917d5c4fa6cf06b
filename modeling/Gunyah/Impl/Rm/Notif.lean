import Gunyah.Impl.Rm.Iface

/-!
# Notifications

`gh_rm_validate_notif` of `gh_rm_core.c`, which looks at a notification and
passes it on to the notifier chain, and how the chain's handlers read it: a
handler gets a pointer to the payload, but not its size, so a function of a
handler is a `ReadM`, which gives the offsets of the bytes that it reads too.
-/

namespace GH.Impl.Rm

/-! ## Reading a payload -/

/-- A function that reads a payload: its result, and the offsets of the bytes
that it reads. -/
def ReadM (α : Type) : Type := List Byte → α × List Nat

namespace ReadM

variable {α β : Type}

/-- What the function returns for a payload. -/
def val (x : ReadM α) (p : List Byte) : α := (x p).1

/-- What the function reads of a payload. -/
def reads (x : ReadM α) (p : List Byte) : List Nat := (x p).2

instance : Monad ReadM where
  pure a := fun _ => (a, [])
  bind x f := fun p => ((f (x.val p)).val p, x.reads p ++ (f (x.val p)).reads p)

@[simp] theorem val_pure (a : α) (p : List Byte) : (pure a : ReadM α).val p = a := rfl

@[simp] theorem val_bind (x : ReadM α) (f : α → ReadM β) (p : List Byte) : (x >>= f).val p = (f (x.val p)).val p := rfl

@[simp] theorem reads_pure (a : α) (p : List Byte) : (pure a : ReadM α).reads p = [] := rfl

@[simp] theorem reads_bind (x : ReadM α) (f : α → ReadM β) (p : List Byte) :
    (x >>= f).reads p = x.reads p ++ (f (x.val p)).reads p := rfl

end ReadM

/-- A read of a field of the payload, with the offsets of its bytes. -/
def readU8 (off : Nat) : ReadM (BitVec 8) := fun p => (p.getD off 0, [off])

/-- A read of a little-endian field of two bytes. -/
def readU16 (off : Nat) : ReadM (BitVec 16) := fun p => (p.getD (off + 1) 0 ++ p.getD off 0, [off, off + 1])

/-- A read of a little-endian field of four bytes. -/
def readU32 (off : Nat) : ReadM (BitVec 32) := fun p =>
  (p.getD (off + 3) 0 ++ p.getD (off + 2) 0 ++ p.getD (off + 1) 0 ++ p.getD off 0, (List.range 4).map (off + ·))

/-- A copy of `n` bytes. -/
def readBytes (off n : Nat) : ReadM (List Byte) := fun p =>
  ((p.drop off).take n, (List.range n).map (off + ·))

/-! ## Validation -/

/-- The message ids of the notifications. -/
def GH_RM_NOTIF_MEM_SHARED : BitVec 32 := 0x51100011
def GH_RM_NOTIF_MEM_RELEASED : BitVec 32 := 0x51100012
def GH_RM_NOTIF_MEM_ACCEPTED : BitVec 32 := 0x51100013
def GH_RM_NOTIF_VM_EXITED : BitVec 32 := 0x56100001
def GH_RM_NOTIF_VM_SHUTDOWN : BitVec 32 := 0x56100002
def GH_RM_NOTIF_VM_STATUS : BitVec 32 := 0x56100008
def GH_RM_NOTIF_VM_IRQ_LENT : BitVec 32 := 0x56100011
def GH_RM_NOTIF_VM_IRQ_RELEASED : BitVec 32 := 0x56100012
def GH_RM_NOTIF_VM_IRQ_ACCEPTED : BitVec 32 := 0x56100013
def GH_RM_NOTIF_VM_CONSOLE_CHARS : BitVec 32 := 0x56100080

/-- The exit types, the last three of them with PSCI. -/
def GH_RM_VM_EXIT_TYPE_VM_EXIT : BitVec 16 := 0
def GH_RM_VM_EXIT_TYPE_SYSTEM_OFF : BitVec 16 := 1
def GH_RM_VM_EXIT_TYPE_SYSTEM_RESET : BitVec 16 := 2
def GH_RM_VM_EXIT_TYPE_WDT_BITE : BitVec 16 := 4
def GH_RM_VM_EXIT_TYPE_HYP_ERROR : BitVec 16 := 5
def GH_RM_VM_EXIT_TYPE_ASYNC_EXT_ABORT : BitVec 16 := 6
def GH_RM_VM_EXIT_TYPE_VM_STOP_FORCED : BitVec 16 := 7
def GH_RM_VM_EXIT_TYPE_PSCI_SYSTEM_OFF : BitVec 16 := 1
def GH_RM_VM_EXIT_TYPE_PSCI_SYSTEM_RESET : BitVec 16 := 2
def GH_RM_VM_EXIT_TYPE_PSCI_SYSTEM_RESET2 : BitVec 16 := 3

/-- The payload of `VM_EXITED` with another `exit_type`. -/
def withExitType (payload : List Byte) (t : BitVec 16) : List Byte :=
  (payload.set 2 (t.extractLsb' 0 8)).set 3 (t.extractLsb' 8 8)

/-- `gh_arch_validate_vm_exited_notif` of `arch/arm64`, which writes the generic
exit type to the payload: the payload, unless it is rejected. -/
def ghArchValidateVmExitedNotif (payload : List Byte) : Option (List Byte) :=
  let exitType := (readU16 2).val payload
  if exitType = GH_RM_VM_EXIT_TYPE_PSCI_SYSTEM_RESET2 then
    if payload.length ≠ 12 then none
    else some (withExitType payload GH_RM_VM_EXIT_TYPE_SYSTEM_RESET)
  else if exitType = GH_RM_VM_EXIT_TYPE_PSCI_SYSTEM_RESET then
    some (withExitType payload GH_RM_VM_EXIT_TYPE_SYSTEM_RESET)
  else if exitType = GH_RM_VM_EXIT_TYPE_PSCI_SYSTEM_OFF then
    some (withExitType payload GH_RM_VM_EXIT_TYPE_SYSTEM_OFF)
  else none

/-- `gh_rm_validate_vm_exited_notif`. -/
def ghRmValidateVmExitedNotif (payload : List Byte) : Option (List Byte) :=
  if payload.length < 8 then none
  else
    let exitType := (readU16 2).val payload
    if exitType = GH_RM_VM_EXIT_TYPE_VM_EXIT then if payload.length ≠ 12 then none else some payload
    else if exitType ∈ [GH_RM_VM_EXIT_TYPE_WDT_BITE, GH_RM_VM_EXIT_TYPE_HYP_ERROR,
      GH_RM_VM_EXIT_TYPE_ASYNC_EXT_ABORT, GH_RM_VM_EXIT_TYPE_VM_STOP_FORCED] then some payload
    else ghArchValidateVmExitedNotif payload

/-- `gh_rm_validate_notif`, for the `connection->size` bytes of a payload: the
payload that the notifier chain is called with, if it is. -/
def ghRmValidateNotif (notification : BitVec 32) (payload : List Byte) : Option (List Byte) :=
  if notification = GH_RM_NOTIF_VM_STATUS then
    if payload.length ≠ 8 then none else some payload
  else if notification = GH_RM_NOTIF_VM_EXITED then ghRmValidateVmExitedNotif payload
  else if notification = GH_RM_NOTIF_VM_SHUTDOWN then
    if payload.length ≠ 4 then none else some payload
  else if notification = GH_RM_NOTIF_VM_IRQ_LENT then
    if payload.length ≠ 12 then none else some payload
  else if notification = GH_RM_NOTIF_VM_IRQ_RELEASED then
    if payload.length ≠ 4 then none else some payload
  else if notification = GH_RM_NOTIF_VM_IRQ_ACCEPTED then
    if payload.length ≠ 4 then none else some payload
  else if notification = GH_RM_NOTIF_MEM_SHARED then
    if payload.length < 20 then none else some payload
  else if notification = GH_RM_NOTIF_MEM_RELEASED then
    if payload.length ≠ 12 then none else some payload
  else if notification = GH_RM_NOTIF_MEM_ACCEPTED then
    if payload.length ≠ 12 then none else some payload
  else if notification = GH_RM_NOTIF_VM_CONSOLE_CHARS then
    if payload.length ≥ 4 then
      if 4 + ((readU16 2).val payload).toNat ≠ payload.length then none else some payload
    else none
  else none

/-- A call of the notifier chain: the notification and its payload. -/
abbrev Notification := BitVec 32 × List Byte

/-- The call of the notifier chain for a completed connection, if there is one. -/
def Connection.notification (c : Connection) : Option Notification :=
  (ghRmValidateNotif c.msgId ((c.payload.getD []).take c.size)).map (c.msgId, ·)

end GH.Impl.Rm
