import Gunyah.Impl.IrqApi
import Gunyah.Impl.Rm.Replies

/-!
# The other requests

The functions of `gh_rm_iface.c` that no other part of the driver's model needs: they configure and
initialize a VM, open, close and flush a console, and ask about slots of the minidump. With
those of `GH.Impl.Rm.Iface`, `MemReq`, `Accept`, `Payloads`, `Replies` and `GH.Impl.Irq` these are all
the functions of the file that call `gh_rm_call`.
-/

namespace GH.Impl.Rm

/-! ## Configuring a VM -/

/-- The message ids of the requests on an image. -/
def GH_RM_RPC_MSG_ID_CALL_VM_CONFIG_IMAGE : BitVec 32 := 0x56000009
def GH_RM_RPC_MSG_ID_CALL_VM_INIT : BitVec 32 := 0x5600000B

/-- Where an image is, and its device tree, in the memory of a VM: the arguments of
`gh_rm_vm_config_image` but the VM. -/
structure ImageConfig where
  authMech : BitVec 16
  memHandle : BitVec 32
  imageOffset : BitVec 64
  imageSize : BitVec 64
  dtbOffset : BitVec 64
  dtbSize : BitVec 64
  deriving DecidableEq, Repr

/-- `gh_rm_vm_config_image`. Each `u64` is in two fields of the request, the low half first. -/
def ghRmVmConfigImage (vmid : VmId) (c : ImageConfig) (respPayloadSize : Nat) : RmCall Int :=
  .call ⟨GH_RM_RPC_MSG_ID_CALL_VM_CONFIG_IMAGE,
      some (u16Bytes vmid ++ u16Bytes c.authMech ++ u32Bytes c.memHandle ++ u64Bytes c.imageOffset ++
        u64Bytes c.imageSize ++ u64Bytes c.dtbOffset ++ u64Bytes c.dtbSize), true⟩
    (emptyReply ⟨0, respPayloadSize⟩)

/-- `gh_rm_vm_init`. -/
def ghRmVmInit (vmid : VmId) (respPayloadSize : Nat) : RmCall Int :=
  .call ⟨GH_RM_RPC_MSG_ID_CALL_VM_INIT, some (u16Bytes vmid ++ u16Bytes 0), true⟩ (emptyReply ⟨0, respPayloadSize⟩)

/-! ## Consoles -/

/-- The message ids of the requests on a console. -/
def GH_RM_RPC_MSG_ID_CALL_VM_CONSOLE_OPEN : BitVec 32 := 0x56000081
def GH_RM_RPC_MSG_ID_CALL_VM_CONSOLE_CLOSE : BitVec 32 := 0x56000082
def GH_RM_RPC_MSG_ID_CALL_VM_CONSOLE_FLUSH : BitVec 32 := 0x56000084

/-- The common body of the three. Their `reply_err_code` is 0 before the call. -/
def consoleCall (messageId : BitVec 32) (vmid : VmId) (respPayloadSize : Nat) : RmCall Int :=
  .call ⟨messageId, some (u16Bytes vmid ++ u16Bytes 0), true⟩ (emptyReply ⟨0, respPayloadSize⟩)

/-- `gh_rm_console_open`. -/
def ghRmConsoleOpen (vmid : VmId) (respPayloadSize : Nat) : RmCall Int :=
  consoleCall GH_RM_RPC_MSG_ID_CALL_VM_CONSOLE_OPEN vmid respPayloadSize

/-- `gh_rm_console_close`. -/
def ghRmConsoleClose (vmid : VmId) (respPayloadSize : Nat) : RmCall Int :=
  consoleCall GH_RM_RPC_MSG_ID_CALL_VM_CONSOLE_CLOSE vmid respPayloadSize

/-- `gh_rm_console_flush`. -/
def ghRmConsoleFlush (vmid : VmId) (respPayloadSize : Nat) : RmCall Int :=
  consoleCall GH_RM_RPC_MSG_ID_CALL_VM_CONSOLE_FLUSH vmid respPayloadSize

/-! ## The minidump -/

/-- The message ids of the requests on the minidump. -/
def GH_RM_RPC_MSG_ID_CALL_VM_MINIDUMP_GET_INFO : BitVec 32 := 0x56000040
def GH_RM_RPC_MSG_ID_CALL_VM_MINIDUMP_DEREGISTER_SLOT : BitVec 32 := 0x56000042

/-- `gh_rm_minidump_get_info`: the number of slots, or an error. -/
def ghRmMinidumpGetInfo (o : Out) : RmCall Int :=
  .call ⟨GH_RM_RPC_MSG_ID_CALL_VM_MINIDUMP_GET_INFO, some (u32Bytes 0), true⟩ fun r =>
    match checkedReply o r with
    | .error e => e
    | .ok (resp, respSize) => if respSize ≠ 4 then -EINVAL else (getU16 resp 0).toNat

/-- `gh_rm_minidump_deregister_slot`. -/
def ghRmMinidumpDeregisterSlot (slotNum : BitVec 16) (o : Out) : RmCall Int :=
  .call ⟨GH_RM_RPC_MSG_ID_CALL_VM_MINIDUMP_DEREGISTER_SLOT, some (u16Bytes slotNum ++ u16Bytes 0), true⟩ fun r =>
    match checkedReply o r with
    | .error e => e
    | .ok (_, respSize) => if respSize ≠ 0 then -EINVAL else 0

end GH.Impl.Rm
