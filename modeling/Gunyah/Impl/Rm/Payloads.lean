import Gunyah.Impl.Rm.Accept

/-!
# Requests that say how long they are

The requests of `gh_rm_iface.c` with a number of bytes or elements in a field, and these
behind it. The fields are narrower than the numbers that are stored in them, which the functions
leave to `gh_rm_send_request` to mind; only `gh_rm_vm_irq_notify` and `gh_rm_mem_append` check them.
-/

namespace GH.Impl.Rm

/-- `num_bytes`, `size`, and the other fields of 16 bits, of a number that fits or does not. -/
def u16Of (n : Nat) : List Byte := u16Bytes (BitVec.ofNat 16 n)

/-- A reply without a payload, where `IS_ERR` is checked before `reply_err_code`. -/
def emptyReply (o : Out) (r : CallRet) : Int :=
  let o := r.out o
  if r.isErr then r.ptrErr
  else if o.replyErrCode ≠ 0 then o.replyErrCode.toInt
  else if o.respPayloadSize ≠ 0 then -EINVAL
  else 0

/-! ## `gh_rm_console_write` -/

/-- The message id of `gh_rm_console_write`. -/
def GH_RM_RPC_MSG_ID_CALL_VM_CONSOLE_WRITE : BitVec 32 := 0x56000083

/-- The largest `u32`. -/
def U32_MAX : Nat := 2 ^ 32 - 1

/-- The request of `gh_rm_console_write`. -/
def consoleWriteRequest (vmid : VmId) (buf : List Byte) (alloc : Bool) : Except Int MemReq :=
  if buf.length < 1 ∨ buf.length > U32_MAX - 4 then .error (-EINVAL)
  else
    match kzalloc alloc (sizeAdd 4 buf.length) with
    | none => .error (-ENOMEM)
    | some reqBuf =>
      .ok { reqBuf
            hdr := [⟨0, u16Bytes vmid⟩, ⟨2, u16Of buf.length⟩]
            populate := atOffset 4 [⟨0, buf⟩] }

/-- `gh_rm_console_write`. Its `reply_err_code` is 0 before the call. -/
def ghRmConsoleWrite (vmid : VmId) (buf : List Byte) (alloc : Bool) (respPayloadSize : Nat) : RmCalls Int :=
  sendRequest GH_RM_RPC_MSG_ID_CALL_VM_CONSOLE_WRITE (consoleWriteRequest vmid buf alloc) .ret fun r =>
    .ret (emptyReply ⟨0, respPayloadSize⟩ r)

/-! ## `gh_rm_vm_lookup` -/

/-- The message ids of the lookups by a string. -/
def GH_RM_RPC_MSG_ID_CALL_VM_LOOKUP_URI : BitVec 32 := 0x56000011
def GH_RM_RPC_MSG_ID_CALL_VM_LOOKUP_NAME : BitVec 32 := 0x56000013

/-- `round_up(n, 4)`, of a `size_t`. -/
def roundUp4 (n : Nat) : Nat := (n + 3) / 4 * 4 % 2 ^ 64

/-- The request of `gh_rm_vm_lookup_name_uri`; `vmid` is whether there is a pointer to store
the result. -/
def lookupNameUriRequest (data : Option (List Byte)) (vmid alloc : Bool) : Except Int MemReq :=
  match data with
  | none => .error (-EINVAL)
  | some data =>
    if vmid = false then .error (-EINVAL)
    else
      match kzalloc alloc (sizeAdd 4 (roundUp4 data.length)) with
      | none => .error (-ENOMEM)
      | some reqBuf =>
        .ok { reqBuf
              hdr := [⟨0, u16Of data.length⟩]
              populate := atOffset 4 [⟨0, data⟩] }

/-- `gh_rm_vm_lookup_name_uri`: what it returns, and the VMID, if it is stored. -/
def ghRmVmLookupNameUri (msgId : BitVec 32) (data : Option (List Byte)) (vmid alloc : Bool) (o : Out) :
    RmCalls (Int × Option VmId) :=
  sendRequest msgId (lookupNameUriRequest data vmid alloc) (fun e => .ret (e, none)) fun r =>
    let o := r.out o
    if o.replyErrCode ≠ 0 ∨ r.isErr ∨ r.payload = none then .ret (r.ptrErr, none)
    else
      let resp := r.payload.getD []
      .ret (if getU32 resp 0 = 1 then (0, some (getU16 resp 4)) else (-EINVAL, none))

/-- `enum gh_vm_lookup_type`, without `GH_VM_LOOKUP_GUID`. -/
inductive VmLookupType where
  | name
  | uri
  deriving DecidableEq, Repr

/-- The message id of a lookup. -/
def VmLookupType.msgId : VmLookupType → BitVec 32
  | .name => GH_RM_RPC_MSG_ID_CALL_VM_LOOKUP_NAME
  | .uri => GH_RM_RPC_MSG_ID_CALL_VM_LOOKUP_URI

/-- `gh_rm_vm_lookup`, by name or by URI. -/
def ghRmVmLookup (type : VmLookupType) (data : Option (List Byte)) (vmid alloc : Bool) (o : Out) :
    RmCalls (Int × Option VmId) :=
  ghRmVmLookupNameUri type.msgId data vmid alloc o

/-! ## `gh_rm_vm_auth_image` -/

/-- The message id of `gh_rm_vm_auth_image`. -/
def GH_RM_RPC_MSG_ID_CALL_VM_AUTH_IMAGE : BitVec 32 := 0x5600000A

/-- `struct gh_vm_auth_param_entry`. -/
structure AuthParamEntry where
  authParamType : BitVec 32
  authParam : BitVec 32
  deriving DecidableEq, Repr

/-- The request of `gh_rm_vm_auth_image`. Its number of entries is an `ssize_t`; its size is computed as
a `size_t`. -/
def authImageRequest (vmid : VmId) (nEntries : Int) (entry : Nat → AuthParamEntry) (alloc : Bool) :
    Except Int MemReq :=
  match kzalloc alloc ((4 + nEntries * 8) % (2 ^ 64 : Nat)).toNat with
  | none => .error (-ENOMEM)
  | some reqBuf =>
    .ok { reqBuf
          hdr := [⟨0, u16Bytes vmid⟩, ⟨2, u16Bytes (BitVec.ofInt 16 nEntries)⟩]
          populate := atOffset 4 (each 8 (fun n => [⟨0, u32Bytes (entry n).authParamType⟩, ⟨4, u32Bytes (entry n).authParam⟩])
            (List.range nEntries.toNat)) }

/-- `gh_rm_vm_auth_image`. Its `reply_err_code` is 0 before the call. -/
def ghRmVmAuthImage (vmid : VmId) (nEntries : Int) (entry : Nat → AuthParamEntry) (alloc : Bool)
    (respPayloadSize : Nat) : RmCalls Int :=
  sendRequest GH_RM_RPC_MSG_ID_CALL_VM_AUTH_IMAGE (authImageRequest vmid nEntries entry alloc) .ret fun r =>
    .ret (emptyReply ⟨0, respPayloadSize⟩ r)

/-! ## `gh_rm_vm_irq_notify` -/

/-- The message id of `gh_rm_vm_irq_notify`. -/
def GH_RM_RPC_MSG_ID_CALL_VM_IRQ_NOTIFY : BitVec 32 := 0x56000054

/-- The flag of a notification that has VMIDs. -/
def GH_VM_IRQ_NOTIFY_FLAGS_LENT : BitVec 16 := 1

/-- The largest `u16`. -/
def U16_MAX : Nat := 2 ^ 16 - 1

/-- The writes of one element of `vmids`: the other half of it is reserved. -/
def vmidElem (vmid : VmId) : List (Write Byte) := [⟨0, u16Bytes vmid⟩]

/-- The request of `gh_rm_vm_irq_notify`, whose optional part is for `GH_VM_IRQ_NOTIFY_FLAGS_LENT`. -/
def irqNotifyRequest (vmids : List VmId) (flags : BitVec 16) (virqHandle : BitVec 32) (alloc : Bool) :
    Except Int MemReq :=
  let lent := flags &&& GH_VM_IRQ_NOTIFY_FLAGS_LENT != 0
  if lent = false ∧ vmids.length ≠ 0 then .error (-EINVAL)
  else if vmids.length > U16_MAX then .error (-EINVAL)
  else
    match kzalloc alloc (8 + if lent then 4 + 4 * vmids.length else 0) with
    | none => .error (-ENOMEM)
    | some reqBuf =>
      .ok { reqBuf
            hdr := [⟨0, u32Bytes virqHandle⟩, ⟨4, [flags.setWidth 8]⟩]
            populate := if lent then atOffset 8 (⟨0, u16Of vmids.length⟩ :: atOffset 4 (each 4 vmidElem vmids)) else [] }

/-- `gh_rm_vm_irq_notify`. -/
def ghRmVmIrqNotify (vmids : List VmId) (flags : BitVec 16) (virqHandle : BitVec 32) (alloc : Bool) (o : Out) :
    RmCalls Int :=
  sendRequest GH_RM_RPC_MSG_ID_CALL_VM_IRQ_NOTIFY (irqNotifyRequest vmids flags virqHandle alloc) .ret fun r =>
    .ret (emptyReply o r)

/-! ## `gh_rm_minidump_register_range` -/

/-- The message id of `gh_rm_minidump_register_range`. -/
def GH_RM_RPC_MSG_ID_CALL_VM_MINIDUMP_REGISTER_RANGE : BitVec 32 := 0x56000041

/-- The request of `gh_rm_minidump_register_range`, in a buffer that is not cleared. `name_size` and
`name_offset` are a byte each. -/
def minidumpRequest (baseIpa regionSize : BitVec 64) (name : Option (List Byte)) (heap : Nat → Byte)
    (alloc : Bool) : Except Int MemReq :=
  match name with
  | none => .error (-EINVAL)
  | some name =>
    match kmalloc heap alloc (sizeAdd 20 name.length) with
    | none => .error (-ENOMEM)
    | some reqBuf =>
      .ok { reqBuf
            hdr := [⟨0, u64Bytes baseIpa⟩, ⟨8, u64Bytes regionSize⟩, ⟨16, [BitVec.ofNat 8 name.length]⟩, ⟨17, [20 + 8]⟩]
            populate := atOffset 20 [⟨0, name⟩] }

/-- `gh_rm_minidump_register_range`: the number of the slot, or an error. -/
def ghRmMinidumpRegisterRange (baseIpa regionSize : BitVec 64) (name : Option (List Byte)) (heap : Nat → Byte)
    (alloc : Bool) (o : Out) : RmCalls Int :=
  sendRequest GH_RM_RPC_MSG_ID_CALL_VM_MINIDUMP_REGISTER_RANGE (minidumpRequest baseIpa regionSize name heap alloc)
    .ret fun r =>
      match checkedReply o r with
      | .error e => .ret e
      | .ok (resp, respSize) => .ret (if respSize ≠ 4 then -EINVAL else (getU16 resp 0).toNat)

end GH.Impl.Rm
