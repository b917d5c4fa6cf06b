import Gunyah.Impl.Rm.Notif
import Gunyah.Impl.Rm.Payloads

/-!
# Replies with entries

The functions of `gh_rm_iface.c` that get a number of entries back: `gh_rm_vm_get_id`,
`gh_rm_vm_lookup` and `gh_rm_vm_get_hyp_res`. A reply is a pointer, which is `NULL` for an empty
one, and `resp_payload_size`. What is behind the payload is in the same memory, so a function that
goes by the numbers in the payload only gets to it; as `ReadM` it gives the offsets that it reads.
-/

namespace GH.Impl.Rm.Replies

open GH.Impl GH.Impl.Rm

/-- What a function makes of its reply: `err` of an error, else what `x` reads, which gets
`resp_payload_size`. -/
def readReply {α : Type} (err : Int → α) (o : Out) (r : CallRet) (x : Nat → ReadM α) : α × List Nat :=
  let o := r.out o
  if o.replyErrCode ≠ 0 ∨ r.isErr then (err r.ptrErr, [])
  else
    match r.payload with
    | none => (err r.ptrErr, [])
    | some p => x o.respPayloadSize p

/-- `kmemdup` of a part of the payload. -/
def kmemdup (alloc : Bool) (off n : Nat) : ReadM (Option (List Byte)) :=
  if alloc ∧ n ≤ KMALLOC_MAX_SIZE then do return some (← readBytes off n) else return none

/-! ## `gh_rm_vm_get_id` -/

/-- The message id of `gh_rm_vm_get_id`. -/
def GH_RM_RPC_MSG_ID_CALL_VM_GET_ID : BitVec 32 := 0x56000010

/-- The walk over `n` entries, the first of which is at `off`: `resp_entries_size` at its end. -/
def respEntriesSize : Nat → Nat → Nat → ReadM Nat
  | 0, _, size => return size
  | n + 1, off, size => do
    let idSize ← readU16 (off + 2)
    let entrySize := 4 + roundUp4 idSize.toNat
    respEntriesSize n (off + entrySize) (sizeAdd size entrySize)

/-- `gh_rm_vm_get_id` from the payload on: the number of entries, and a copy of these. -/
def getIdReply (alloc : Bool) (size : Nat) : ReadM (Except Int (BitVec 32 × List Byte)) := do
  let nIdEntries ← readU32 0
  let entriesSize ← respEntriesSize nIdEntries.toNat 4 0
  if entriesSize ≠ sizeSub size 4 then return .error (-EINVAL)
  else
    match ← kmemdup alloc 4 entriesSize with
    | none => return .error (-ENOMEM)
    | some entries => return .ok (nIdEntries, entries)

/-- `gh_rm_vm_get_id`, and what it reads of its reply; `nEntries` is whether there is a pointer to
store the number of entries. The error 0 is `NULL`. -/
def ghRmVmGetId (vmid : VmId) (nEntries alloc : Bool) (o : Out) :
    RmCall (Except Int (BitVec 32 × List Byte) × List Nat) :=
  if nEntries = false then .ret (.error (-EINVAL), [])
  else
    .call ⟨GH_RM_RPC_MSG_ID_CALL_VM_GET_ID, some (u16Bytes vmid ++ u16Bytes 0), true⟩ fun r =>
      readReply .error o r (getIdReply alloc)

/-! ## `gh_rm_vm_lookup` -/

/-- The message id of a lookup by GUID. -/
def GH_RM_RPC_MSG_ID_CALL_VM_LOOKUP_GUID : BitVec 32 := 0x56000012

/-- The lookups from the payload on, whose size they do not look at. -/
def lookupReply : ReadM (Int × Option VmId) := do
  let nIdEntries ← readU32 0
  if nIdEntries = 1 then return (0, some (← readU16 4)) else return (-EINVAL, none)

/-- `gh_rm_vm_lookup_name_uri`, and what it reads of its reply. -/
def ghRmVmLookupNameUri (msgId : BitVec 32) (data : Option (List Byte)) (vmid alloc : Bool) (o : Out) :
    RmCalls ((Int × Option VmId) × List Nat) :=
  sendRequest msgId (lookupNameUriRequest data vmid alloc) (fun e => .ret ((e, none), [])) fun r =>
    .ret (readReply (·, none) o r fun _ => lookupReply)

/-- `gh_rm_vm_lookup_guid`, and what it reads of its reply. -/
def ghRmVmLookupGuid (data : Option (List Byte)) (vmid : Bool) (o : Out) : RmCalls ((Int × Option VmId) × List Nat) :=
  match data with
  | none => .ret ((-EINVAL, none), [])
  | some data =>
    if vmid = false then .ret ((-EINVAL, none), [])
    else
      .call ⟨GH_RM_RPC_MSG_ID_CALL_VM_LOOKUP_GUID, some (data.take 16), true⟩ fun r =>
        .ret (readReply (·, none) o r fun _ => lookupReply)

/-- `enum gh_vm_lookup_type`. -/
inductive LookupType where
  | name
  | uri
  | guid
  deriving DecidableEq, Repr

/-- `gh_rm_vm_lookup`, and what it reads of its reply; `size` is the length of the data. -/
def ghRmVmLookup (type : LookupType) (data : Option (List Byte)) (vmid alloc : Bool) (o : Out) :
    RmCalls ((Int × Option VmId) × List Nat) :=
  match type with
  | .name => ghRmVmLookupNameUri GH_RM_RPC_MSG_ID_CALL_VM_LOOKUP_NAME data vmid alloc o
  | .uri => ghRmVmLookupNameUri GH_RM_RPC_MSG_ID_CALL_VM_LOOKUP_URI data vmid alloc o
  | .guid => if (data.getD []).length ≠ 16 then .ret ((-EINVAL, none), []) else ghRmVmLookupGuid data vmid o

/-! ## `gh_rm_vm_get_hyp_res` -/

/-- The message id of `gh_rm_vm_get_hyp_res`. -/
def GH_RM_RPC_MSG_ID_CALL_VM_GET_HYP_RESOURCES : BitVec 32 := 0x56000020

/-- `sizeof(struct gh_vm_get_hyp_res_resp_entry)`. -/
def HYP_RES_ENTRY_SIZE : Nat := 44

/-- What `gh_rm_vm_get_hyp_res` rejects of a payload of 4 bytes or more. -/
def hypResSizeInvalid (nResourceEntries : BitVec 32) (size : Nat) : Bool :=
  let n := nResourceEntries.toNat
  n > U32_MAX / HYP_RES_ENTRY_SIZE || 4 > sizeSub U32_MAX (n * HYP_RES_ENTRY_SIZE) ||
  size != 4 + n * HYP_RES_ENTRY_SIZE

/-- `gh_rm_vm_get_hyp_res` from the payload on: the number of entries, and a copy of these. -/
def getHypResReply (alloc : Bool) (size : Nat) : ReadM (Except Int (BitVec 32 × List Byte)) := do
  if size < 4 then return .error (-EINVAL)
  else
    let nResourceEntries ← readU32 0
    if hypResSizeInvalid nResourceEntries size then return .error (-EINVAL)
    else
      match ← kmemdup alloc 4 (HYP_RES_ENTRY_SIZE * nResourceEntries.toNat) with
      | none => return .error (-ENOMEM)
      | some entries => return .ok (nResourceEntries, entries)

/-- `gh_rm_vm_get_hyp_res`, and what it reads of its reply. The error 0 is `NULL`. -/
def ghRmVmGetHypRes (vmid : VmId) (nEntries alloc : Bool) (o : Out) :
    RmCall (Except Int (BitVec 32 × List Byte) × List Nat) :=
  if nEntries = false then .ret (.error (-EINVAL), [])
  else
    .call ⟨GH_RM_RPC_MSG_ID_CALL_VM_GET_HYP_RESOURCES, some (u16Bytes vmid ++ u16Bytes 0), true⟩ fun r =>
      readReply .error o r (getHypResReply alloc)

end GH.Impl.Rm.Replies
