import Gunyah.Impl.Rm.Core

/-!
# Requests to the resource manager and the table of VM names

`gh_rm_iface.c`: the functions that send one request with `gh_rm_call` and turn
its result into a return value, and `gh_vm_table`, which gives each VM name its
VMID.

A function that makes a call is an `RmCall`: the request it sends, and what it
makes of the call's result. `gh_rm_call` writes to the caller's out variables
only on some of its paths, so what these held before (`Out`) is an input. The
strings of a `gh_vm_property` are addresses; they are only compared with `NULL`.
-/

namespace GH.Impl.Rm

/-- A function that makes at most one call. -/
inductive RmCall (α : Type) where
  | ret (a : α)
  | call (args : CallArgs) (cont : CallRet → α)

namespace RmCall

/-- What the function returns where `gh_rm_call`, if it gets to it, returns `r`. -/
def run {α : Type} (f : RmCall α) (r : CallRet) : α :=
  match f with
  | .ret a => a
  | .call _ cont => cont r

/-- The function goes on with its result. -/
def map {α β : Type} (g : α → β) : RmCall α → RmCall β
  | .ret a => .ret (g a)
  | .call args cont => .call args fun r => g (cont r)

end RmCall

/-- The caller's variables that `gh_rm_call` gets pointers to. -/
structure Out where
  replyErrCode : BitVec 32
  respPayloadSize : Nat
  deriving DecidableEq, Repr

namespace CallRet

/-- The out variables after the call. -/
def out (r : CallRet) (o : Out) : Out :=
  ⟨r.rmError.getD o.replyErrCode, r.respBuffSize.getD o.respPayloadSize⟩

/-- `IS_ERR` of what the call returns. -/
def isErr (r : CallRet) : Bool :=
  match r.ret with
  | .error _ => true
  | .ok _ => false

/-- The payload the call returns, which is used where it is no error. -/
def payload (r : CallRet) : Option (List Byte) :=
  match r.ret with
  | .error _ => none
  | .ok p => p

/-- `PTR_ERR` of what the call returns, which is used on errors only. -/
def ptrErr (r : CallRet) : Int :=
  match r.ret with
  | .error e => e
  | .ok _ => 0

end CallRet

/-- The bytes of an integer, little-endian. -/
def u16Bytes (x : BitVec 16) : List Byte := [x.extractLsb' 0 8, x.extractLsb' 8 8]
/-- A little-endian word of four bytes. -/
def u32Bytes (x : BitVec 32) : List Byte :=
  [x.extractLsb' 0 8, x.extractLsb' 8 8, x.extractLsb' 16 8, x.extractLsb' 24 8]

/-! ## The table of VM names -/

/-- `gh_vmid_t`. -/
abbrev VmId := BitVec 16

/-- The VMID of no VM. -/
def GH_VMID_INVAL : VmId := 0xFFFF

/-- `enum gh_vm_names`. -/
inductive VmName where
  | selfVm
  | primaryVm
  | trustedVm
  | cpusysVm
  | oemVm
  | autoVm
  | autoVmLv
  /-- `GH_VM_MAX`, the number of names. -/
  | max
  deriving DecidableEq, Repr

/-- The names below `GH_VM_MAX` and above `GH_SELF_VM`, in order. -/
def VmName.peers : List VmName := [.primaryVm, .trustedVm, .cpusysVm, .oemVm, .autoVm, .autoVmLv]

/-- `struct gh_vm_property`. -/
structure VmProperty where
  vmid : VmId := 0
  guid : Option Addr := none
  uri : Option Addr := none
  name : Option Addr := none
  signAuth : Option Addr := none
  deriving DecidableEq, Repr

/-- `gh_vm_table`, which has no entry for `GH_VM_MAX`. -/
abbrev VmTable := VmName → VmProperty

namespace VmTable

/-- The entry of a name; `none` is an access behind the end of the table. -/
def get (t : VmTable) (n : VmName) : Option VmProperty :=
  match n with
  | .max => none
  | n => some (t n)

end VmTable

/-- `gh_init_vm_prop_table`, on the zeroed table. -/
def ghInitVmPropTable : VmTable
  | .selfVm => {}
  | _ => { vmid := GH_VMID_INVAL }

/-- The fields of `p` that are given replace those of `e`. -/
def VmProperty.merge (e p : VmProperty) : VmProperty where
  vmid := if p.vmid ≠ 0 then p.vmid else e.vmid
  guid := p.guid.or e.guid
  uri := p.uri.or e.uri
  name := p.name.or e.name
  signAuth := p.signAuth.or e.signAuth

/-- `gh_update_vm_prop_table`: `none` where it accesses the table behind its
end. A VMID is never negative. -/
def ghUpdateVmPropTable (t : VmTable) (vmName : VmName) (vmProp : Option VmProperty) :
    Option (VmTable × Int) :=
  match vmProp with
  | none => some (t, -EINVAL)
  | some p => do
    let e ← VmTable.get t vmName
    if e.guid ≠ none ∨ e.uri ≠ none ∨ e.name ≠ none ∨ e.signAuth ≠ none then return (t, -EEXIST)
    return (Function.update t vmName (e.merge p), 0)

/-- `gh_reset_vm_prop_table_entry`. -/
def ghResetVmPropTableEntry (t : VmTable) (vmid : VmId) : VmTable :=
  match VmName.peers.find? fun n => vmid = (t n).vmid with
  | some n => Function.update t n { vmid := GH_VMID_INVAL }
  | none => t

/-- `gh_rm_get_vmid`; `initialized` is `gh_rm_core_initialized`. -/
def ghRmGetVmid (t : VmTable) (initialized : Bool) (vmName : VmName) : Option (Except Int VmId) := do
  let e ← VmTable.get t vmName
  if initialized = false then return .error (-EPROBE_DEFER)
  if e.vmid = 0 ∧ vmName ≠ .selfVm then return .error (-EINVAL)
  return .ok e.vmid

/-- `gh_rm_get_vm_name`. -/
def ghRmGetVmName (t : VmTable) (vmid : VmId) : Except Int VmName :=
  match (VmName.selfVm :: VmName.peers).find? fun n => (t n).vmid = vmid with
  | some n => .ok n
  | none => .error (-EINVAL)

/-- The message ids of the requests on a VMID. -/
def GH_RM_RPC_MSG_ID_CALL_VM_ALLOCATE : BitVec 32 := 0x56000001
def GH_RM_RPC_MSG_ID_CALL_VM_DEALLOCATE : BitVec 32 := 0x56000002

/-- `resp_payload->vmid` of `struct gh_vm_allocate_resp_payload`. -/
def allocateRespVmid (payload : List Byte) : BitVec 32 :=
  payload.getD 3 0 ++ payload.getD 2 0 ++ payload.getD 1 0 ++ payload.getD 0 0

/-- `gh_rm_vm_alloc_vmid` from the reply on, with what it stores in `*vmid`. -/
def ghRmVmAllocVmidReply (t : VmTable) (vmName : VmName) (vmid : Int) (o : Out) (r : CallRet) :
    Option (VmTable × Int × Int) :=
  let o := r.out o
  if o.replyErrCode ≠ 0 ∨ r.isErr then some (t, vmid, r.ptrErr)
  else if r.payload ≠ none ∧ o.respPayloadSize ≠ 4 then some (t, vmid, -EINVAL)
  else
    let vmid := match r.payload with
      | some p => (allocateRespVmid p).toInt
      | none => vmid
    match ghUpdateVmPropTable t vmName (some { vmid := BitVec.ofInt 16 vmid }) with
    | none => none
    | some (t, err) => some (t, vmid, if err ≠ 0 then -EINVAL else 0)

/-- `gh_rm_vm_alloc_vmid`. -/
def ghRmVmAllocVmid (t : VmTable) (vmName : VmName) (vmid : Int) (o : Out) :
    RmCall (Option (VmTable × Int × Int)) :=
  match VmTable.get t vmName with
  | none => .ret none
  | some e =>
    if e.vmid ≠ GH_VMID_INVAL ∨ vmName = .selfVm then .ret (some (t, vmid, -EINVAL))
    else
      .call ⟨GH_RM_RPC_MSG_ID_CALL_VM_ALLOCATE, some (u16Bytes (BitVec.ofInt 16 vmid) ++ u16Bytes 0), true⟩
        (ghRmVmAllocVmidReply t vmName vmid o)

/-- The reply of `VM_DEALLOCATE`, `VM_STOP` and `VM_RESET`, which has no
payload: the error to return, if any. -/
def noPayloadReply (o : Out) (r : CallRet) : Except Int Unit :=
  let o := r.out o
  if o.replyErrCode ≠ 0 ∨ r.isErr then .error o.replyErrCode.toInt
  else if o.respPayloadSize ≠ 0 then .error (-EINVAL)
  else .ok ()

/-- `gh_rm_vm_dealloc_vmid`. -/
def ghRmVmDeallocVmid (t : VmTable) (vmid : VmId) (o : Out) : RmCall (VmTable × Int) :=
  .call ⟨GH_RM_RPC_MSG_ID_CALL_VM_DEALLOCATE, some (u16Bytes vmid ++ u16Bytes 0), true⟩ fun r =>
    match noPayloadReply o r with
    | .error err => (t, err)
    | .ok () => (ghResetVmPropTableEntry t vmid, 0)

/-! ## Starting and stopping VMs -/

/-- The message ids of the requests that start, stop and reset a VM. -/
def GH_RM_RPC_MSG_ID_CALL_VM_START : BitVec 32 := 0x56000004
def GH_RM_RPC_MSG_ID_CALL_VM_STOP : BitVec 32 := 0x56000005
def GH_RM_RPC_MSG_ID_CALL_VM_RESET : BitVec 32 := 0x56000006
def GH_RM_RPC_MSG_ID_CALL_VM_SET_TIME_BASE : BitVec 32 := 0x56000030

/-- The number of reasons to stop a VM. -/
def GH_VM_STOP_MAX : BitVec 32 := 4

/-- The return value of a function that returns 0 where it does not fail. -/
def errno : Except Int Unit → Int
  | .error e => e
  | .ok () => 0

/-- The reply of `VM_START` and `VM_SET_TIME_BASE`, which is not checked with
`IS_ERR`; `reply_err_code` is 0 before the call. -/
def uncheckedReply (respPayloadSize : Nat) (r : CallRet) : Int :=
  let o := r.out ⟨0, respPayloadSize⟩
  if o.replyErrCode ≠ 0 then o.replyErrCode.toInt
  else if o.respPayloadSize ≠ 0 then -EINVAL
  else 0

/-- `gh_rm_vm_start`. -/
def ghRmVmStart (vmid : Int) (respPayloadSize : Nat) : RmCall Int :=
  .call ⟨GH_RM_RPC_MSG_ID_CALL_VM_START, some (u16Bytes (BitVec.ofInt 16 vmid) ++ u16Bytes 0), true⟩
    (uncheckedReply respPayloadSize)

/-- `gh_rm_vm_stop`. -/
def ghRmVmStop (vmid : VmId) (stopReason : BitVec 32) (flags : BitVec 8) (o : Out) : RmCall Int :=
  if stopReason ≥ GH_VM_STOP_MAX then .ret (-EINVAL)
  else
    .call ⟨GH_RM_RPC_MSG_ID_CALL_VM_STOP, some (u16Bytes vmid ++ [flags, 0] ++ u32Bytes stopReason), true⟩
      fun r => errno (noPayloadReply o r)

/-- `gh_rm_vm_reset`. -/
def ghRmVmReset (vmid : VmId) (o : Out) : RmCall Int :=
  .call ⟨GH_RM_RPC_MSG_ID_CALL_VM_RESET, some (u16Bytes vmid ++ u16Bytes 0), true⟩ fun r =>
    errno (noPayloadReply o r)

/-- `gh_rm_vm_set_time_base`, at the time `tsNsRef` and the counter `qtimeRef`. -/
def ghRmVmSetTimeBase (vmid : VmId) (tsNsRef qtimeRef : BitVec 64) (respPayloadSize : Nat) : RmCall Int :=
  .call ⟨GH_RM_RPC_MSG_ID_CALL_VM_SET_TIME_BASE,
      some (u16Bytes vmid ++ [0, 0] ++ u32Bytes (tsNsRef.extractLsb' 0 32) ++ u32Bytes (tsNsRef.extractLsb' 32 32)
        ++ u32Bytes (qtimeRef.extractLsb' 0 32) ++ u32Bytes (qtimeRef.extractLsb' 32 32)), true⟩
    (uncheckedReply respPayloadSize)

/-! ## The status of this VM -/

/-- The message ids of the requests on a status. -/
def GH_RM_RPC_MSG_ID_CALL_VM_GET_STATE : BitVec 32 := 0x56000017
def GH_RM_RPC_MSG_ID_CALL_VM_SET_STATUS : BitVec 32 := 0x56000080

/-- `struct gh_vm_status`, which has the fields of the payload of both messages. -/
structure VmStatus where
  vmStatus : BitVec 8
  osStatus : BitVec 8
  appStatus : BitVec 16
  deriving DecidableEq, Repr

namespace VmStatus

/-- The structure as it is sent. -/
def bytes (st : VmStatus) : List Byte := [st.vmStatus, st.osStatus] ++ u16Bytes st.appStatus

/-- The structure as it is read from a reply. -/
def ofBytes (p : List Byte) : VmStatus := ⟨p.getD 0 0, p.getD 1 0, p.getD 3 0 ++ p.getD 2 0⟩

end VmStatus

/-- What the functions that set a part of the status do not decide: whether
`kmemdup` succeeds, and what is in `resp_payload_size` before each call. -/
structure StatusEnv where
  alloc : Bool := true
  getSize : Nat := 0
  setSize : Nat := 0

/-- `gh_rm_vm_get_status`; the error 0 is `NULL`. -/
def ghRmVmGetStatus (vmid : VmId) (env : StatusEnv) : RmCall (Except Int VmStatus) :=
  .call ⟨GH_RM_RPC_MSG_ID_CALL_VM_GET_STATE, some (u16Bytes vmid ++ u16Bytes 0), true⟩ fun r =>
    let o := r.out ⟨0, env.getSize⟩
    if o.replyErrCode ≠ 0 ∨ r.isErr ∨ r.payload = none then .error r.ptrErr
    else if o.respPayloadSize ≠ 4 then .error (-EINVAL)
    else if env.alloc then .ok (VmStatus.ofBytes (r.payload.getD []))
    else .error (-ENOMEM)

/-- `gh_rm_vm_set_status`. -/
def ghRmVmSetStatus (status : VmStatus) (env : StatusEnv) : RmCall Int :=
  .call ⟨GH_RM_RPC_MSG_ID_CALL_VM_SET_STATUS, some status.bytes, true⟩ fun r =>
    let o := r.out ⟨0, env.setSize⟩
    if r.isErr then r.ptrErr
    else if o.replyErrCode ≠ 0 then o.replyErrCode.toInt
    else if o.respPayloadSize ≠ 0 then -EINVAL
    else 0

/-- The common body of the functions that set a part of the status: the status
is read, `change` is made to the copy, and the copy is sent back. -/
def changeStatus (change : VmStatus → VmStatus) (env : StatusEnv) : RmCall (RmCall Int) :=
  (ghRmVmGetStatus 0 env).map fun
    | .error e => .ret e
    | .ok status => ghRmVmSetStatus (change status) env

/-- `gh_rm_vm_set_vm_status`. -/
def ghRmVmSetVmStatus (vmStatus : BitVec 8) (env : StatusEnv) : RmCall (RmCall Int) :=
  changeStatus (fun status => { status with vmStatus := vmStatus }) env

/-- `gh_rm_vm_set_os_status`. -/
def ghRmVmSetOsStatus (osStatus : BitVec 8) (env : StatusEnv) : RmCall (RmCall Int) :=
  changeStatus (fun status => { status with osStatus := osStatus }) env

/-- `gh_rm_vm_set_app_status`. -/
def ghRmVmSetAppStatus (appStatus : BitVec 16) (env : StatusEnv) : RmCall (RmCall Int) :=
  changeStatus (fun status => { status with appStatus := appStatus }) env

/-! ## Memory parcels -/

/-- The message ids of the requests on a parcel that is known by its handle. -/
def GH_RM_RPC_MSG_ID_CALL_MEM_RELEASE : BitVec 32 := 0x51000014
def GH_RM_RPC_MSG_ID_CALL_MEM_RECLAIM : BitVec 32 := 0x51000015
def GH_RM_RPC_MSG_ID_CALL_MEM_NOTIFY : BitVec 32 := 0x51000017

/-- Their flags. -/
def GH_RM_MEM_RELEASE_VALID_FLAGS : BitVec 8 := 1
def GH_RM_MEM_RECLAIM_VALID_FLAGS : BitVec 8 := 1
def GH_RM_MEM_NOTIFY_RECIPIENT_SHARED : BitVec 8 := 1
def GH_RM_MEM_NOTIFY_OWNER_RELEASED : BitVec 8 := 2
def GH_RM_MEM_NOTIFY_OWNER_ACCEPTED : BitVec 8 := 4
def GH_RM_MEM_NOTIFY_VALID_FLAGS : BitVec 8 := 7

/-- The reply of the memory calls, of which only `gh_ret` is checked. -/
def memReply (o : Out) (r : CallRet) : Int :=
  if (r.out o).replyErrCode ≠ 0 then r.ptrErr else 0

/-- `gh_rm_mem_release_helper`. -/
def ghRmMemReleaseHelper (fnId handle : BitVec 32) (flags : BitVec 8) (o : Out) : RmCall Int :=
  if fnId = GH_RM_RPC_MSG_ID_CALL_MEM_RELEASE ∧ flags &&& ~~~GH_RM_MEM_RELEASE_VALID_FLAGS ≠ 0 then
    .ret (-EINVAL)
  else if fnId = GH_RM_RPC_MSG_ID_CALL_MEM_RECLAIM ∧ flags &&& ~~~GH_RM_MEM_RECLAIM_VALID_FLAGS ≠ 0 then
    .ret (-EINVAL)
  else .call ⟨fnId, some (u32Bytes handle ++ [flags, 0, 0, 0]), true⟩ (memReply o)

/-- `gh_rm_mem_release`. -/
def ghRmMemRelease (handle : BitVec 32) (flags : BitVec 8) (o : Out) : RmCall Int :=
  ghRmMemReleaseHelper GH_RM_RPC_MSG_ID_CALL_MEM_RELEASE handle flags o

/-- `gh_rm_mem_reclaim`. -/
def ghRmMemReclaim (handle : BitVec 32) (flags : BitVec 8) (o : Out) : RmCall Int :=
  ghRmMemReleaseHelper GH_RM_RPC_MSG_ID_CALL_MEM_RECLAIM handle flags o

/-- `struct gh_notify_vmid_desc`: its entries, counted by a `u16`. -/
structure NotifyVmidDesc where
  vmidEntries : List VmId
  length_lt : vmidEntries.length < 2 ^ 16

/-- `hweight8`. -/
def hweight8 (x : BitVec 8) : Nat := (List.range 8).countP fun i => x.getLsbD i

/-- The arguments `gh_rm_mem_notify` rejects. -/
def notifyInvalid (flags : BitVec 8) (vmidDesc : Option NotifyVmidDesc) : Bool :=
  flags &&& ~~~GH_RM_MEM_NOTIFY_VALID_FLAGS != 0 ||
  (flags &&& GH_RM_MEM_NOTIFY_RECIPIENT_SHARED != 0 && vmidDesc.all (·.vmidEntries.length == 0)) ||
  (flags &&& (GH_RM_MEM_NOTIFY_OWNER_RELEASED ||| GH_RM_MEM_NOTIFY_OWNER_ACCEPTED) != 0 && vmidDesc.isSome) ||
  hweight8 flags != 1

/-- The request of `gh_rm_mem_notify`: the header, and the descriptor for
`GH_RM_MEM_NOTIFY_RECIPIENT_SHARED`. -/
def notifyReq (handle : BitVec 32) (flags : BitVec 8) (memInfoTag : BitVec 32)
    (vmidDesc : Option NotifyVmidDesc) : List Byte :=
  u32Bytes handle ++ [flags, 0, 0, 0] ++ u32Bytes memInfoTag ++
    if flags &&& GH_RM_MEM_NOTIFY_RECIPIENT_SHARED ≠ 0 then
      match vmidDesc with
      | some d => u16Bytes (BitVec.ofNat 16 d.vmidEntries.length) ++ u16Bytes 0 ++
          d.vmidEntries.flatMap fun v => u16Bytes v ++ u16Bytes 0
      | none => []
    else []

/-- `gh_rm_mem_notify`; `alloc` is whether the request can be allocated. -/
def ghRmMemNotify (handle : BitVec 32) (flags : BitVec 8) (memInfoTag : BitVec 32)
    (vmidDesc : Option NotifyVmidDesc) (alloc : Bool) (o : Out) : RmCall Int :=
  if notifyInvalid flags vmidDesc then .ret (-EINVAL)
  else
    let req := notifyReq handle flags memInfoTag vmidDesc
    match kzalloc alloc req.length with
    | none => .ret (-ENOMEM)
    | some _ => .call ⟨GH_RM_RPC_MSG_ID_CALL_MEM_NOTIFY, some req, true⟩ (memReply o)

end GH.Impl.Rm
