import Gunyah.Impl.Rm.Calls
import Gunyah.Spec.Rm.Accept
import Gunyah.Spec.Rm.MemReq
import Gunyah.Spec.Rm.Series

/-!
# What the driver asks of the resource manager

`Ask` is a request as it is meant, and `ApiCall.asks` what a call of a function of `gh_rm_iface.c` asks. The
other end reads messages: it puts the fragments of a request together (`requestOf`), knows by the
message id what kind of request it is (`kindOf`), and reads the payload by the structures of
`gh_rm_drv_private.h` (`Kind.layout`).
-/

namespace GH.Spec.Rm

open GH.Impl GH.Impl.Rm GH.Impl.Irq
open GH.Impl.Rm.Replies (LookupType)

/-! ## Requests -/

/-- Requests about a VM that say nothing else. -/
inductive VmOp where
  | allocate
  | deallocate
  | start
  | reset
  | init
  | getId
  | getState
  | getHypRes
  | consoleOpen
  | consoleClose
  | consoleFlush
  deriving DecidableEq, Repr

/-- Requests that give a lent interrupt back. -/
inductive IrqOp where
  | release
  | reclaim
  deriving DecidableEq, Repr

/-- Requests about memory that is described. -/
inductive MemOp where
  | share
  | lend
  | donate
  | lookupSgl
  deriving DecidableEq, Repr

/-- Requests that give a memory parcel back. -/
inductive FreeOp where
  | release
  | reclaim
  deriving DecidableEq, Repr

/-- What a request to accept a memory parcel says. -/
structure MemAccept where
  handle : BitVec 32
  memType : BitVec 8
  transType : BitVec 8
  flags : BitVec 8
  label : BitVec 32
  acl : List AclEntry
  mapVmid : BitVec 16
  sgl : List SglEntry
  attr : List MemAttrEntry
  deriving DecidableEq

/-- A request. -/
inductive Ask where
  | vm (op : VmOp) (vmid : VmId)
  | configImage (vmid : VmId) (config : ImageConfig)
  | authImage (vmid : VmId) (params : List AuthParamEntry)
  | stop (vmid : VmId) (flags : BitVec 8) (stopReason : BitVec 32)
  | setTimeBase (vmid : VmId) (timeBase archTimerRef : BitVec 64)
  | setStatus (status : VmStatus)
  | lookup (type : LookupType) (data : List Byte)
  | irqLend (vmid : VmId) (virq label : BitVec 32)
  | irqAccept (handle : VirqHandle) (virq : BitVec 32)
  | irq (op : IrqOp) (handle : VirqHandle)
  /-- `vmids` is for a lent interrupt only. -/
  | irqNotify (handle : VirqHandle) (flags : BitVec 8) (vmids : Option (List VmId))
  | consoleWrite (vmid : VmId) (data : List Byte)
  | memory (op : MemOp) (parcel : MemParcel)
  | memAppend (append : MemAppend)
  | memAccept (accept : MemAccept)
  | memFree (op : FreeOp) (handle : BitVec 32) (flags : BitVec 8)
  /-- `vmids` is for a parcel that has been shared only. -/
  | memNotify (handle : BitVec 32) (flags : BitVec 8) (memInfoTag : BitVec 32) (vmids : Option (List VmId))
  | minidumpGetInfo
  | minidumpRegister (baseIpa regionSize : BitVec 64) (name : List Byte)
  | minidumpDeregister (slotNum : BitVec 16)
  deriving DecidableEq

/-! ## Layouts -/

/-- A VMID, and 16 bits that are reserved. -/
def vmidPair : Decoder Byte VmId := do
  let vmid ← u16
  Decoder.skip 2
  return vmid

/-- A list of such, behind the number of them. -/
def vmidList : Decoder Byte (List VmId) := do
  let n ← u16
  Decoder.skip 2
  vmidPair.count n.toNat

/-- A part that is there only if the flags say so. -/
def optional {α : Type} (has : Bool) (d : Decoder Byte α) : Decoder Byte (Option α) :=
  if has then do return some (← d) else pure none

/-- The layouts of the requests, each read field by field in the order it has on the wire. -/
def configImage : Decoder Byte Ask := do
  let vmid ← u16
  let authMech ← u16
  let memHandle ← u32
  let imageOffset ← u64
  let imageSize ← u64
  let dtbOffset ← u64
  let dtbSize ← u64
  return .configImage vmid ⟨authMech, memHandle, imageOffset, imageSize, dtbOffset, dtbSize⟩

/-- An authentication parameter. -/
def authParam : Decoder Byte AuthParamEntry := do
  let authParamType ← u32
  let authParam ← u32
  return ⟨authParamType, authParam⟩

/-- The VM with its parameters. -/
def authImage : Decoder Byte Ask := do
  let vmid ← u16
  let n ← u16
  let params ← authParam.count n.toNat
  return .authImage vmid params

/-- The VM, with how and why it is stopped. -/
def stop : Decoder Byte Ask := do
  let vmid ← u16
  let flags ← u8
  Decoder.skip 1
  let stopReason ← u32
  return .stop vmid flags stopReason

/-- The VM with its time base. -/
def setTimeBase : Decoder Byte Ask := do
  let vmid ← vmidPair
  let timeBase ← u64
  let archTimerRef ← u64
  return .setTimeBase vmid timeBase archTimerRef

/-- The three parts of the VM's own status. -/
def setStatus : Decoder Byte Ask := do
  let vmStatus ← u8
  let osStatus ← u8
  let appStatus ← u16
  return .setStatus ⟨vmStatus, osStatus, appStatus⟩

/-- A name or a URI is padded to a multiple of 4 bytes; a GUID has 16 bytes. -/
def lookup : LookupType → Decoder Byte Ask
  | .guid => do return .lookup .guid (← Decoder.take 16)
  | type => do
    let size ← u16
    Decoder.skip 2
    let data ← Decoder.take size.toNat
    Decoder.skip (roundUp4 size.toNat - size.toNat)
    return .lookup type data

/-- An interrupt that is lent to a VM. -/
def irqLend : Decoder Byte Ask := do
  let vmid ← vmidPair
  let virq ← u32
  let label ← u32
  return .irqLend vmid virq label

/-- An interrupt that is accepted. -/
def irqAccept : Decoder Byte Ask := do
  let handle ← u32
  let virq ← u32
  return .irqAccept handle virq

/-- A notification, whose VMIDs come only with `LENT`. -/
def irqNotify : Decoder Byte Ask := do
  let handle ← u32
  let flags ← u8
  Decoder.skip 3
  let vmids ← optional (flags.getLsbD 0) vmidList
  return .irqNotify handle flags vmids

/-- The characters with their number. -/
def consoleWrite : Decoder Byte Ask := do
  let vmid ← u16
  let n ← u16
  let data ← Decoder.take n.toNat
  return .consoleWrite vmid data

/-- A parcel that is accepted, with the lists that it is checked against. -/
def memAccept : Decoder Byte Ask := do
  let handle ← u32
  let memType ← u8
  let transType ← u8
  let flags ← u8
  Decoder.skip 1
  let label ← u32
  let acl ← aclList
  let n ← u16
  let mapVmid ← u16
  let sgl ← sglEntry.count n.toNat
  let attr ← memAttrList
  return .memAccept ⟨handle, memType, transType, flags, label, acl, mapVmid, sgl, attr⟩

/-- A handle of memory and flags, of which 24 bits are reserved. -/
def handleFlags : Decoder Byte (BitVec 32 × BitVec 8) := do
  let handle ← u32
  let flags ← u8
  Decoder.skip 3
  return (handle, flags)

/-- A notification, whose VMIDs come only with `SHARED`. -/
def memNotify : Decoder Byte Ask := do
  let (handle, flags) ← handleFlags
  let memInfoTag ← u32
  let vmids ← optional (flags.getLsbD 0) vmidList
  return .memNotify handle flags memInfoTag vmids

/-- `name_offset` counts from the header of the message on, which has 8 bytes. -/
def minidumpRegister : Decoder Byte Ask := do
  let baseIpa ← u64
  let regionSize ← u64
  let nameSize ← u8
  let nameOffset ← u8
  Decoder.skip 2
  Decoder.skip (nameOffset.toNat - (HDR_SIZE + 20))
  let name ← Decoder.take nameSize.toNat
  return .minidumpRegister baseIpa regionSize name

/-! ## Messages -/

/-- The kinds of requests. -/
inductive Kind where
  | vm (op : VmOp)
  | configImage
  | authImage
  | stop
  | setTimeBase
  | setStatus
  | lookup (type : LookupType)
  | irqLend
  | irqAccept
  | irq (op : IrqOp)
  | irqNotify
  | consoleWrite
  | memory (op : MemOp)
  | memAppend
  | memAccept
  | memFree (op : FreeOp)
  | memNotify
  | minidumpGetInfo
  | minidumpRegister
  | minidumpDeregister
  deriving DecidableEq, Repr

/-- `GH_RM_RPC_MSG_ID_CALL_*`. -/
def Kind.messageId : Kind → BitVec 32
  | .vm .allocate => 0x56000001
  | .vm .deallocate => 0x56000002
  | .vm .start => 0x56000004
  | .stop => 0x56000005
  | .vm .reset => 0x56000006
  | .configImage => 0x56000009
  | .authImage => 0x5600000A
  | .vm .init => 0x5600000B
  | .vm .getId => 0x56000010
  | .lookup .uri => 0x56000011
  | .lookup .guid => 0x56000012
  | .lookup .name => 0x56000013
  | .vm .getState => 0x56000017
  | .vm .getHypRes => 0x56000020
  | .setTimeBase => 0x56000030
  | .minidumpGetInfo => 0x56000040
  | .minidumpRegister => 0x56000041
  | .minidumpDeregister => 0x56000042
  | .irqAccept => 0x56000050
  | .irqLend => 0x56000051
  | .irq .release => 0x56000052
  | .irq .reclaim => 0x56000053
  | .irqNotify => 0x56000054
  | .setStatus => 0x56000080
  | .vm .consoleOpen => 0x56000081
  | .vm .consoleClose => 0x56000082
  | .consoleWrite => 0x56000083
  | .vm .consoleFlush => 0x56000084
  | .memory .donate => 0x51000010
  | .memAccept => 0x51000011
  | .memory .lend => 0x51000012
  | .memory .share => 0x51000013
  | .memFree .release => 0x51000014
  | .memFree .reclaim => 0x51000015
  | .memNotify => 0x51000017
  | .memAppend => 0x51000018
  | .memory .lookupSgl => 0x5100001A

/-- The layout of each request. -/
def Kind.layout : Kind → Decoder Byte Ask
  | .vm op => do return .vm op (← vmidPair)
  | .configImage => Rm.configImage
  | .authImage => Rm.authImage
  | .stop => Rm.stop
  | .setTimeBase => Rm.setTimeBase
  | .setStatus => Rm.setStatus
  | .lookup type => Rm.lookup type
  | .irqLend => Rm.irqLend
  | .irqAccept => Rm.irqAccept
  | .irq op => do return .irq op (← u32)
  | .irqNotify => Rm.irqNotify
  | .consoleWrite => Rm.consoleWrite
  | .memory op => do return .memory op (← memParcel)
  | .memAppend => do return .memAppend (← Rm.memAppend)
  | .memAccept => Rm.memAccept
  | .memFree op => do
    let (handle, flags) ← handleFlags
    return .memFree op handle flags
  | .memNotify => Rm.memNotify
  | .minidumpGetInfo => do
    Decoder.skip 4
    return .minidumpGetInfo
  | .minidumpRegister => Rm.minidumpRegister
  | .minidumpDeregister => do return .minidumpDeregister (← vmidPair)

/-- The requests. -/
def Kind.all : List Kind :=
  [.vm .allocate, .vm .deallocate, .vm .start, .vm .reset, .vm .init, .vm .getId, .vm .getState, .vm .getHypRes,
    .vm .consoleOpen, .vm .consoleClose, .vm .consoleFlush, .configImage, .authImage, .stop, .setTimeBase, .setStatus,
    .lookup .name, .lookup .uri, .lookup .guid, .irqLend, .irqAccept, .irq .release, .irq .reclaim, .irqNotify,
    .consoleWrite, .memory .share, .memory .lend, .memory .donate, .memory .lookupSgl, .memAppend, .memAccept,
    .memFree .release, .memFree .reclaim, .memNotify, .minidumpGetInfo, .minidumpRegister, .minidumpDeregister]

/-- The request with a message id. -/
def kindOf (messageId : BitVec 32) : Option Kind := Kind.all.find? (·.messageId = messageId)

/-- What is read from a payload, which has nothing behind it. -/
def readAsk (messageId : BitVec 32) (payload : List Byte) : Option Ask := do
  let kind ← kindOf messageId
  match kind.layout payload with
  | some (ask, []) => some ask
  | _ => none

/-- A message that goes on with the request of `start`. -/
def Continues (start m : List Byte) : Prop :=
  rpcHdr m = { rpcHdr start with type := GH_RM_RPC_TYPE_CONT }

instance (start m : List Byte) : Decidable (Continues start m) := inferInstanceAs (Decidable (_ = _))

/-- The request in a series of messages: its number, its message id and its payload. -/
def requestOf : List (List Byte) → Option (BitVec 16 × BitVec 32 × List Byte)
  | [] => none
  | m :: ms =>
    if (rpcHdr m).type = GH_RM_RPC_TYPE_REQ ∧ (rpcHdr m).fragments.toNat = ms.length ∧ ∀ m' ∈ ms, Continues m m' then
      some ((rpcHdr m).seq, (rpcHdr m).msgId, (m :: ms).flatMap contPayload)
    else none

/-- What the other end understands: the number of the request, and what is asked. -/
def hears (ms : List (List Byte)) : Option (BitVec 16 × Ask) := do
  let (seq, messageId, payload) ← requestOf ms
  let ask ← readAsk messageId payload
  return (seq, ask)

end GH.Spec.Rm
