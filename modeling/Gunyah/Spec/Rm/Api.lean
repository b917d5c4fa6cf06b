import Gunyah.Spec.Rm.Room
import Gunyah.Spec.Rm.Wire

/-!
# The functions that ask the resource manager

Every function of `gh_rm_iface.c` that calls `gh_rm_call`, with its arguments: the request that it makes first
(`ApiCall.sends`), and what it is called to ask (`ApiCall.asks`). Five of the functions may write behind the end of
the request; `ApiCall.sent` says what they send then.
-/

namespace GH.Spec.Rm

open GH.Impl GH.Impl.Rm GH.Impl.Irq
open GH.Impl.Rm.Replies (LookupType)

/-- A call of a function. -/
inductive ApiCall where
  | allocVmid (t : VmTable) (vmName : VmName) (vmid : Int)
  | deallocVmid (t : VmTable) (vmid : VmId)
  | configImage (vmid : VmId) (config : ImageConfig)
  | authImage (vmid : VmId) (nEntries : Int) (entry : Nat → AuthParamEntry)
  | init (vmid : VmId)
  | start (vmid : Int)
  | stop (vmid : VmId) (stopReason : BitVec 32) (flags : BitVec 8)
  | reset (vmid : VmId)
  | getId (vmid : VmId)
  | lookup (type : LookupType) (data : Option (List Byte)) (vmid : Bool)
  | getStatus (vmid : VmId)
  | setStatus (status : VmStatus)
  | getHypRes (vmid : VmId)
  | setTimeBase (vmid : VmId) (tsNsRef qtimeRef : BitVec 64)
  | irqLend (vmid : VmId) (virq label : BitVec 32)
  | irqAccept (handle : VirqHandle) (virq : Int)
  | irqRelease (handle : VirqHandle)
  | irqReclaim (handle : VirqHandle)
  | irqNotify (vmids : List VmId) (flags : BitVec 16) (handle : VirqHandle)
  | consoleOpen (vmid : VmId)
  | consoleClose (vmid : VmId)
  | consoleFlush (vmid : VmId)
  | consoleWrite (vmid : VmId) (buf : List Byte)
  | memShare (a : MemArgs)
  | memLend (a : MemArgs)
  | memDonate (a : MemArgs)
  | memLookupSgl (a : MemArgs)
  | memAppend (handle : BitVec 32) (flags : BitVec 8) (sglEntries : List SglEntry)
  | memAccept (a : AcceptArgs)
  | memRelease (handle : BitVec 32) (flags : BitVec 8)
  | memReclaim (handle : BitVec 32) (flags : BitVec 8)
  | memNotify (handle : BitVec 32) (flags : BitVec 8) (memInfoTag : BitVec 32) (vmidDesc : Option NotifyVmidDesc)
  | minidumpGetInfo
  | minidumpRegisterRange (baseIpa regionSize : BitVec 64) (name : Option (List Byte))
  | minidumpDeregisterSlot (slotNum : BitVec 16)

/-- What the arguments do not decide: whether the request can be allocated, what is in the memory for it, and in
the variables that `gh_rm_call` gets pointers to. -/
structure ApiEnv where
  alloc : Bool := true
  heap : Nat → Byte := fun _ => 0
  out : Out := ⟨0, 0⟩

/-- The call that the function makes. -/
def callOfRm {α : Type} : RmCall α → Option CallArgs
  | .ret _ => none
  | .call args _ => some args

/-- The message id of the request. -/
def MemCall.fnId : MemCall → BitVec 32
  | .accept _ => GH_RM_RPC_MSG_ID_CALL_MEM_ACCEPT
  | .share _ => GH_RM_RPC_MSG_ID_CALL_MEM_SHARE
  | .lend _ => GH_RM_RPC_MSG_ID_CALL_MEM_LEND
  | .donate _ => GH_RM_RPC_MSG_ID_CALL_MEM_DONATE
  | .lookupSgl _ => GH_RM_RPC_MSG_ID_CALL_MEM_QCOM_LOOKUP_SGL

/-- `gh_rm_mem_accept` takes `GH_RM_MEM_ACCEPT_DONE` out of the flags where it makes several calls. -/
def MemCall.reflag : MemCall → List Byte → List Byte
  | .accept a, reqPayload =>
    if a.multiCall then setFlags (a.flags &&& ~~~GH_RM_MEM_ACCEPT_DONE) reqPayload else reqPayload
  | _, reqPayload => reqPayload

/-- The first request, as it is sent whether or not all writes are inside of it. -/
def MemCall.sent (m : MemCall) (alloc : Bool) : Option CallArgs :=
  match m.request alloc with
  | .error _ => none
  | .ok r => some ⟨m.fnId, some (m.reflag r.kept), true⟩

namespace ApiCall

/-- The request that it passes to `gh_rm_call` first. -/
def sends (env : ApiEnv) : ApiCall → Option CallArgs
  | .allocVmid t vmName vmid => callOfRm (ghRmVmAllocVmid t vmName vmid env.out)
  | .deallocVmid t vmid => callOfRm (ghRmVmDeallocVmid t vmid env.out)
  | .configImage vmid config => callOfRm (ghRmVmConfigImage vmid config env.out.respPayloadSize)
  | .authImage vmid nEntries entry => first (ghRmVmAuthImage vmid nEntries entry env.alloc env.out.respPayloadSize)
  | .init vmid => callOfRm (ghRmVmInit vmid env.out.respPayloadSize)
  | .start vmid => callOfRm (ghRmVmStart vmid env.out.respPayloadSize)
  | .stop vmid stopReason flags => callOfRm (ghRmVmStop vmid stopReason flags env.out)
  | .reset vmid => callOfRm (ghRmVmReset vmid env.out)
  | .getId vmid => callOfRm (Replies.ghRmVmGetId vmid true env.alloc env.out)
  | .lookup type data vmid => first (Replies.ghRmVmLookup type data vmid env.alloc env.out)
  | .getStatus vmid => callOfRm (ghRmVmGetStatus vmid { alloc := env.alloc, getSize := env.out.respPayloadSize })
  | .setStatus status => callOfRm (ghRmVmSetStatus status { setSize := env.out.respPayloadSize })
  | .getHypRes vmid => callOfRm (Replies.ghRmVmGetHypRes vmid true env.alloc env.out)
  | .setTimeBase vmid tsNsRef qtimeRef =>
    callOfRm (ghRmVmSetTimeBase vmid tsNsRef qtimeRef env.out.respPayloadSize)
  | .irqLend vmid virq label => callOfRm (ghRmVmIrqLend vmid virq label env.out)
  | .irqAccept handle virq => callOfRm (ghRmVmIrqAccept handle virq env.out)
  | .irqRelease handle => callOfRm (ghRmVmIrqRelease handle env.out)
  | .irqReclaim handle => callOfRm (ghRmVmIrqReclaim handle env.out)
  | .irqNotify vmids flags handle => first (ghRmVmIrqNotify vmids flags handle env.alloc env.out)
  | .consoleOpen vmid => callOfRm (ghRmConsoleOpen vmid env.out.respPayloadSize)
  | .consoleClose vmid => callOfRm (ghRmConsoleClose vmid env.out.respPayloadSize)
  | .consoleFlush vmid => callOfRm (ghRmConsoleFlush vmid env.out.respPayloadSize)
  | .consoleWrite vmid buf => first (ghRmConsoleWrite vmid buf env.alloc env.out.respPayloadSize)
  | .memShare a => first (ghRmMemShare a { alloc := env.alloc, heap := fun _ => env.heap, out := env.out, appendOut := fun _ => env.out })
  | .memLend a => first (ghRmMemLend a { alloc := env.alloc, heap := fun _ => env.heap, out := env.out, appendOut := fun _ => env.out })
  | .memDonate a => first (ghRmMemDonate a { alloc := env.alloc, heap := fun _ => env.heap, out := env.out, appendOut := fun _ => env.out })
  | .memLookupSgl a => first (ghRmMemQcomLookupSgl a env.alloc env.out)
  | .memAppend handle flags sglEntries => first (ghRmMemAppend handle flags sglEntries env.heap env.alloc env.out .ret)
  | .memAccept a => (Accept.start a { alloc := env.alloc, out := env.out }).request a { alloc := env.alloc, out := env.out }
  | .memRelease handle flags => callOfRm (ghRmMemRelease handle flags env.out)
  | .memReclaim handle flags => callOfRm (ghRmMemReclaim handle flags env.out)
  | .memNotify handle flags memInfoTag vmidDesc =>
    callOfRm (ghRmMemNotify handle flags memInfoTag vmidDesc env.alloc env.out)
  | .minidumpGetInfo => callOfRm (ghRmMinidumpGetInfo env.out)
  | .minidumpRegisterRange baseIpa regionSize name =>
    first (ghRmMinidumpRegisterRange baseIpa regionSize name env.heap env.alloc env.out)
  | .minidumpDeregisterSlot slotNum => callOfRm (ghRmMinidumpDeregisterSlot slotNum env.out)

/-- The functions that fill in a request with `gh_rm_populate_mem_request`. -/
def describes : ApiCall → Option MemCall
  | .memShare a => some (.share a)
  | .memLend a => some (.lend a)
  | .memDonate a => some (.donate a)
  | .memLookupSgl a => some (.lookupSgl a)
  | .memAccept a => some (.accept a)
  | _ => none

/-- The request that it passes to `gh_rm_call` first, also where it has written behind the end of it. -/
def sent (env : ApiEnv) (c : ApiCall) : Option CallArgs :=
  match c.describes with
  | some m => m.sent env.alloc
  | none => c.sends env

/-- The first part of an SG list, which the first request has: the flags say that others follow. -/
def sharePart (a : MemArgs) : MemParcel where
  memType := a.memType
  flags := if (sglOf a.sglDesc).length > GH_RM_MEM_MAX_SGL_ENTRIES then a.flags ||| GH_RM_MEM_LEND_APPEND else a.flags
  label := a.label
  acl := aclOf a.aclDesc
  sgl := (sglOf a.sglDesc).take GH_RM_MEM_MAX_SGL_ENTRIES
  attr := attrOf a.memAttrDesc

/-- The label is sent to be validated only, and `GH_RM_MEM_ACCEPT_DONE` with the last of several requests only. -/
def acceptOf (a : AcceptArgs) : MemAccept where
  handle := a.handle
  memType := a.memType
  transType := a.transType
  flags := if a.multiCall then a.flags &&& ~~~GH_RM_MEM_ACCEPT_DONE else a.flags
  label := if a.has GH_RM_MEM_ACCEPT_VALIDATE_LABEL then a.label else 0
  acl := aclOf a.aclDesc
  mapVmid := a.mapVmid
  sgl := sglOf a.sglDesc
  attr := attrOf a.memAttrDesc

/-- What is asked. A number of entries below 0 does not ask anything. -/
def asks : ApiCall → Option Ask
  | .allocVmid _ _ vmid => some (.vm .allocate (BitVec.ofInt 16 vmid))
  | .deallocVmid _ vmid => some (.vm .deallocate vmid)
  | .configImage vmid config => some (.configImage vmid config)
  | .authImage vmid nEntries entry =>
    if 0 ≤ nEntries then some (.authImage vmid ((List.range nEntries.toNat).map entry)) else none
  | .init vmid => some (.vm .init vmid)
  | .start vmid => some (.vm .start (BitVec.ofInt 16 vmid))
  | .stop vmid stopReason flags => some (.stop vmid flags stopReason)
  | .reset vmid => some (.vm .reset vmid)
  | .getId vmid => some (.vm .getId vmid)
  | .lookup type data _ => some (.lookup type (data.getD []))
  | .getStatus vmid => some (.vm .getState vmid)
  | .setStatus status => some (.setStatus status)
  | .getHypRes vmid => some (.vm .getHypRes vmid)
  | .setTimeBase vmid tsNsRef qtimeRef => some (.setTimeBase vmid tsNsRef qtimeRef)
  | .irqLend vmid virq label => some (.irqLend vmid virq label)
  | .irqAccept handle virq => some (.irqAccept handle (BitVec.ofInt 32 virq))
  | .irqRelease handle => some (.irq .release handle)
  | .irqReclaim handle => some (.irq .reclaim handle)
  | .irqNotify vmids flags handle =>
    some (.irqNotify handle (flags.setWidth 8) (if flags.getLsbD 0 then some vmids else none))
  | .consoleOpen vmid => some (.vm .consoleOpen vmid)
  | .consoleClose vmid => some (.vm .consoleClose vmid)
  | .consoleFlush vmid => some (.vm .consoleFlush vmid)
  | .consoleWrite vmid buf => some (.consoleWrite vmid buf)
  | .memShare a => some (.memory .share (sharePart a))
  | .memLend a => some (.memory .lend (sharePart a))
  | .memDonate a => some (.memory .donate (sharePart a))
  | .memLookupSgl a => some (.memory .lookupSgl (parcel a 0))
  | .memAppend handle flags sglEntries => some (.memAppend ⟨handle, flags, sglEntries⟩)
  | .memAccept a => some (.memAccept (acceptOf a))
  | .memRelease handle flags => some (.memFree .release handle flags)
  | .memReclaim handle flags => some (.memFree .reclaim handle flags)
  | .memNotify handle flags memInfoTag vmidDesc =>
    some (.memNotify handle flags memInfoTag (if flags.getLsbD 0 then vmidDesc.map (·.vmidEntries) else none))
  | .minidumpGetInfo => some .minidumpGetInfo
  | .minidumpRegisterRange baseIpa regionSize name => some (.minidumpRegister baseIpa regionSize (name.getD []))
  | .minidumpDeregisterSlot slotNum => some (.minidumpDeregister slotNum)

/-- The request says all of what is asked: the number of entries is one, the SG list of a lookup is not cut off,
the ACL and the attributes are accounted for, and the size of a name fits its field. -/
def Whole : ApiCall → Prop
  | .authImage _ nEntries _ => 0 ≤ nEntries
  | .memShare a => (MemCall.share a).Accounted
  | .memLend a => (MemCall.lend a).Accounted
  | .memDonate a => (MemCall.donate a).Accounted
  | .memLookupSgl a => (sglOf a.sglDesc).length ≤ GH_RM_MEM_MAX_SGL_ENTRIES
  | .memAccept a => (MemCall.accept a).Accounted
  | .minidumpRegisterRange _ _ name => (name.getD []).length < 2 ^ 8
  | _ => True

end ApiCall

end GH.Spec.Rm
