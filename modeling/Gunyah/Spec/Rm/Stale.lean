import Gunyah.Spec.Rm.Accept
import Gunyah.Spec.Rm.Payloads
import Gunyah.Spec.Rm.Share

/-!
# What the heap had in it

The functions that build requests, each run with the same arguments and the same outcomes of its calls, but with
different bytes in the memory that it is given: whether the RM can tell.
-/

namespace GH.Spec.Rm

open GH.Impl GH.Impl.Rm

/-- A call of one of the functions. -/
inductive HeapCall where
  | memAppend (handle : BitVec 32) (flags : BitVec 8) (sglEntries : List SglEntry) (alloc : Bool) (o : Out)
  | memShare (a : MemArgs) (env : ShareEnv)
  | memLend (a : MemArgs) (env : ShareEnv)
  | memDonate (a : MemArgs) (env : ShareEnv)
  | memAccept (a : AcceptArgs) (env : AcceptEnv)
  | memNotify (handle : BitVec 32) (flags : BitVec 8) (memInfoTag : BitVec 32) (vmidDesc : Option NotifyVmidDesc)
      (alloc : Bool) (o : Out)
  | irqNotify (vmids : List VmId) (flags : BitVec 16) (virqHandle : BitVec 32) (alloc : Bool) (o : Out)
  | authImage (vmid : VmId) (nEntries : Int) (entry : Nat → AuthParamEntry) (alloc : Bool) (respPayloadSize : Nat)
  | minidumpRegisterRange (baseIpa regionSize : BitVec 64) (name : Option (List Byte)) (alloc : Bool) (o : Out)

/-- The requests that a function makes. -/
def requests {α : Type} (xs : Nat → Outcome) (f : RmCalls α) : List CallArgs := (f.run fun k => (xs k).callRet).1

/-- Request `k` that the function passes to `gh_rm_call`. The bytes in the memory of allocation `i` are `heap i`; only
the appends of a long SG list have an `i` other than 0. -/
def HeapCall.request (heap : Nat → Nat → Byte) (xs : Nat → Outcome) (k : Nat) : HeapCall → Option CallArgs
  | .memAppend handle flags sglEntries alloc o =>
    (requests xs (ghRmMemAppend handle flags sglEntries (heap 0) alloc o .ret))[k]?
  | .memShare a env => (requests xs (ghRmMemShare a { env with heap := heap }))[k]?
  | .memLend a env => (requests xs (ghRmMemLend a { env with heap := heap }))[k]?
  | .memDonate a env => (requests xs (ghRmMemDonate a { env with heap := heap }))[k]?
  | .memAccept a env => (acceptAt a env xs k).request a env
  | .memNotify handle flags memInfoTag vmidDesc alloc o =>
    match ghRmMemNotify handle flags memInfoTag vmidDesc alloc o with
    | .ret _ => none
    | .call args _ => [args][k]?
  | .irqNotify vmids flags virqHandle alloc o => (requests xs (ghRmVmIrqNotify vmids flags virqHandle alloc o))[k]?
  | .authImage vmid nEntries entry alloc respPayloadSize =>
    (requests xs (ghRmVmAuthImage vmid nEntries entry alloc respPayloadSize))[k]?
  | .minidumpRegisterRange baseIpa regionSize name alloc o =>
    (requests xs (ghRmMinidumpRegisterRange baseIpa regionSize name (heap 0) alloc o))[k]?

/-- `gh_rm_send_request` does not find the request too long. -/
def goesOut (args : CallArgs) : Bool :=
  args.reqBuff.any fun payload => (Request.mk args.messageId payload 0).numFragments.toNat ≤ GH_RM_MAX_NUM_FRAGMENTS

/-- Request `k`, if it is sent to the RM. -/
def HeapCall.sends (heap : Nat → Nat → Byte) (xs : Nat → Outcome) (k : Nat) (c : HeapCall) : Option CallArgs :=
  (c.request heap xs k).filter goesOut

end GH.Spec.Rm
