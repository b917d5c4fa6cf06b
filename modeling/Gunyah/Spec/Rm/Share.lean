import Gunyah.Spec.Rm.Iface
import Gunyah.Spec.Rm.MemReq

/-!
# Sharing a list of memory with several requests

What `gh_rm_mem_share_lend_helper` is for: the RM gets the whole SG list, in the
first request and the ones that append to it, and if one of these fails, the
memory is reclaimed. `AllSent` and `Reclaimed` say what has been sent then.
-/

namespace GH.Spec.Rm

open GH.Impl GH.Impl.Rm

/-- The first request succeeds: there is a handle in its reply. -/
def Shared (x : Outcome) (handle : BitVec 32) : Prop :=
  ∃ payload, x = .answered payload 4 ∧ respHandle (payload.getD []) = handle

/-- A request to append succeeds: its reply is empty. -/
def Appended (x : Outcome) : Prop := ∃ payload, x = .answered payload 0

/-- The append from entry `idx` on succeeds, where its call ends in `x`. -/
def AppendOk (env : ShareEnv) (idx : Nat) (x : Outcome) : Prop := env.appendAlloc idx = true ∧ Appended x

/-- All appends to an SG list of `n` entries succeed: that from entry `idx` on is the call
after `idx / GH_RM_MEM_MAX_SGL_ENTRIES` others. -/
def AllAppend (env : ShareEnv) (n : Nat) (xs : Nat → Outcome) : Prop :=
  ∀ j, GH_RM_MEM_MAX_SGL_ENTRIES * (j + 1) < n →
    AppendOk env (GH_RM_MEM_MAX_SGL_ENTRIES * (j + 1)) (xs (j + 1))

/-- The payload of a call, which the RM reads as `a`, all of it. -/
def Delivers {α : Type} (d : Decoder Byte α) (fnId : BitVec 32) (args : CallArgs) (a : α) : Prop :=
  args.messageId = fnId ∧ ∃ payload, args.reqBuff = some payload ∧ d payload = some (a, [])

/-- A request that appends: what it is for. -/
structure AppendsTo (handle : BitVec 32) (m : MemAppend) : Prop where
  handle : m.handle = handle
  some : 1 ≤ m.sgl.length
  most : m.sgl.length ≤ GH_RM_MEM_MAX_SGL_ENTRIES

/-- All has been sent: a request with the beginning of the SG list, and requests that
append the rest of it, piece by piece. -/
structure AllSent (fnId : BitVec 32) (a : MemArgs) (handle : BitVec 32) (sent : List CallArgs)
    (first : MemParcel) (appends : List MemAppend) : Prop where
  sent : ∃ args rest, sent = args :: rest ∧ Delivers memParcel fnId args first ∧
    List.Forall₂ (Delivers memAppend GH_RM_RPC_MSG_ID_CALL_MEM_APPEND) rest appends
  acl : first.acl = aclOf a.aclDesc
  attr : first.attr = attrOf a.memAttrDesc
  memType : first.memType = a.memType
  label : first.label = a.label
  beginning : first.sgl = (sglOf a.sglDesc).take GH_RM_MEM_MAX_SGL_ENTRIES
  sgl : first.sgl ++ (appends.map (·.sgl)).flatten = sglOf a.sglDesc
  appendsTo : ∀ m ∈ appends, AppendsTo handle m
  /-- The first request tells whether there are others. -/
  append : first.flags &&& GH_RM_MEM_LEND_APPEND ≠ 0 ↔ (sglOf a.sglDesc).length > GH_RM_MEM_MAX_SGL_ENTRIES
  /-- The last one tells that it is the last. -/
  appendEnd : ∀ i m, appends[i]? = some m → (m.flags &&& GH_RM_MEM_APPEND_END ≠ 0 ↔ i + 1 = appends.length)

/-- The request of `gh_rm_mem_reclaim`. -/
def reclaimArgs (handle : BitVec 32) : CallArgs :=
  ⟨GH_RM_RPC_MSG_ID_CALL_MEM_RECLAIM, some (u32Bytes handle ++ [0, 0, 0, 0]), true⟩

/-- An append has failed: the requests before it have succeeded, none to append comes after
it, and the memory is reclaimed, once. -/
def Reclaimed (handle : BitVec 32) (xs : Nat → Outcome) (sent : List CallArgs) : Prop :=
  ∃ args appends, sent = args :: appends ++ [reclaimArgs handle] ∧
    args.messageId ≠ GH_RM_RPC_MSG_ID_CALL_MEM_RECLAIM ∧
    (∀ m ∈ appends, m.messageId = GH_RM_RPC_MSG_ID_CALL_MEM_APPEND) ∧
    ∀ k, k + 1 < appends.length → Appended (xs (k + 1))

end GH.Spec.Rm
