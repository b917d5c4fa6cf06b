import Gunyah.Impl.Rm.Iface
import Gunyah.Framework.Buffer

/-!
# Requests about memory parcels

The requests of `gh_rm_iface.c` that describe memory: a header, and after it
an access control list, a list of the memory's pieces (SG list) and a list of
memory attributes. `gh_rm_alloc_mem_request_buf` computes the size of such a request
from numbers of entries, `gh_rm_populate_mem_request` fills it in from the
descriptors themselves, and each of their callers decides which numbers it
passes.

A request is a buffer and the writes to it (`MemReq`). The functions that send more than
one are `RmCalls`.
-/

namespace GH.Impl.Rm

/-- A function that makes any number of calls, one after the other. -/
inductive RmCalls (α : Type) where
  | ret (a : α)
  /-- It writes behind the end of a buffer, or follows a `NULL` pointer. -/
  | fault
  | call (args : CallArgs) (cont : CallRet → RmCalls α)

/-- The calls that the function makes, and what it returns, where call `k` returns `r k`. -/
def RmCalls.run {α : Type} : RmCalls α → (Nat → CallRet) → List CallArgs × Option α
  | .ret a, _ => ([], some a)
  | .fault, _ => ([], none)
  | .call args cont, r =>
    let (sent, a) := (cont (r 0)).run fun k => r (k + 1)
    (args :: sent, a)

/-- `n` bytes of the heap, which holds what was in it before, or `NULL`. -/
def kmalloc (heap : Nat → Byte) (ok : Bool) (n : Nat) : Option (List Byte) :=
  if ok ∧ n ≤ KMALLOC_MAX_SIZE then some ((List.range n).map heap) else none

/-- A little-endian word of eight bytes. -/
def u64Bytes (x : BitVec 64) : List Byte := u32Bytes (x.extractLsb' 0 32) ++ u32Bytes (x.extractLsb' 32 32)

/-! ## Descriptors -/

/-- `struct gh_acl_entry`. -/
structure AclEntry where
  vmid : VmId
  perms : BitVec 8
  deriving DecidableEq, Repr

/-- `struct gh_sgl_entry`. -/
structure SglEntry where
  ipaBase : BitVec 64
  size : BitVec 64
  deriving DecidableEq, Repr

/-- `struct gh_sgl_entry` -/
def SglEntry.bytes (e : SglEntry) : List Byte := u64Bytes e.ipaBase ++ u64Bytes e.size

/-- `struct gh_mem_attr_entry`. -/
structure MemAttrEntry where
  attr : BitVec 16
  vmid : VmId
  deriving DecidableEq, Repr

/-- `struct gh_mem_attr_entry` -/
def MemAttrEntry.bytes (e : MemAttrEntry) : List Byte := u16Bytes e.attr ++ u16Bytes e.vmid

/-- `struct gh_acl_desc`: its entries, counted by a `u32`. -/
structure AclDesc where
  aclEntries : List AclEntry
  length_lt : aclEntries.length < 2 ^ 32

/-- `struct gh_sgl_desc`: its entries, counted by a `u16`. -/
structure SglDesc where
  sglEntries : List SglEntry
  length_lt : sglEntries.length < 2 ^ 16

/-- `struct gh_mem_attr_desc`: its entries, counted by a `u16`. -/
structure MemAttrDesc where
  attrEntries : List MemAttrEntry
  length_lt : attrEntries.length < 2 ^ 16

/-- The entries of a descriptor; a `NULL` pointer has none. -/
def aclOf (d : Option AclDesc) : List AclEntry := (d.map (·.aclEntries)).getD []
/-- The entries of a descriptor, none where it is `NULL`. -/
def sglOf (d : Option SglDesc) : List SglEntry := (d.map (·.sglEntries)).getD []
def attrOf (d : Option MemAttrDesc) : List MemAttrEntry := (d.map (·.attrEntries)).getD []

/-- `offsetof` the entry behind the last of `n`. -/
def aclSize (n : Nat) : Nat := 4 + 4 * n
/-- The sizes of the lists, with their counts. -/
def sglSize (n : Nat) : Nat := 4 + 16 * n
def memAttrSize (n : Nat) : Nat := 4 + 4 * n

/-! ## Filling in a request -/

/-- The message ids of the requests with lists. -/
def GH_RM_RPC_MSG_ID_CALL_MEM_DONATE : BitVec 32 := 0x51000010
def GH_RM_RPC_MSG_ID_CALL_MEM_ACCEPT : BitVec 32 := 0x51000011
def GH_RM_RPC_MSG_ID_CALL_MEM_LEND : BitVec 32 := 0x51000012
def GH_RM_RPC_MSG_ID_CALL_MEM_SHARE : BitVec 32 := 0x51000013
def GH_RM_RPC_MSG_ID_CALL_MEM_APPEND : BitVec 32 := 0x51000018
def GH_RM_RPC_MSG_ID_CALL_MEM_QCOM_LOOKUP_SGL : BitVec 32 := 0x5100001A

/-- The number of SG entries that one request has at most. -/
def GH_RM_MEM_MAX_SGL_ENTRIES : Nat := 512

/-- The types of memory. -/
def GH_RM_MEM_TYPE_NORMAL : BitVec 8 := 0
def GH_RM_MEM_TYPE_IO : BitVec 8 := 1

/-- The writes of `gh_rm_populate_acl_desc`, to `dst_desc`. -/
def ghRmPopulateAclDesc (srcDesc : Option AclDesc) : List (Write Byte) :=
  ⟨0, u32Bytes (BitVec.ofNat 32 (aclOf srcDesc).length)⟩ ::
    atOffset 4 (each 4 (fun e => [⟨0, u16Bytes e.vmid⟩, ⟨2, [e.perms]⟩]) (aclOf srcDesc))

/-- The writes of `gh_rm_populate_sgl_desc`, to `dst_desc`. -/
def ghRmPopulateSglDesc (srcDesc : Option SglDesc) (reservedParam : BitVec 16) : List (Write Byte) :=
  let nSglEntries := min GH_RM_MEM_MAX_SGL_ENTRIES (sglOf srcDesc).length
  [⟨0, u16Bytes (BitVec.ofNat 16 nSglEntries)⟩, ⟨2, u16Bytes reservedParam⟩] ++
    if nSglEntries ≠ 0 then [⟨4, ((sglOf srcDesc).take nSglEntries).flatMap (·.bytes)⟩] else []

/-- The writes of `gh_rm_populate_mem_attr_desc`, to `dst_desc`. -/
def ghRmPopulateMemAttrDesc (srcDesc : Option MemAttrDesc) : List (Write Byte) :=
  ⟨0, u16Bytes (BitVec.ofNat 16 (attrOf srcDesc).length)⟩ ::
    if (attrOf srcDesc).length ≠ 0 then [⟨4, (attrOf srcDesc).flatMap (·.bytes)⟩] else []

/-- The size of the header of a request. -/
def reqHdrSize (fnId : BitVec 32) : Option Nat :=
  if fnId = GH_RM_RPC_MSG_ID_CALL_MEM_LEND ∨ fnId = GH_RM_RPC_MSG_ID_CALL_MEM_SHARE ∨
      fnId = GH_RM_RPC_MSG_ID_CALL_MEM_DONATE then some 8
  else if fnId = GH_RM_RPC_MSG_ID_CALL_MEM_QCOM_LOOKUP_SGL then some 8
  else if fnId = GH_RM_RPC_MSG_ID_CALL_MEM_ACCEPT then some 12
  else none

/-- The writes of `gh_rm_populate_mem_request`. -/
def ghRmPopulateMemRequest (fnId : BitVec 32) (srcAclDesc : Option AclDesc) (srcSglDesc : Option SglDesc)
    (reservedParam : BitVec 16) (srcMemAttrs : Option MemAttrDesc) : List (Write Byte) :=
  match reqHdrSize fnId with
  | none => []
  | some reqHdrSize =>
    let reqAclSize := aclSize (aclOf srcAclDesc).length
    let reqSglSize := sglSize (min GH_RM_MEM_MAX_SGL_ENTRIES (sglOf srcSglDesc).length)
    atOffset reqHdrSize (ghRmPopulateAclDesc srcAclDesc) ++
      atOffset (reqHdrSize + reqAclSize) (ghRmPopulateSglDesc srcSglDesc reservedParam) ++
      atOffset (reqHdrSize + reqAclSize + reqSglSize) (ghRmPopulateMemAttrDesc srcMemAttrs)

/-- `gh_rm_alloc_mem_request_buf`; `req_payload_size` is the length of the buffer. -/
def ghRmAllocMemRequestBuf (fnId : BitVec 32) (nAclEntries nSglEntries nMemAttrEntries : Nat) (alloc : Bool) :
    Except Int (List Byte) :=
  match reqHdrSize fnId with
  | none => .error (-EINVAL)
  | some reqHdrSize =>
    match kzalloc alloc
      (reqHdrSize + (aclSize nAclEntries + sglSize nSglEntries + memAttrSize nMemAttrEntries)) with
    | none => .error (-ENOMEM)
    | some reqBuf => .ok reqBuf

/-- A request while it is built: its buffer, the writes of its header, and those of
`gh_rm_populate_mem_request`. -/
structure MemReq where
  reqBuf : List Byte
  hdr : List (Write Byte)
  populate : List (Write Byte)
  deriving DecidableEq, Repr

/-- The request as it is sent. -/
def MemReq.bytes (r : MemReq) : Option (List Byte) := stores (r.hdr ++ r.populate) r.reqBuf

/-- What it is sent with where a write goes on behind its end, which the code does not notice. -/
def MemReq.kept (r : MemReq) : List Byte := overwrites (r.hdr ++ r.populate) r.reqBuf

/-- The request is sent, if there is one. -/
def sendRequest {α : Type} (fnId : BitVec 32) (req : Except Int MemReq) (err : Int → RmCalls α)
    (cont : CallRet → RmCalls α) : RmCalls α :=
  match req with
  | .error e => err e
  | .ok req =>
    match req.bytes with
    | none => .fault
    | some reqBuf => .call ⟨fnId, some reqBuf, true⟩ cont

/-- A call's result, where `gh_ret` and `IS_ERR` are both checked: the payload and its size. -/
def checkedReply (o : Out) (r : CallRet) : Except Int (List Byte × Nat) :=
  let o := r.out o
  if o.replyErrCode ≠ 0 ∨ r.isErr then .error r.ptrErr
  else .ok (r.payload.getD [], o.respPayloadSize)

/-- `memparcel_handle` at the start of a reply. -/
def respHandle (payload : List Byte) : BitVec 32 :=
  payload.getD 3 0 ++ payload.getD 2 0 ++ payload.getD 1 0 ++ payload.getD 0 0

/-- The arguments of the functions that ask for a handle; `handle` is whether there is a
pointer to store it. -/
structure MemArgs where
  memType : BitVec 8
  flags : BitVec 8 := 0
  label : BitVec 32
  aclDesc : Option AclDesc
  sglDesc : Option SglDesc
  memAttrDesc : Option MemAttrDesc
  handle : Bool := true

/-- What `gh_rm_mem_qcom_lookup_sgl` rejects, and `gh_rm_mem_share_lend_helper` too. -/
def MemArgs.invalid (a : MemArgs) : Bool :=
  (a.memType != GH_RM_MEM_TYPE_NORMAL && a.memType != GH_RM_MEM_TYPE_IO) ||
  a.aclDesc.all (·.aclEntries.length == 0) || a.sglDesc.all (·.sglEntries.length == 0) ||
  a.memAttrDesc.any (·.attrEntries.length == 0) || !a.handle

/-! ## `gh_rm_mem_qcom_lookup_sgl` -/

/-- The request of `gh_rm_mem_qcom_lookup_sgl`. -/
def lookupRequest (a : MemArgs) (alloc : Bool) : Except Int MemReq :=
  if a.invalid then .error (-EINVAL)
  else
    match ghRmAllocMemRequestBuf GH_RM_RPC_MSG_ID_CALL_MEM_QCOM_LOOKUP_SGL (aclOf a.aclDesc).length
      (sglOf a.sglDesc).length (attrOf a.memAttrDesc).length alloc with
    | .error e => .error e
    | .ok reqBuf =>
      .ok { reqBuf
            hdr := [⟨0, [a.memType]⟩, ⟨4, u32Bytes a.label⟩]
            populate := ghRmPopulateMemRequest GH_RM_RPC_MSG_ID_CALL_MEM_QCOM_LOOKUP_SGL a.aclDesc a.sglDesc 0
              a.memAttrDesc }

/-- `gh_rm_mem_qcom_lookup_sgl`: what it returns, and the handle, if it is stored. -/
def ghRmMemQcomLookupSgl (a : MemArgs) (alloc : Bool) (o : Out) : RmCalls (Int × Option (BitVec 32)) :=
  sendRequest GH_RM_RPC_MSG_ID_CALL_MEM_QCOM_LOOKUP_SGL (lookupRequest a alloc) (fun e => .ret (e, none)) fun r =>
    match checkedReply o r with
    | .error e => .ret (e, none)
    | .ok (payload, respSize) =>
      .ret (if respSize ≠ 4 then (-EINVAL, none) else (0, some (respHandle payload)))

/-! ## `gh_rm_mem_share`, `gh_rm_mem_lend` and `gh_rm_mem_donate` -/

/-- The flags of the requests with lists. -/
def GH_RM_MEM_APPEND_END : BitVec 8 := 1
def GH_RM_MEM_APPEND_VALID_FLAGS : BitVec 8 := GH_RM_MEM_APPEND_END
def GH_RM_MEM_LEND_APPEND : BitVec 8 := 2
def GH_RM_MEM_SHARE_VALID_FLAGS : BitVec 8 := 1
def GH_RM_MEM_LEND_VALID_FLAGS : BitVec 8 := 1
def GH_RM_MEM_DONATE_VALID_FLAGS : BitVec 8 := 1

/-- The request of `gh_rm_mem_append`, in a buffer that is not cleared. -/
def appendRequest (handle : BitVec 32) (flags : BitVec 8) (sglEntries : List SglEntry) (heap : Nat → Byte)
    (alloc : Bool) : Except Int MemReq :=
  if flags &&& ~~~GH_RM_MEM_APPEND_VALID_FLAGS ≠ 0 ∨ sglEntries.length > GH_RM_MEM_MAX_SGL_ENTRIES then
    .error (-EINVAL)
  else
    match kmalloc heap alloc (8 + sglSize sglEntries.length) with
    | none => .error (-ENOMEM)
    | some reqBuf =>
      .ok { reqBuf
            hdr := [⟨0, u32Bytes handle⟩, ⟨4, [flags]⟩]
            populate := atOffset 8
              [⟨0, u16Bytes (BitVec.ofNat 16 sglEntries.length)⟩, ⟨4, sglEntries.flatMap (·.bytes)⟩] }

/-- The reply of `MEM_APPEND`. -/
def appendReply (o : Out) (r : CallRet) : Int :=
  match checkedReply o r with
  | .error e => e
  | .ok (_, respSize) => if respSize ≠ 0 then -EINVAL else 0

/-- `gh_rm_mem_append`, which goes on with what it returns. -/
def ghRmMemAppend {α : Type} (handle : BitVec 32) (flags : BitVec 8) (sglEntries : List SglEntry)
    (heap : Nat → Byte) (alloc : Bool) (o : Out) (cont : Int → RmCalls α) : RmCalls α :=
  sendRequest GH_RM_RPC_MSG_ID_CALL_MEM_APPEND (appendRequest handle flags sglEntries heap alloc) cont fun r =>
    cont (appendReply o r)

/-- `gh_rm_mem_reclaim`, whose result is not used. -/
def reclaimThen {α : Type} (handle : BitVec 32) (o : Out) (cont : RmCalls α) : RmCalls α :=
  match ghRmMemReclaim handle 0 o with
  | .ret _ => cont
  | .call args _ => .call args fun _ => cont

/-- What the calls of `gh_rm_mem_share_lend_helper` do not decide: the allocations, what is in
the memory they give, and in the variables on the stack. An append is known by the index
of its first entry. -/
structure ShareEnv where
  alloc : Bool := true
  appendAlloc : Nat → Bool := fun _ => true
  heap : Nat → Nat → Byte
  out : Out
  appendOut : Nat → Out

/-- The loop of `gh_rm_mem_share_lend_helper`, from `idx` on. -/
def appendLoop (handle : BitVec 32) (sglEntries : List SglEntry) (env : ShareEnv) (idx : Nat) :
    RmCalls (Int × Option (BitVec 32)) :=
  if _h : idx < sglEntries.length then
    let next := min (idx + GH_RM_MEM_MAX_SGL_ENTRIES) sglEntries.length
    let appendFlags := if next = sglEntries.length then GH_RM_MEM_APPEND_END else 0
    ghRmMemAppend handle appendFlags ((sglEntries.drop idx).take (next - idx)) (env.heap idx)
      (env.appendAlloc idx) (env.appendOut idx) fun ret =>
        if ret ≠ 0 then reclaimThen handle (env.appendOut idx) (.ret (ret, none))
        else appendLoop handle sglEntries env next
  else .ret (0, some handle)
termination_by sglEntries.length - idx
decreasing_by simp only [GH_RM_MEM_MAX_SGL_ENTRIES]; omega

/-- The flags that the function of the message does not take. -/
def shareFlagsInvalid (fnId : BitVec 32) (flags : BitVec 8) : Bool :=
  (fnId == GH_RM_RPC_MSG_ID_CALL_MEM_SHARE && flags &&& ~~~GH_RM_MEM_SHARE_VALID_FLAGS != 0) ||
  (fnId == GH_RM_RPC_MSG_ID_CALL_MEM_LEND && flags &&& ~~~GH_RM_MEM_LEND_VALID_FLAGS != 0) ||
  (fnId == GH_RM_RPC_MSG_ID_CALL_MEM_DONATE && flags &&& ~~~GH_RM_MEM_DONATE_VALID_FLAGS != 0)

/-- The first request of `gh_rm_mem_share_lend_helper`: the numbers of entries that it passes
to the allocation are `u16`s. -/
def shareRequest (fnId : BitVec 32) (a : MemArgs) (alloc : Bool) : Except Int MemReq :=
  if a.invalid ∨ shareFlagsInvalid fnId a.flags then .error (-EINVAL)
  else
    let nSglEntries := (sglOf a.sglDesc).length
    let flags := if nSglEntries > GH_RM_MEM_MAX_SGL_ENTRIES then a.flags ||| GH_RM_MEM_LEND_APPEND else a.flags
    match ghRmAllocMemRequestBuf fnId ((aclOf a.aclDesc).length % 2 ^ 16) (min nSglEntries GH_RM_MEM_MAX_SGL_ENTRIES)
      (attrOf a.memAttrDesc).length alloc with
    | .error e => .error e
    | .ok reqBuf =>
      .ok { reqBuf
            hdr := [⟨0, [a.memType]⟩, ⟨2, [flags]⟩, ⟨4, u32Bytes a.label⟩]
            populate := ghRmPopulateMemRequest fnId a.aclDesc a.sglDesc 0 a.memAttrDesc }

/-- `gh_rm_mem_share_lend_helper`: what it returns, and the handle, if it is stored. -/
def ghRmMemShareLendHelper (fnId : BitVec 32) (a : MemArgs) (env : ShareEnv) :
    RmCalls (Int × Option (BitVec 32)) :=
  sendRequest fnId (shareRequest fnId a env.alloc) (fun e => .ret (e, none)) fun r =>
    match checkedReply env.out r with
    | .error e => .ret (e, none)
    | .ok (payload, respSize) =>
      if respSize ≠ 4 then .ret (-EINVAL, none)
      else appendLoop (respHandle payload) (sglOf a.sglDesc) env
        (min (sglOf a.sglDesc).length GH_RM_MEM_MAX_SGL_ENTRIES)

/-- `gh_rm_mem_share`. -/
def ghRmMemShare (a : MemArgs) (env : ShareEnv) : RmCalls (Int × Option (BitVec 32)) :=
  ghRmMemShareLendHelper GH_RM_RPC_MSG_ID_CALL_MEM_SHARE a env

/-- `gh_rm_mem_lend`. -/
def ghRmMemLend (a : MemArgs) (env : ShareEnv) : RmCalls (Int × Option (BitVec 32)) :=
  ghRmMemShareLendHelper GH_RM_RPC_MSG_ID_CALL_MEM_LEND a env

/-- The permissions of an ACL entry. -/
def GH_RM_ACL_X : BitVec 8 := 1
def GH_RM_ACL_W : BitVec 8 := 2
def GH_RM_ACL_R : BitVec 8 := 4

/-- What `gh_rm_mem_donate` rejects, before it calls the helper. -/
def donateInvalid (memType : BitVec 8) (d : AclDesc) : Bool :=
  match d.aclEntries with
  | [e] =>
    (memType == GH_RM_MEM_TYPE_NORMAL && e.perms != GH_RM_ACL_X ||| GH_RM_ACL_W ||| GH_RM_ACL_R) ||
    (memType == GH_RM_MEM_TYPE_IO && e.perms != GH_RM_ACL_W ||| GH_RM_ACL_R)
  | _ => true

/-- `gh_rm_mem_donate`, which follows `acl_desc` unchecked. -/
def ghRmMemDonate (a : MemArgs) (env : ShareEnv) : RmCalls (Int × Option (BitVec 32)) :=
  match a.aclDesc with
  | none => .fault
  | some d =>
    if donateInvalid a.memType d then .ret (-EINVAL, none)
    else ghRmMemShareLendHelper GH_RM_RPC_MSG_ID_CALL_MEM_DONATE a env

end GH.Impl.Rm
