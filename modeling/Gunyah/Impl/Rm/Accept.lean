import Gunyah.Impl.Rm.MemReq

/-!
# Accepting a memory parcel

`gh_rm_mem_accept`: where no SG list is given, the RM returns one, in as many
fragments as it likes, and each fragment is asked for by a call of its own. The
fragments are kept in a list (`gh_sgl_fragment_append`) and put together at the end
(`gh_sgl_fragment_combine`). The function is a machine: where it is (`AcceptPc`) says
which call it waits for.
-/

namespace GH.Impl.Rm

/-- The kinds of transfer of a parcel. -/
def GH_RM_TRANS_TYPE_DONATE : BitVec 8 := 0
def GH_RM_TRANS_TYPE_LEND : BitVec 8 := 1
def GH_RM_TRANS_TYPE_SHARE : BitVec 8 := 2

/-- The flags of a request to accept a parcel. -/
def GH_RM_MEM_ACCEPT_VALIDATE_SANITIZED : BitVec 8 := 1
def GH_RM_MEM_ACCEPT_VALIDATE_ACL_ATTRS : BitVec 8 := 2
def GH_RM_MEM_ACCEPT_VALIDATE_LABEL : BitVec 8 := 4
def GH_RM_MEM_ACCEPT_MAP_IPA_CONTIGUOUS : BitVec 8 := 16
def GH_RM_MEM_ACCEPT_DONE : BitVec 8 := 128
def GH_RM_MEM_ACCEPT_VALID_FLAGS : BitVec 8 := 151

/-- The flag of a reply that another one follows. -/
def GH_MEM_ACCEPT_RESP_INCOMPLETE : BitVec 8 := 1

/-! ## The request -/

/-- The arguments of `gh_rm_mem_accept`. -/
structure AcceptArgs where
  handle : BitVec 32
  memType : BitVec 8
  transType : BitVec 8
  flags : BitVec 8
  label : BitVec 32
  aclDesc : Option AclDesc
  sglDesc : Option SglDesc
  memAttrDesc : Option MemAttrDesc
  mapVmid : BitVec 16

/-- `flags` has the flag. -/
def AcceptArgs.has (a : AcceptArgs) (flag : BitVec 8) : Bool := a.flags &&& flag != 0

/-- The arguments that `gh_rm_mem_accept_prepare_request` rejects. -/
def AcceptArgs.invalid (a : AcceptArgs) : Bool :=
  (a.memType != GH_RM_MEM_TYPE_NORMAL && a.memType != GH_RM_MEM_TYPE_IO) ||
  (a.transType != GH_RM_TRANS_TYPE_DONATE && a.transType != GH_RM_TRANS_TYPE_LEND &&
    a.transType != GH_RM_TRANS_TYPE_SHARE) ||
  a.flags &&& ~~~GH_RM_MEM_ACCEPT_VALID_FLAGS != 0 ||
  decide ((sglOf a.sglDesc).length > GH_RM_MEM_MAX_SGL_ENTRIES) ||
  (a.has GH_RM_MEM_ACCEPT_VALIDATE_ACL_ATTRS && (aclOf a.aclDesc).length == 0 && (attrOf a.memAttrDesc).length == 0)

/-- `gh_rm_mem_accept_prepare_request`: there is room for the ACL and the attributes only
where they are to be validated. -/
def ghRmMemAcceptPrepareRequest (a : AcceptArgs) (alloc : Bool) : Except Int MemReq :=
  if a.invalid then .error (-EINVAL)
  else
    let validate := a.has GH_RM_MEM_ACCEPT_VALIDATE_ACL_ATTRS
    match ghRmAllocMemRequestBuf GH_RM_RPC_MSG_ID_CALL_MEM_ACCEPT
      (if validate then (aclOf a.aclDesc).length else 0) (sglOf a.sglDesc).length
      (if validate then (attrOf a.memAttrDesc).length else 0) alloc with
    | .error e => .error e
    | .ok reqBuf =>
      .ok { reqBuf
            hdr := [⟨0, u32Bytes a.handle⟩, ⟨4, [a.memType]⟩, ⟨5, [a.transType]⟩, ⟨6, [a.flags]⟩] ++
              if a.has GH_RM_MEM_ACCEPT_VALIDATE_LABEL then [⟨8, u32Bytes a.label⟩] else []
            populate := ghRmPopulateMemRequest GH_RM_RPC_MSG_ID_CALL_MEM_ACCEPT a.aclDesc a.sglDesc a.mapVmid
              a.memAttrDesc }

/-- `flags` of the header of a request, where it has one. -/
def setFlags (flags : BitVec 8) (reqPayload : List Byte) : List Byte := reqPayload.set 6 flags

/-! ## Replies -/

/-- The fields of a reply, which are 0 behind its end. -/
def getU16 (bs : List Byte) (off : Nat) : BitVec 16 := bs.getD (off + 1) 0 ++ bs.getD off 0
def getU32 (bs : List Byte) (off : Nat) : BitVec 32 := getU16 bs (off + 2) ++ getU16 bs off
def getU64 (bs : List Byte) (off : Nat) : BitVec 64 := getU32 bs (off + 4) ++ getU32 bs off

/-- `struct gh_mem_accept_resp_payload` and the entries behind it. -/
def respNSglEntries (resp : List Byte) : Nat := (getU16 resp 0).toNat
/-- `flags` and `sgl_desc` of the reply. -/
def respFlags (resp : List Byte) : BitVec 8 := resp.getD 2 0
def respSglEntries (resp : List Byte) : List SglEntry :=
  (List.range (respNSglEntries resp)).map fun i => ⟨getU64 resp (4 + 16 * i), getU64 resp (4 + 16 * i + 8)⟩

/-- `gh_rm_mem_accept_check_resp` finds the size right. -/
def ghRmMemAcceptCheckResp (resp : List Byte) (size : Nat) (hasSgl : Bool) : Bool :=
  let expectedSize := if hasSgl then 0 else if size < 4 then 4 else 4 + 16 * respNSglEntries resp
  size == expectedSize

/-! ## Fragments -/

/-- `struct gh_sgl_fragment`: the fragments in the order of the list, and the number of
their entries. -/
structure SglFragment where
  list : List (List SglEntry) := []
  nSglEntries : BitVec 16 := 0
  deriving DecidableEq

/-- `gh_sgl_fragment_append`: `list_add` adds at the head of the list. -/
def ghSglFragmentAppend (gather : SglFragment) (resp : List Byte) (alloc : Bool) : Except Int SglFragment :=
  if respNSglEntries resp > 65535 - gather.nSglEntries.toNat then .error (-EINVAL)
  else if alloc = false then .error (-ENOMEM)
  else
    .ok { list := respSglEntries resp :: gather.list
          nSglEntries := gather.nSglEntries + BitVec.ofNat 16 (respNSglEntries resp) }

/-- `gh_sgl_fragment_combine`: `n_sgl_entries` and the entries of the descriptor. -/
def ghSglFragmentCombine (gather : SglFragment) (alloc : Bool) : Except Int (BitVec 16 × List SglEntry) :=
  if alloc then .ok (gather.nSglEntries, gather.list.flatten) else .error (-ENOMEM)

/-! ## `gh_rm_mem_accept` -/

/-- What the calls do not decide: the allocations (that of the entry of a fragment by how
many there are before it), and what is in the variables on the stack. -/
structure AcceptEnv where
  alloc : Bool := true
  gather : Bool := true
  entry : Nat → Bool := fun _ => true
  combine : Bool := true
  out : Out

/-- Where `gh_rm_mem_accept` is. -/
inductive AcceptPc where
  /-- It waits for a call in the loop. -/
  | accept
  /-- It waits for the call with `GH_RM_MEM_ACCEPT_DONE` behind the loop. -/
  | done
  /-- It waits for `gh_rm_mem_release`, to return the error. -/
  | release (ret : Int)
  /-- It has returned the list it was given, or the number of entries and the entries of one
  that it has made, or an error. -/
  | ret (res : Except Int (Option (BitVec 16 × List SglEntry)))
  /-- It has written behind the end of the request. -/
  | fault
  deriving DecidableEq

/-- The variables of `gh_rm_mem_accept`. -/
structure Accept where
  pc : AcceptPc
  reqPayload : List Byte := []
  gather : SglFragment := {}
  acceptInProgress : Bool := false

/-- `multi_call`. -/
def AcceptArgs.multiCall (a : AcceptArgs) : Bool :=
  !(a.has GH_RM_MEM_ACCEPT_MAP_IPA_CONTIGUOUS || a.sglDesc.isSome)

namespace Accept

/-- The label `err_rm_call`. -/
def errRmCall (s : Accept) (ret : Int) : Accept :=
  { s with pc := if s.acceptInProgress then .release ret else .ret (.error ret) }

/-- The function from the start to its first call. -/
def start (a : AcceptArgs) (env : AcceptEnv) : Accept :=
  match ghRmMemAcceptPrepareRequest a env.alloc with
  | .error e => { pc := .ret (.error e) }
  | .ok req =>
    match req.bytes with
    | none => { pc := .fault }
    | some reqPayload =>
      if env.gather = false then { pc := .ret (.error (-ENOMEM)) }
      else
        { pc := .accept
          reqPayload := if a.multiCall then setFlags (a.flags &&& ~~~GH_RM_MEM_ACCEPT_DONE) reqPayload else reqPayload }

/-- The end of the function, where no call has failed. -/
def finish (a : AcceptArgs) (env : AcceptEnv) (s : Accept) : Accept :=
  if a.sglDesc.isSome then { s with pc := .ret (.ok none) }
  else
    match ghSglFragmentCombine s.gather env.combine with
    | .error e => s.errRmCall e
    | .ok desc => { s with pc := .ret (.ok (some desc)) }

/-- Behind the loop. -/
def afterLoop (a : AcceptArgs) (env : AcceptEnv) (s : Accept) : Accept :=
  if a.multiCall ∧ a.has GH_RM_MEM_ACCEPT_DONE then
    { s with pc := .done, reqPayload := setFlags (s.reqPayload.getD 6 0 ||| GH_RM_MEM_ACCEPT_DONE) s.reqPayload }
  else s.finish a env

/-- A turn of the loop, from the result of its call on. -/
def turn (a : AcceptArgs) (env : AcceptEnv) (s : Accept) (r : CallRet) : Accept :=
  match checkedReply env.out r with
  | .error e => s.errRmCall e
  | .ok (resp, size) =>
    let s := { s with acceptInProgress := true }
    if ghRmMemAcceptCheckResp resp size a.sglDesc.isSome = false then s.errRmCall (-EINVAL)
    else if size = 0 then s.afterLoop a env
    else
      match ghSglFragmentAppend s.gather resp (env.entry s.gather.list.length) with
      | .error _ => s.errRmCall (-ENOMEM)
      | .ok gather =>
        let s := { s with gather := gather }
        if respFlags resp &&& GH_MEM_ACCEPT_RESP_INCOMPLETE ≠ 0 then s else s.afterLoop a env

/-- The function from the result of a call on; `none` where it waits for none. -/
def step (a : AcceptArgs) (env : AcceptEnv) (s : Accept) (r : CallRet) : Option Accept :=
  match s.pc with
  | .accept => some (s.turn a env r)
  | .done =>
    match checkedReply env.out r with
    | .error e => some (s.errRmCall e)
    | .ok _ => some (s.finish a env)
  | .release ret => some { s with pc := .ret (.error ret) }
  | .ret _ | .fault => none

/-- The call that it waits for. -/
def request (a : AcceptArgs) (env : AcceptEnv) (s : Accept) : Option CallArgs :=
  match s.pc with
  | .accept | .done => some ⟨GH_RM_RPC_MSG_ID_CALL_MEM_ACCEPT, some s.reqPayload, true⟩
  | .release _ =>
    match ghRmMemRelease a.handle 0 env.out with
    | .ret _ => none
    | .call args _ => some args
  | .ret _ | .fault => none

end Accept

end GH.Impl.Rm
