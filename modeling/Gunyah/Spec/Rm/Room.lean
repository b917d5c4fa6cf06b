import Gunyah.Impl.Rm.Accept

/-!
# Room for the lists of a request

The functions that fill in a request with `gh_rm_populate_mem_request`, and
whether they have asked `gh_rm_alloc_mem_request_buf` for enough room.
-/

namespace GH.Spec.Rm

open GH.Impl GH.Impl.Rm

/-- A call of one of the functions. -/
inductive MemCall where
  | accept (a : AcceptArgs)
  | share (a : MemArgs)
  | lend (a : MemArgs)
  | donate (a : MemArgs)
  | lookupSgl (a : MemArgs)

/-- The request that the function fills in, or the error that it returns before that. Without
an ACL, `gh_rm_mem_donate` does not return at all. -/
def MemCall.request : MemCall → Bool → Except Int MemReq
  | .accept a, alloc => ghRmMemAcceptPrepareRequest a alloc
  | .share a, alloc => shareRequest GH_RM_RPC_MSG_ID_CALL_MEM_SHARE a alloc
  | .lend a, alloc => shareRequest GH_RM_RPC_MSG_ID_CALL_MEM_LEND a alloc
  | .donate a, alloc =>
    if a.aclDesc.all (donateInvalid a.memType) then .error (-EINVAL)
    else shareRequest GH_RM_RPC_MSG_ID_CALL_MEM_DONATE a alloc
  | .lookupSgl a, alloc => lookupRequest a alloc

/-- `fn_id` of the helper of `gh_rm_mem_share`, `gh_rm_mem_lend` and `gh_rm_mem_donate`. -/
def ShareId (fnId : BitVec 32) : Prop :=
  fnId = GH_RM_RPC_MSG_ID_CALL_MEM_SHARE ∨ fnId = GH_RM_RPC_MSG_ID_CALL_MEM_LEND ∨
    fnId = GH_RM_RPC_MSG_ID_CALL_MEM_DONATE

/-- Every byte that `gh_rm_populate_mem_request` writes is inside the request. -/
def Fits (r : MemReq) : Prop := ∀ w ∈ r.populate, ∀ i, w.Covers i → i < r.reqBuf.length

/-- Where the ACL and the attributes are accounted for: `gh_rm_mem_accept` does so only to
have them validated, and the number of ACL entries is a `u16` where memory is shared. -/
def MemCall.Accounted : MemCall → Prop
  | .accept a => a.has GH_RM_MEM_ACCEPT_VALIDATE_ACL_ATTRS ∨ (aclOf a.aclDesc = [] ∧ attrOf a.memAttrDesc = [])
  | .share a | .lend a | .donate a => (aclOf a.aclDesc).length < 2 ^ 16
  | .lookupSgl _ => True

end GH.Spec.Rm
