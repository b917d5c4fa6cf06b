import Mathlib.Tactic.Common
import Gunyah.Proof.Rm.MemReq
import Gunyah.Spec.Rm.Room

/-!
# Room for the lists of a request

The last list that `gh_rm_populate_mem_request` writes ends where the room for
all three lists ends, so a request that does not account for an entry is
written behind its end (`fits_iff`).
-/

namespace GH.Proof.Rm

open GH.Impl GH.Impl.Rm GH.Spec.Rm

theorem kzalloc_some {ok : Bool} {n : Nat} {buf : List Byte} (h : kzalloc ok n = some buf) :
    buf = zeros n ∧ n ≤ KMALLOC_MAX_SIZE := by
  simp only [kzalloc, Option.ite_none_right_eq_some, Option.some.injEq] at h
  exact ⟨h.2.symm, h.1.2⟩

/-- What is allocated for a request: it is cleared. -/
theorem allocMemRequestBuf_ok {fnId : BitVec 32} {acl sgl attr : Nat} {alloc : Bool} {buf : List Byte}
    (h : ghRmAllocMemRequestBuf fnId acl sgl attr alloc = .ok buf) :
    ∃ n, reqHdrSize fnId = some n ∧ buf = zeros (n + (aclSize acl + sglSize sgl + memAttrSize attr)) := by
  unfold ghRmAllocMemRequestBuf at h
  split at h
  · cases h
  · rename_i n hn
    split at h
    · cases h
    · rename_i buf' hbuf
      cases h
      exact ⟨n, hn, (kzalloc_some hbuf).1⟩

theorem allocMemRequestBuf_some {fnId : BitVec 32} {n acl sgl attr : Nat} (hfn : reqHdrSize fnId = some n)
    (h : n + (aclSize acl + sglSize sgl + memAttrSize attr) ≤ KMALLOC_MAX_SIZE) :
    ghRmAllocMemRequestBuf fnId acl sgl attr true =
      .ok (zeros (n + (aclSize acl + sglSize sgl + memAttrSize attr))) := by
  unfold ghRmAllocMemRequestBuf
  simp only [hfn, kzalloc, h, and_self, if_true]

theorem lookupRequest_some {a : MemArgs} (hvalid : a.invalid = false)
    (h : 8 + (aclSize (aclOf a.aclDesc).length + sglSize (sglOf a.sglDesc).length +
      memAttrSize (attrOf a.memAttrDesc).length) ≤ KMALLOC_MAX_SIZE) : ∃ req, lookupRequest a true = .ok req := by
  unfold lookupRequest
  rw [hvalid, allocMemRequestBuf_some (n := 8) (by decide) h]
  exact ⟨_, rfl⟩

theorem lookupRequest_ok {a : MemArgs} {alloc : Bool} {req : MemReq} (h : lookupRequest a alloc = .ok req) :
    a.invalid = false ∧
    req = { reqBuf := zeros (8 + (aclSize (aclOf a.aclDesc).length + sglSize (sglOf a.sglDesc).length +
              memAttrSize (attrOf a.memAttrDesc).length))
            hdr := [⟨0, [a.memType]⟩, ⟨4, u32Bytes a.label⟩]
            populate := ghRmPopulateMemRequest GH_RM_RPC_MSG_ID_CALL_MEM_QCOM_LOOKUP_SGL a.aclDesc a.sglDesc 0
              a.memAttrDesc } := by
  unfold lookupRequest at h
  split at h
  · cases h
  · rename_i hvalid
    split at h
    · cases h
    · rename_i buf hbuf
      obtain ⟨n, hn, rfl⟩ := allocMemRequestBuf_ok hbuf
      cases hn
      cases h
      exact ⟨by simpa using hvalid, rfl⟩

theorem hdrSize {fnId : BitVec 32} (h : ShareId fnId) : reqHdrSize fnId = some 8 := by
  rcases h with rfl | rfl | rfl <;> rfl

/-- The flags of the first request: `APPEND` is set where others follow. -/
def shareFlags (a : MemArgs) : BitVec 8 :=
  if (sglOf a.sglDesc).length > GH_RM_MEM_MAX_SGL_ENTRIES then a.flags ||| GH_RM_MEM_LEND_APPEND else a.flags

theorem shareRequest_ok {fnId : BitVec 32} (hfn : ShareId fnId) {a : MemArgs} {alloc : Bool} {req : MemReq}
    (h : shareRequest fnId a alloc = .ok req) :
    (a.invalid = false ∧ shareFlagsInvalid fnId a.flags = false) ∧
    req = { reqBuf := zeros (8 + (aclSize ((aclOf a.aclDesc).length % 2 ^ 16) +
              sglSize (min (sglOf a.sglDesc).length GH_RM_MEM_MAX_SGL_ENTRIES) +
              memAttrSize (attrOf a.memAttrDesc).length))
            hdr := [⟨0, [a.memType]⟩, ⟨2, [shareFlags a]⟩, ⟨4, u32Bytes a.label⟩]
            populate := ghRmPopulateMemRequest fnId a.aclDesc a.sglDesc 0 a.memAttrDesc } := by
  unfold shareRequest at h
  split at h
  · cases h
  · rename_i hvalid
    simp only at h
    split at h
    · cases h
    · rename_i buf hbuf
      obtain ⟨n, hn, rfl⟩ := allocMemRequestBuf_ok hbuf
      rw [hdrSize hfn] at hn
      cases hn
      cases h
      exact ⟨by simpa using hvalid, rfl⟩

/-- `n` entries that are accounted for only if they are to be validated. -/
def validated (a : AcceptArgs) (n : Nat) : Nat := if a.has GH_RM_MEM_ACCEPT_VALIDATE_ACL_ATTRS then n else 0

theorem prepareRequest_ok {a : AcceptArgs} {alloc : Bool} {req : MemReq}
    (h : ghRmMemAcceptPrepareRequest a alloc = .ok req) :
    a.invalid = false ∧
    req = { reqBuf := zeros (12 + (aclSize (validated a (aclOf a.aclDesc).length) +
              sglSize (sglOf a.sglDesc).length + memAttrSize (validated a (attrOf a.memAttrDesc).length)))
            hdr := [⟨0, u32Bytes a.handle⟩, ⟨4, [a.memType]⟩, ⟨5, [a.transType]⟩, ⟨6, [a.flags]⟩] ++
              if a.has GH_RM_MEM_ACCEPT_VALIDATE_LABEL then [⟨8, u32Bytes a.label⟩] else []
            populate := ghRmPopulateMemRequest GH_RM_RPC_MSG_ID_CALL_MEM_ACCEPT a.aclDesc a.sglDesc a.mapVmid
              a.memAttrDesc } := by
  unfold ghRmMemAcceptPrepareRequest at h
  split at h
  · cases h
  · rename_i hvalid
    simp only at h
    split at h
    · cases h
    · rename_i buf hbuf
      obtain ⟨n, hn, rfl⟩ := allocMemRequestBuf_ok hbuf
      cases hn
      cases h
      exact ⟨by simpa using hvalid, rfl⟩

/-! ## Where the lists end -/

theorem acl_lt (d : Option AclDesc) : (aclOf d).length < 2 ^ 32 := by
  cases d with
  | none => decide
  | some d => exact d.length_lt

theorem sgl_lt (d : Option SglDesc) : (sglOf d).length < 2 ^ 16 := by
  cases d with
  | none => decide
  | some d => exact d.length_lt

theorem attr_lt (d : Option MemAttrDesc) : (attrOf d).length < 2 ^ 16 := by
  cases d with
  | none => decide
  | some d => exact d.length_lt

variable {fnId : BitVec 32} {n size : Nat} {acl : Option AclDesc} {sgl : Option SglDesc} {param : BitVec 16}
  {attr : Option MemAttrDesc}

/-- Where the last list starts. -/
def attrOffset (n : Nat) (acl : Option AclDesc) (sgl : Option SglDesc) : Nat :=
  n + aclSize (aclOf acl).length + sglSize (min GH_RM_MEM_MAX_SGL_ENTRIES (sglOf sgl).length)

/-- The lists are written in a buffer that has room for all their entries. -/
theorem populate_inside (hfn : reqHdrSize fnId = some n)
    (hsize : attrOffset n acl sgl + memAttrSize (attrOf attr).length ≤ size) :
    ∀ w ∈ ghRmPopulateMemRequest fnId acl sgl param attr, w.Inside size := by
  have hfn' : reqHdrSize fnId = some (zeros n).length := by rw [hfn, List.length_replicate]
  intro w hw
  refine (stores_some_iff.mp ⟨_, populate_stores hfn' acl sgl param attr []⟩ w hw).mono ?_
  simp only [attrOffset] at hsize
  simp only [List.length_append, List.length_replicate, List.length_nil]
  omega

/-- The number of attributes is written in any case, and the last of them, if there are any. -/
theorem covers_attr (acl : Option AclDesc) (sgl : Option SglDesc) (param : BitVec 16) {attr : Option MemAttrDesc}
    (hfn : reqHdrSize fnId = some n) {i : Nat}
    (hi : i < 2 ∨ 4 ≤ i ∧ i < memAttrSize (attrOf attr).length) :
    ∃ w ∈ ghRmPopulateMemRequest fnId acl sgl param attr, w.Covers (attrOffset n acl sgl + i) := by
  have hlen : ((attrOf attr).flatMap (·.bytes)).length = 4 * (attrOf attr).length :=
    length_entries MemAttrEntry.bytes (fun _ => rfl) _
  obtain ⟨w, hw, hc⟩ : ∃ w ∈ ghRmPopulateMemAttrDesc attr, w.Covers i := by
    rcases hi with hi | ⟨hi, hi'⟩
    · exact ⟨⟨0, u16Bytes (BitVec.ofNat 16 (attrOf attr).length)⟩, List.mem_cons_self, Nat.zero_le _, by
        simpa [u16Bytes] using hi⟩
    · simp only [memAttrSize] at hi'
      refine ⟨⟨4, (attrOf attr).flatMap (·.bytes)⟩, ?_, hi, by simpa only [hlen] using hi'⟩
      rw [ghRmPopulateMemAttrDesc, if_pos (by omega)]
      simp
  refine ⟨w.shift (attrOffset n acl sgl), ?_, ?_⟩
  · simp only [ghRmPopulateMemRequest, hfn, List.mem_append]
    exact .inr (List.mem_map_of_mem hw)
  · simp only [Write.Covers, Write.shift] at hc ⊢
    omega

/-- Lists that are all inside of a buffer end there. -/
theorem end_le (hfn : reqHdrSize fnId = some n)
    (h : ∀ w ∈ ghRmPopulateMemRequest fnId acl sgl param attr, ∀ i, w.Covers i → i < size) :
    attrOffset n acl sgl + 2 ≤ size ∧
      ((attrOf attr).length ≠ 0 → attrOffset n acl sgl + memAttrSize (attrOf attr).length ≤ size) := by
  constructor
  · obtain ⟨w, hw, hc⟩ := covers_attr acl sgl param hfn
      (show 1 < 2 ∨ 4 ≤ 1 ∧ 1 < memAttrSize (attrOf attr).length from .inl Nat.one_lt_two)
    have := h w hw _ hc
    omega
  · intro hne
    simp only [memAttrSize]
    obtain ⟨w, hw, hc⟩ := covers_attr acl sgl param hfn
      (show _ ∨ 4 ≤ 3 + 4 * (attrOf attr).length ∧ 3 + 4 * (attrOf attr).length < memAttrSize (attrOf attr).length from
        .inr (by simp only [memAttrSize]; omega))
    have := h w hw _ hc
    omega

/-! ## Requests -/

theorem share_fits_iff (hfn : ShareId fnId) {a : MemArgs} {alloc : Bool} {req : MemReq}
    (h : shareRequest fnId a alloc = .ok req) : Fits req ↔ (aclOf a.aclDesc).length < 2 ^ 16 := by
  obtain ⟨-, rfl⟩ := shareRequest_ok hfn h
  have hattr : (attrOf a.memAttrDesc).length < 2 ^ 16 := attr_lt a.memAttrDesc
  simp only [Fits, List.length_replicate]
  constructor
  · intro hfits
    have hend := (end_le (hdrSize hfn) hfits).1
    simp only [attrOffset, aclSize, sglSize, memAttrSize, min_comm] at hend
    omega
  · intro hacl w hw
    refine inside_iff.mp (populate_inside (hdrSize hfn) ?_ w hw)
    simp only [attrOffset, Nat.mod_eq_of_lt hacl, min_comm]
    omega

theorem accept_fits_iff {a : AcceptArgs} {alloc : Bool} {req : MemReq}
    (h : ghRmMemAcceptPrepareRequest a alloc = .ok req) :
    Fits req ↔ a.has GH_RM_MEM_ACCEPT_VALIDATE_ACL_ATTRS ∨ (aclOf a.aclDesc = [] ∧ attrOf a.memAttrDesc = []) := by
  obtain ⟨hvalid, rfl⟩ := prepareRequest_ok h
  have hsgl : min GH_RM_MEM_MAX_SGL_ENTRIES (sglOf a.sglDesc).length = (sglOf a.sglDesc).length := by
    simp only [AcceptArgs.invalid, Bool.or_eq_false_iff, decide_eq_false_iff_not, not_lt] at hvalid
    exact min_eq_right hvalid.1.2
  have hfn : reqHdrSize GH_RM_RPC_MSG_ID_CALL_MEM_ACCEPT = some 12 := rfl
  simp only [Fits, List.length_replicate]
  by_cases hv : a.has GH_RM_MEM_ACCEPT_VALIDATE_ACL_ATTRS
  · simp only [validated, hv, if_true, true_or, iff_true]
    intro w hw
    refine inside_iff.mp (populate_inside hfn ?_ w hw)
    simp only [attrOffset, hsgl]
    omega
  · simp only [validated, hv, Bool.false_eq_true, if_false, false_or]
    constructor
    · intro hfits
      obtain ⟨hend, hattr⟩ := end_le hfn hfits
      simp only [attrOffset, hsgl, aclSize, sglSize, memAttrSize] at hend hattr
      exact ⟨List.length_eq_zero_iff.mp (by omega), List.length_eq_zero_iff.mp (by omega)⟩
    · rintro ⟨hacl, hattr⟩ w hw
      refine inside_iff.mp (populate_inside hfn ?_ w hw)
      simp only [attrOffset, hsgl, hacl, hattr, List.length_nil]
      omega

theorem lookup_fits {a : MemArgs} {alloc : Bool} {req : MemReq} (h : lookupRequest a alloc = .ok req) : Fits req := by
  obtain ⟨-, rfl⟩ := lookupRequest_ok h
  simp only [Fits, List.length_replicate]
  intro w hw
  refine inside_iff.mp (populate_inside rfl ?_ w hw)
  simp only [attrOffset, sglSize]
  omega

/-- The lists of a request are written inside of it exactly if the ACL and the attributes are
accounted for. -/
theorem fits_iff_accounted (c : MemCall) (alloc : Bool) (req : MemReq) (h : c.request alloc = .ok req) :
    Fits req ↔ c.Accounted := by
  cases c with
  | accept a => exact accept_fits_iff h
  | share a => exact share_fits_iff (.inl rfl) h
  | lend a => exact share_fits_iff (.inr (.inl rfl)) h
  | donate a =>
    simp only [MemCall.request] at h
    split at h
    · cases h
    · exact share_fits_iff (.inr (.inr rfl)) h
  | lookupSgl a => exact iff_of_true (lookup_fits h) trivial

/-- An acceptance with an ACL of one entry. -/
def acceptAcl (flags : BitVec 8) : AcceptArgs where
  handle := 5
  memType := GH_RM_MEM_TYPE_NORMAL
  transType := GH_RM_TRANS_TYPE_SHARE
  flags := flags
  label := 0
  aclDesc := some ⟨[⟨1, 7⟩], by decide⟩
  sglDesc := none
  memAttrDesc := none
  mapVmid := 0

theorem fits_iff_accounted_validate :
    ∃ req, (MemCall.accept (acceptAcl GH_RM_MEM_ACCEPT_VALIDATE_ACL_ATTRS)).request true = .ok req ∧
      (Fits req ↔ (MemCall.accept (acceptAcl GH_RM_MEM_ACCEPT_VALIDATE_ACL_ATTRS)).Accounted) :=
  ⟨_, rfl, fits_iff_accounted _ true _ rfl⟩

/-- An ACL that is not to be validated is written all the same. -/
theorem unvalidated_acl_outside : ¬ ∀ c req, MemCall.request c true = .ok req → Fits req := by
  intro h
  have hreq : ∃ req, ghRmMemAcceptPrepareRequest (acceptAcl 0) true = .ok req := ⟨_, rfl⟩
  obtain ⟨req, hreq⟩ := hreq
  have hfits := (accept_fits_iff hreq).mp (h (.accept (acceptAcl 0)) req hreq)
  exact absurd hfits (by decide)

end GH.Proof.Rm
