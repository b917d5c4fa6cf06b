import Gunyah.Proof.Rm.Room
import Gunyah.Proof.Rm.Wire

/-!
# Requests that are written behind their end

A function that describes memory sends as many bytes as it has asked memory for, whatever it has
written (`sent_cases`). Where the ACL and the attributes are not accounted for, these are fewer than a request
with what is asked in it has (`askSize`), so this is not what the other end reads (`read_unaccounted`).
-/

namespace GH.Proof.Rm

open GH.Impl GH.Impl.Rm GH.Spec.Rm

/-! ## How long a request is -/

theorem consumes_u8 : Consumes 0 u8 fun _ => 1 := .bind (.take 1) fun _ => .pure rfl

theorem consumes_u16 : Consumes 0 u16 fun _ => 2 := .bind (.take 2) fun _ => .pure rfl

theorem consumes_u32 : Consumes 0 u32 fun _ => 4 := .bind (.take 4) fun _ => .pure rfl

theorem consumes_u64 : Consumes 0 u64 fun _ => 8 := .bind consumes_u32 fun _ => .bind consumes_u32 fun _ => .pure rfl

theorem consumes_aclEntry : Consumes 0 aclEntry fun _ => 4 :=
  .bind consumes_u16 fun _ => .bind consumes_u8 fun _ => .bind (.skip 1) fun _ => .pure rfl

theorem consumes_sglEntry : Consumes 0 sglEntry fun _ => 16 :=
  .bind consumes_u64 fun _ => .bind consumes_u64 fun _ => .pure rfl

theorem consumes_memAttrEntry : Consumes 0 memAttrEntry fun _ => 4 :=
  .bind consumes_u16 fun _ => .bind consumes_u16 fun _ => .pure rfl

theorem consumes_aclList : Consumes 0 aclList fun es => aclSize es.length :=
  .bind consumes_u32 fun n => (consumes_aclEntry.count n.toNat).behind fun _ => rfl

theorem consumes_sglList : Consumes 0 sglList fun es => sglSize es.length :=
  .bind consumes_u16 fun n => .bind (.skip 2) fun _ => (consumes_sglEntry.count n.toNat).behind fun _ => rfl

theorem consumes_memAttrList : Consumes 0 memAttrList fun es => memAttrSize es.length :=
  .bind consumes_u16 fun n => .bind (.skip 2) fun _ => (consumes_memAttrEntry.count n.toNat).behind fun _ => rfl

/-- The length of a request that describes memory. -/
def askSize : Ask → Nat
  | .memory _ p => 8 + aclSize p.acl.length + sglSize p.sgl.length + memAttrSize p.attr.length
  | .memAccept m => 12 + aclSize m.acl.length + sglSize m.sgl.length + memAttrSize m.attr.length
  | _ => 0

theorem consumes_memParcel :
    Consumes 0 memParcel fun p => 8 + aclSize p.acl.length + sglSize p.sgl.length + memAttrSize p.attr.length :=
  .bind consumes_u8 fun _ => .bind (.skip 1) fun _ => .bind consumes_u8 fun _ => .bind (.skip 1) fun _ =>
    .bind consumes_u32 fun _ => .bind consumes_aclList fun _ => .bind consumes_sglList fun _ =>
      .bind consumes_memAttrList fun _ => .pure rfl

theorem consumes_memory (op : MemOp) : Consumes 0 (Kind.memory op).layout askSize :=
  .bind consumes_memParcel fun _ => .pure (Nat.zero_add _)

theorem consumes_memAccept : Consumes 0 Kind.memAccept.layout askSize := by
  show Consumes 0 memAccept askSize
  unfold memAccept
  refine .bind consumes_u32 fun _ => .bind consumes_u8 fun _ => .bind consumes_u8 fun _ => .bind consumes_u8 fun _ =>
    .bind (.skip 1) fun _ => .bind consumes_u32 fun _ => .bind consumes_aclList fun acl => .bind consumes_u16 fun n =>
      .bind consumes_u16 fun _ => .bind (consumes_sglEntry.count n.toNat) fun sgl =>
        .bind consumes_memAttrList fun attr => .pure ?_
  simp only [askSize, sglSize]
  omega

theorem layout_of_read {k : Kind} {payload : List Byte} {ask : Ask} (h : readAsk k.messageId payload = some ask) :
    k.layout payload = some (ask, []) := by
  simp only [readAsk, kindOf_messageId, Option.bind_eq_bind, Option.bind_some] at h
  split at h
  · cases h
    assumption
  · cases h

theorem length_of_read {k : Kind} {payload : List Byte} {ask : Ask} (hk : Consumes 0 k.layout askSize)
    (h : readAsk k.messageId payload = some ask) : payload.length = askSize ask := by
  have hlen := hk payload ask [] (layout_of_read h)
  rwa [Nat.zero_add, List.length_nil, Nat.add_zero] at hlen

/-! ## What is allocated -/

section

variable {alloc : Bool} {req : MemReq} {payload : List Byte}

theorem allocMemRequestBuf_le {fnId : BitVec 32} {acl sgl attr : Nat} {buf : List Byte}
    (h : ghRmAllocMemRequestBuf fnId acl sgl attr alloc = .ok buf) : buf.length ≤ KMALLOC_MAX_SIZE := by
  unfold ghRmAllocMemRequestBuf at h
  split at h
  · cases h
  · split at h
    · cases h
    · rename_i buf' hbuf
      cases h
      obtain ⟨rfl, hmax⟩ := kzalloc_some hbuf
      rwa [List.length_replicate]

theorem lookupRequest_le {a : MemArgs} (h : lookupRequest a alloc = .ok req) :
    req.reqBuf.length ≤ KMALLOC_MAX_SIZE := by
  unfold lookupRequest at h
  split at h
  · cases h
  · split at h
    · cases h
    · rename_i buf hbuf
      cases h
      exact allocMemRequestBuf_le hbuf

theorem shareRequest_le {fnId : BitVec 32} {a : MemArgs} (h : shareRequest fnId a alloc = .ok req) :
    req.reqBuf.length ≤ KMALLOC_MAX_SIZE := by
  unfold shareRequest at h
  split at h
  · cases h
  · simp only at h
    split at h
    · cases h
    · rename_i buf hbuf
      cases h
      exact allocMemRequestBuf_le hbuf

theorem acceptRequest_le {a : AcceptArgs} (h : ghRmMemAcceptPrepareRequest a alloc = .ok req) :
    req.reqBuf.length ≤ KMALLOC_MAX_SIZE := by
  unfold ghRmMemAcceptPrepareRequest at h
  split at h
  · cases h
  · simp only at h
    split at h
    · cases h
    · rename_i buf hbuf
      cases h
      exact allocMemRequestBuf_le hbuf

/-- What is written is inside the request. -/
theorem fits_of_bytes (hbytes : req.bytes = some payload) : Fits req := fun w hw =>
  inside_iff.mp (stores_some_iff.mp ⟨_, hbytes⟩ w (List.mem_append_right _ hw))

/-- The helper of `gh_rm_mem_donate` is the one of the others. -/
theorem donate_request {a : MemArgs} (h : (MemCall.donate a).request alloc = .ok req) :
    (∃ d, a.aclDesc = some d ∧ donateInvalid a.memType d = false) ∧
      shareRequest GH_RM_RPC_MSG_ID_CALL_MEM_DONATE a alloc = .ok req := by
  simp only [MemCall.request] at h
  split at h
  · cases h
  · rename_i hvalid
    refine ⟨?_, h⟩
    cases hd : a.aclDesc with
    | none => simp [hd] at hvalid
    | some d => exact ⟨d, rfl, by simpa [hd] using hvalid⟩

theorem request_le {m : MemCall} (h : m.request alloc = .ok req) : req.reqBuf.length ≤ KMALLOC_MAX_SIZE := by
  cases m with
  | accept a => exact acceptRequest_le h
  | share a | lend a => exact shareRequest_le h
  | donate a => exact shareRequest_le (donate_request h).2
  | lookupSgl a => exact lookupRequest_le h

/-! ## What is sent -/

/-- The header of a request is always inside of it. -/
theorem accept_hdr_inside {a : AcceptArgs} (h : ghRmMemAcceptPrepareRequest a alloc = .ok req) :
    ∀ w ∈ req.hdr, w.Inside req.reqBuf.length := by
  obtain ⟨-, rfl⟩ := prepareRequest_ok h
  have hall : ∀ w ∈ ([⟨0, u32Bytes a.handle⟩, ⟨4, [a.memType]⟩, ⟨5, [a.transType]⟩, ⟨6, [a.flags]⟩] ++
      if a.has GH_RM_MEM_ACCEPT_VALIDATE_LABEL then [⟨8, u32Bytes a.label⟩] else [] : List (Write Byte)), w.Inside 12 :=
    stores_some_iff.mp ⟨_, show stores _ (zeros 12) = some (u32Bytes a.handle ++ [a.memType, a.transType, a.flags, 0] ++
      u32Bytes (if a.has GH_RM_MEM_ACCEPT_VALIDATE_LABEL then a.label else 0)) by split <;> rfl⟩
  intro w hw
  refine (hall w hw).mono ?_
  rw [List.length_replicate]
  exact Nat.le_add_right 12 _

theorem bytes_of_accounted {m : MemCall} (h : m.request alloc = .ok req) (hw : m.Accounted) :
    ∃ payload, req.bytes = some payload := by
  cases m with
  | accept a =>
    have hfits := (accept_fits_iff h).mpr hw
    refine stores_some_iff.mpr fun w hmem => ?_
    rcases List.mem_append.mp hmem with hmem | hmem
    · exact accept_hdr_inside h w hmem
    · exact inside_iff.mpr (hfits w hmem)
  | share a => exact ⟨_, share_bytes (.inl rfl) h hw⟩
  | lend a => exact ⟨_, share_bytes (.inr (.inl rfl)) h hw⟩
  | donate a => exact ⟨_, share_bytes (.inr (.inr rfl)) (donate_request h).2 hw⟩
  | lookupSgl a => exact ⟨_, lookup_bytes h⟩

variable {c : ApiCall} {m : MemCall} {env : ApiEnv} {args : CallArgs}

theorem sends_of_bytes (hc : c.describes = some m) (h : m.request env.alloc = .ok req)
    (hbytes : req.bytes = some payload) : c.sends env = some ⟨m.fnId, some (m.reflag payload), true⟩ := by
  have hshare {fnId : BitVec 32} {a : MemArgs} {e : ShareEnv} (he : e.alloc = env.alloc)
      (h : shareRequest fnId a env.alloc = .ok req) :
      first (ghRmMemShareLendHelper fnId a e) = some ⟨fnId, some payload, true⟩ := by
    simp only [ghRmMemShareLendHelper, he, h, sendRequest, hbytes]
    rfl
  cases c with
  | memShare a | memLend a =>
    cases hc
    exact hshare rfl h
  | memDonate a =>
    cases hc
    obtain ⟨⟨d, hd, hvalid⟩, h⟩ := donate_request h
    simp only [ApiCall.sends, ghRmMemDonate, hd, hvalid]
    exact hshare rfl h
  | memLookupSgl a =>
    cases hc
    simp only [ApiCall.sends, ghRmMemQcomLookupSgl, show lookupRequest a env.alloc = .ok req from h, sendRequest,
      hbytes]
    rfl
  | memAccept a =>
    cases hc
    simp only [ApiCall.sends, Accept.start, show ghRmMemAcceptPrepareRequest a env.alloc = .ok req from h, hbytes]
    rfl
  | _ => cases hc

/-- What is sent is a request that is all there, or one of which the ACL or the attributes are not accounted for. -/
theorem sent_cases (h : c.sent env = some args) : c.sends env = some args ∨
    ∃ m req, c.describes = some m ∧ ¬ m.Accounted ∧ m.request env.alloc = .ok req ∧
      args = ⟨m.fnId, some (m.reflag req.kept), true⟩ := by
  unfold ApiCall.sent at h
  split at h
  · rename_i m hc
    unfold MemCall.sent at h
    split at h
    · cases h
    · rename_i req hreq
      cases h
      by_cases hw : m.Accounted
      · obtain ⟨payload, hbytes⟩ := bytes_of_accounted hreq hw
        rw [MemReq.kept, overwrites_of_stores hbytes]
        exact .inl (sends_of_bytes hc hreq hbytes)
      · exact .inr ⟨m, req, hc, hw, hreq, rfl⟩
  · exact .inl h

/-! ## What is read of it -/

theorem length_reflag (m : MemCall) (payload : List Byte) : (m.reflag payload).length = payload.length := by
  cases m with
  | accept a =>
    simp only [MemCall.reflag, setFlags]
    split
    · exact List.length_set
    · rfl
  | _ => rfl

/-- An ACL of 2^16 entries is longer than a request can be. -/
theorem share_unaccounted (op : MemOp) {a : MemArgs} (hlen : payload.length ≤ 63 * 232)
    (hw : ¬ (aclOf a.aclDesc).length < 2 ^ 16) :
    readAsk (Kind.memory op).messageId payload ≠ some (.memory op (ApiCall.sharePart a)) := by
  intro hread
  have hsize := length_of_read (consumes_memory op) hread
  simp only [askSize, ApiCall.sharePart, aclSize] at hsize
  omega

theorem accept_unaccounted {a : AcceptArgs} (h : ghRmMemAcceptPrepareRequest a alloc = .ok req)
    (hlen : payload.length = req.reqBuf.length) (hw : ¬ (MemCall.accept a).Accounted) :
    readAsk Kind.memAccept.messageId payload ≠ some (.memAccept (ApiCall.acceptOf a)) := by
  intro hread
  have hsize := length_of_read consumes_memAccept hread
  obtain ⟨-, rfl⟩ := prepareRequest_ok h
  simp only [MemCall.Accounted, not_or] at hw
  obtain ⟨hflag, hlists⟩ := hw
  have hnone (n : Nat) : validated a n = 0 := if_neg hflag
  rw [hlen] at hsize
  simp only [hnone, List.length_replicate, askSize, ApiCall.acceptOf, aclSize, memAttrSize] at hsize
  exact hlists ⟨List.length_eq_zero_iff.mp (by omega), List.length_eq_zero_iff.mp (by omega)⟩

/-- Where the lists are not accounted for, something else is read. -/
theorem read_unaccounted (hc : c.describes = some m) (h : m.request alloc = .ok req)
    (hlen : payload.length = req.reqBuf.length) (hmax : payload.length ≤ 63 * 232) (hw : ¬ m.Accounted) :
    readAsk m.fnId payload ≠ c.asks := by
  cases c with
  | memShare a =>
    cases hc
    exact share_unaccounted .share hmax hw
  | memLend a =>
    cases hc
    exact share_unaccounted .lend hmax hw
  | memDonate a =>
    cases hc
    exact share_unaccounted .donate hmax hw
  | memAccept a =>
    cases hc
    exact accept_unaccounted h hlen hw
  | memLookupSgl a =>
    cases hc
    exact absurd trivial hw
  | _ => cases hc

end

end GH.Proof.Rm
