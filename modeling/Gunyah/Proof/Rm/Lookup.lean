import Mathlib.Data.List.TakeDrop
import Gunyah.Proof.Rm.Fragments
import Gunyah.Proof.Rm.Room

/-!
# Looking up memory by its SG list

The request of `gh_rm_mem_qcom_lookup_sgl` has room for the whole SG list, of
which `gh_rm_populate_mem_request` writes the first entries only, and the
attributes behind these (`lookup_bytes`): the RM reads a shorter SG list, and does
not use up the request (`lookup_read_iff`).
-/

namespace GH.Proof.Rm

open GH.Impl GH.Impl.Rm GH.Spec.Rm

theorem sendRequest_first {α : Type} {fnId : BitVec 32} {req : Except Int MemReq} {err : Int → RmCalls α}
    {cont : CallRet → RmCalls α} {args : CallArgs} (herr : ∀ e, first (err e) = none)
    (h : first (sendRequest fnId req err cont) = some args) :
    ∃ r payload, req = .ok r ∧ r.bytes = some payload ∧ args = ⟨fnId, some payload, true⟩ := by
  unfold sendRequest at h
  split at h
  · rw [herr] at h
    cases h
  · rename_i r
    split at h
    · cases h
    · rename_i payload hbytes
      cases h
      exact ⟨r, payload, rfl, hbytes, rfl⟩

/-- What is transmitted, if it is not longer than a buffer can be. -/
theorem transmits_iff {args : CallArgs} {payload : List Byte} (h : payload.length < 2 ^ 32) :
    Transmits args payload ↔ args.reqBuff = some payload ∧ 1 ≤ payload.length ∧ payload.length ≤ 63 * 232 := by
  refine and_congr_right fun _ => ?_
  rcases Nat.eq_zero_or_pos payload.length with h0 | hpos
  · have hz : (Request.mk args.messageId payload 0).numFragments = 0xFFFFFFFF := by
      rw [Request.numFragments, h0]
      decide
    simp only [hz, h0]
    decide
  · rw [numFragments_toNat (r := ⟨args.messageId, payload, 0⟩) hpos h, numMessages, GH_RM_MAX_NUM_FRAGMENTS]
    simp only
    omega

/-- The bytes of a request: its header and the lists. -/
def parcelBytes (a : MemArgs) (flags : BitVec 8) : List Byte :=
  [a.memType, 0, flags, 0] ++ u32Bytes a.label ++ (aclBytes (aclOf a.aclDesc) ++
    (sglBytes (u16Bytes 0) ((sglOf a.sglDesc).take GH_RM_MEM_MAX_SGL_ENTRIES) ++ memAttrBytes (attrOf a.memAttrDesc)))

theorem skip_zero : Decodes (Decoder.skip 1) ([0] : List Byte) ⟨⟩ := .skip rfl

/-- What the RM reads of them. -/
theorem decodes_parcel {a : MemArgs} (flags : BitVec 8) (hacl : (aclOf a.aclDesc).length < 2 ^ 32) :
    Decodes memParcel (parcelBytes a flags)
      { parcel a flags with sgl := (sglOf a.sglDesc).take GH_RM_MEM_MAX_SGL_ENTRIES } := by
  have hsgl : ((sglOf a.sglDesc).take GH_RM_MEM_MAX_SGL_ENTRIES).length < 2 ^ 16 :=
    Nat.lt_of_le_of_lt (List.length_take_le' _ _) (sgl_lt a.sglDesc)
  unfold memParcel parcelBytes
  simp only [List.cons_append, List.nil_append]
  exact (decodes_u8 _).bind (skip_zero.bind ((decodes_u8 _).bind (skip_zero.bind ((decodes_u32 _).bind
    ((decodes_aclList hacl).bind ((decodes_sglList rfl hsgl).bind
      ((decodes_memAttrList (attr_lt _)).bind_pure rfl)))))))

/-- A request with room for the lists and `k` bytes more. -/
theorem parcel_stores {fnId : BitVec 32} (hfn : reqHdrSize fnId = some 8) {a : MemArgs} {flags : BitVec 8}
    {hdr : List (Write Byte)} (hhdr : stores hdr (zeros 8) = some ([a.memType, 0, flags, 0] ++ u32Bytes a.label))
    (k : Nat) :
    stores (hdr ++ ghRmPopulateMemRequest fnId a.aclDesc a.sglDesc 0 a.memAttrDesc)
      (zeros (8 + (aclSize (aclOf a.aclDesc).length +
        sglSize (min GH_RM_MEM_MAX_SGL_ENTRIES (sglOf a.sglDesc).length) +
          memAttrSize (attrOf a.memAttrDesc).length + k))) = some (parcelBytes a flags ++ zeros k) := by
  have hfn' : reqHdrSize fnId = some ([a.memType, 0, flags, 0] ++ u32Bytes a.label).length := hfn
  have hlists := populate_stores hfn' a.aclDesc a.sglDesc 0 a.memAttrDesc (zeros k)
  simp only [Nat.add_assoc, zeros_add, stores_append, stores_left hhdr, Option.bind_some]
  simpa only [parcelBytes, List.append_assoc] using hlists

theorem lookup_bytes {a : MemArgs} {alloc : Bool} {req : MemReq} (h : lookupRequest a alloc = .ok req) :
    req.bytes = some (parcelBytes a 0 ++ zeros (16 * ((sglOf a.sglDesc).length - GH_RM_MEM_MAX_SGL_ENTRIES))) := by
  obtain ⟨-, rfl⟩ := lookupRequest_ok h
  have hsize : aclSize (aclOf a.aclDesc).length + sglSize (sglOf a.sglDesc).length +
      memAttrSize (attrOf a.memAttrDesc).length =
      aclSize (aclOf a.aclDesc).length + sglSize (min GH_RM_MEM_MAX_SGL_ENTRIES (sglOf a.sglDesc).length) +
        memAttrSize (attrOf a.memAttrDesc).length +
          16 * ((sglOf a.sglDesc).length - GH_RM_MEM_MAX_SGL_ENTRIES) := by
    simp only [sglSize]
    omega
  have hfn : reqHdrSize GH_RM_RPC_MSG_ID_CALL_MEM_QCOM_LOOKUP_SGL = some 8 := by decide
  have hhdr : stores [⟨0, [a.memType]⟩, ⟨4, u32Bytes a.label⟩] (zeros 8) =
      some ([a.memType, 0, 0, 0] ++ u32Bytes a.label) := rfl
  simp only [MemReq.bytes, hsize]
  exact parcel_stores hfn hhdr (16 * ((sglOf a.sglDesc).length - GH_RM_MEM_MAX_SGL_ENTRIES))

theorem lookup_payload {a : MemArgs} {alloc : Bool} {o : Out} {args : CallArgs} {payload : List Byte}
    (h : first (ghRmMemQcomLookupSgl a alloc o) = some args) (ht : args.reqBuff = some payload) :
    payload = parcelBytes a 0 ++ zeros (16 * ((sglOf a.sglDesc).length - GH_RM_MEM_MAX_SGL_ENTRIES)) := by
  obtain ⟨req, payload', hreq, hbytes, rfl⟩ := sendRequest_first (fun _ => rfl) h
  rw [lookup_bytes hreq] at hbytes
  cases ht
  exact (Option.some.inj hbytes).symm

theorem read_parcel_iff (a : MemArgs) (flags : BitVec 8) :
    ReadAs (parcelBytes a flags ++ zeros (16 * ((sglOf a.sglDesc).length - GH_RM_MEM_MAX_SGL_ENTRIES)))
      (parcel a flags) ↔ (sglOf a.sglDesc).length ≤ GH_RM_MEM_MAX_SGL_ENTRIES := by
  have hread := decodes_parcel (a := a) flags (acl_lt a.aclDesc)
  constructor
  · intro hr
    obtain ⟨hp, -⟩ := hread.rest_of_eq hr
    have hsgl : (sglOf a.sglDesc).take GH_RM_MEM_MAX_SGL_ENTRIES = sglOf a.sglDesc := congrArg MemParcel.sgl hp
    exact (List.take_eq_self_iff _).mp hsgl
  · intro hle
    rw [List.take_of_length_le hle] at hread
    rw [Nat.sub_eq_zero_of_le hle]
    exact hread []

/-- The RM reads the request as it was meant exactly if the SG list is not cut off. -/
theorem lookup_read_iff (a : MemArgs) (alloc : Bool) (o : Out) (args : CallArgs) (payload : List Byte)
    (h : first (ghRmMemQcomLookupSgl a alloc o) = some args) (ht : Transmits args payload) :
    ReadAs payload (parcel a 0) ↔ (sglOf a.sglDesc).length ≤ GH_RM_MEM_MAX_SGL_ENTRIES := by
  rw [lookup_payload h ht.1]
  exact read_parcel_iff a 0

/-- A lookup of `n` pieces of memory. -/
def lookupOf (n : Nat) (h : n < 2 ^ 16) : MemArgs where
  memType := GH_RM_MEM_TYPE_NORMAL
  label := 0
  aclDesc := some ⟨[⟨3, 7⟩], by decide⟩
  sglDesc := some ⟨List.replicate n ⟨0x80000000, 0x1000⟩, by rwa [List.length_replicate]⟩
  memAttrDesc := none

theorem lookupOf_length {n : Nat} (h : n < 2 ^ 16) : (sglOf (lookupOf n h).sglDesc).length = n :=
  List.length_replicate

theorem lookupOf_valid {n : Nat} (h : n < 2 ^ 16) (h0 : 0 < n) : (lookupOf n h).invalid = false := by
  have hne : n ≠ 0 := by omega
  simp [MemArgs.invalid, lookupOf, hne]

theorem lookupOf_first {n : Nat} (h : n < 2 ^ 16) (h0 : 0 < n) (hn : n ≤ 900) (o : Out) :
    ∃ args payload, first (ghRmMemQcomLookupSgl (lookupOf n h) true o) = some args ∧ Transmits args payload := by
  have hmax : 8 + (aclSize (aclOf (lookupOf n h).aclDesc).length + sglSize (sglOf (lookupOf n h).sglDesc).length +
      memAttrSize (attrOf (lookupOf n h).memAttrDesc).length) = 24 + 16 * n := by
    rw [lookupOf_length]
    simp only [sglSize, aclSize, memAttrSize, lookupOf, aclOf, attrOf, Option.map_some, Option.map_none,
      Option.getD_some, Option.getD_none, List.length_cons, List.length_nil]
    omega
  obtain ⟨req, hreq⟩ := lookupRequest_some (lookupOf_valid h h0) (by rw [hmax, KMALLOC_MAX_SIZE]; omega)
  have hbytes := lookup_bytes hreq
  obtain ⟨-, hreq'⟩ := lookupRequest_ok hreq
  have hlen := length_stores hbytes
  rw [hreq', List.length_replicate, hmax] at hlen
  generalize parcelBytes (lookupOf n h) 0 ++ _ = payload at hbytes hlen
  refine ⟨⟨GH_RM_RPC_MSG_ID_CALL_MEM_QCOM_LOOKUP_SGL, some payload, true⟩, payload, ?_, ?_⟩
  · simp only [ghRmMemQcomLookupSgl, sendRequest, hreq, hbytes, first]
  · exact (transmits_iff (by omega)).mpr ⟨rfl, by omega, by omega⟩

theorem lookup_read_iff_two :
    ∃ args payload, first (ghRmMemQcomLookupSgl (lookupOf 2 (by decide)) true ⟨0, 0⟩) = some args ∧
      Transmits args payload ∧ ReadAs payload (parcel (lookupOf 2 (by decide)) 0) := by
  obtain ⟨args, payload, hfirst, ht⟩ := lookupOf_first (n := 2) (by decide) (by decide) (by decide) ⟨0, 0⟩
  exact ⟨args, payload, hfirst, ht, (lookup_read_iff _ true _ args payload hfirst ht).mpr (by decide)⟩

/-- A list of 513 pieces is cut off. -/
theorem lookup_cut_off :
    ¬ ∀ (a : MemArgs) (o : Out) (args : CallArgs) (payload : List Byte),
      first (ghRmMemQcomLookupSgl a true o) = some args → Transmits args payload → ReadAs payload (parcel a 0) := by
  intro h
  obtain ⟨args, payload, hfirst, ht⟩ := lookupOf_first (n := 513) (by decide) (by decide) (by decide) ⟨0, 0⟩
  have hread := h _ _ args payload hfirst ht
  rw [lookup_payload hfirst ht.1, read_parcel_iff, lookupOf_length] at hread
  exact absurd hread (by decide)

end GH.Proof.Rm
