import Mathlib.Tactic.Common
import Gunyah.Spec.Rm.MemReq

/-!
# Requests about memory parcels, and how they are read

What `gh_rm_populate_mem_request` makes of a zeroed buffer that has room for its
lists: the lists, one after the other (`populate_stores`). The RM reads
from them what the descriptors say (`Decodes`), with the SG list cut off behind its
first `GH_RM_MEM_MAX_SGL_ENTRIES` entries.
-/

namespace GH.Proof.Rm

open GH.Impl GH.Impl.Rm GH.Spec.Rm

/-! ## Integers -/

theorem decodes_u8 (x : BitVec 8) : Decodes u8 [x] x := by
  unfold u8
  exact (Decodes.take (by rfl)).bind_pure rfl

/-- The bytes of an integer, put together again. -/
theorem u16_join (x : BitVec 16) : x.extractLsb' 8 8 ++ x.extractLsb' 0 8 = x := by
  rw [BitVec.extractLsb'_append_extractLsb'_eq_extractLsb' (show 8 = 0 + 8 from rfl),
    BitVec.extractLsb'_eq_self]

theorem decodes_u16 (x : BitVec 16) : Decodes u16 (u16Bytes x) x := by
  unfold u16
  exact (Decodes.take (by rfl)).bind_pure (u16_join x)

theorem u32_join (x : BitVec 32) :
    x.extractLsb' 24 8 ++ x.extractLsb' 16 8 ++ x.extractLsb' 8 8 ++ x.extractLsb' 0 8 = x := by
  rw [BitVec.extractLsb'_append_extractLsb'_eq_extractLsb' (show 24 = 16 + 8 from rfl),
    BitVec.extractLsb'_append_extractLsb'_eq_extractLsb' (show 16 = 8 + 8 from rfl),
    BitVec.extractLsb'_append_extractLsb'_eq_extractLsb' (show 8 = 0 + 8 from rfl),
    BitVec.extractLsb'_eq_self]

theorem decodes_u32 (x : BitVec 32) : Decodes u32 (u32Bytes x) x := by
  unfold u32
  exact (Decodes.take (by rfl)).bind_pure (u32_join x)

theorem decodes_u64 (x : BitVec 64) : Decodes u64 (u64Bytes x) x := by
  have hx : x.extractLsb' 32 32 ++ x.extractLsb' 0 32 = x := by
    rw [BitVec.extractLsb'_append_extractLsb'_eq_extractLsb' (show 32 = 0 + 32 from rfl),
      BitVec.extractLsb'_eq_self]
  unfold u64
  exact (decodes_u32 _).bind ((decodes_u32 _).bind_pure hx)

/-! ## Lists -/

/-- The bytes of a list as the RM reads it. -/
def AclEntry.bytes (e : AclEntry) : List Byte := u16Bytes e.vmid ++ [e.perms, 0]

/-- The lists as they are sent, with their counts. -/
def aclBytes (es : List AclEntry) : List Byte := u32Bytes (BitVec.ofNat 32 es.length) ++ es.flatMap AclEntry.bytes

/-- An SG list as it is sent, with its count. -/
def sglBytes (reserved : List Byte) (es : List SglEntry) : List Byte :=
  u16Bytes (BitVec.ofNat 16 es.length) ++ reserved ++ es.flatMap (·.bytes)

/-- An attribute list as it is sent, with its count. -/
def memAttrBytes (es : List MemAttrEntry) : List Byte :=
  u16Bytes (BitVec.ofNat 16 es.length) ++ [0, 0] ++ es.flatMap (·.bytes)

theorem decodes_aclEntry (e : AclEntry) : Decodes aclEntry (AclEntry.bytes e) e := by
  unfold aclEntry
  exact (decodes_u16 _).bind ((decodes_u8 _).bind ((Decodes.skip (by rfl)).bind_pure rfl))

theorem decodes_sglEntry (e : SglEntry) : Decodes sglEntry e.bytes e := by
  unfold sglEntry
  exact (decodes_u64 _).bind ((decodes_u64 _).bind_pure rfl)

theorem decodes_memAttrEntry (e : MemAttrEntry) : Decodes memAttrEntry e.bytes e := by
  unfold memAttrEntry
  exact (decodes_u16 _).bind ((decodes_u16 _).bind_pure rfl)

/-- A list behind the number of its entries. -/
theorem decodes_count {α : Type} {w : Nat} {d : Decoder Byte α} {enc : α → List Byte} (h : ∀ a, Decodes d (enc a) a)
    {as : List α} (hlen : as.length < 2 ^ w) :
    Decodes (d.count (BitVec.ofNat w as.length).toNat) (as.flatMap enc) as := by
  rw [BitVec.toNat_ofNat, Nat.mod_eq_of_lt hlen]
  exact .count h as

theorem decodes_aclList {es : List AclEntry} (h : es.length < 2 ^ 32) : Decodes aclList (aclBytes es) es := by
  unfold aclList aclBytes
  exact (decodes_u32 _).bind (decodes_count decodes_aclEntry h)

/-- Whatever is in the reserved field. -/
theorem decodes_sglList {reserved : List Byte} (hres : reserved.length = 2) {es : List SglEntry}
    (h : es.length < 2 ^ 16) : Decodes sglList (sglBytes reserved es) es := by
  unfold sglList sglBytes
  rw [List.append_assoc]
  exact (decodes_u16 _).bind ((Decodes.skip hres).bind (decodes_count decodes_sglEntry h))

theorem decodes_memAttrList {es : List MemAttrEntry} (h : es.length < 2 ^ 16) :
    Decodes memAttrList (memAttrBytes es) es := by
  unfold memAttrList memAttrBytes
  rw [List.append_assoc]
  exact (decodes_u16 _).bind ((Decodes.skip (by rfl)).bind (decodes_count decodes_memAttrEntry h))

/-! ## Filling in a request -/

/-- A zeroed buffer. -/
abbrev zeros (n : Nat) : List Byte := List.replicate n 0

theorem zeros_add (m n : Nat) : zeros (m + n) = zeros m ++ zeros n := List.replicate_add m n 0

theorem length_entries {α : Type} (enc : α → List Byte) {k : Nat} (hk : ∀ a, (enc a).length = k) (as : List α) :
    (as.flatMap enc).length = k * as.length := by
  simp only [List.length_flatMap, hk, List.map_const', List.sum_replicate_nat, Nat.mul_comm]

/-- A list behind its first 4 bytes, copied as a whole if it has entries. -/
theorem stores_copied {α : Type} (enc : α → List Byte) {k : Nat} (hk : ∀ a, (enc a).length = k) (as : List α)
    {hdr : List (Write Byte)} {bs : List Byte} (hhdr : stores hdr (zeros 4) = some bs) :
    stores (hdr ++ if as.length ≠ 0 then [⟨4, as.flatMap enc⟩] else []) (zeros (4 + k * as.length)) =
      some (bs ++ as.flatMap enc) := by
  have hlen := length_entries enc hk as
  have hcopy : stores (if as.length ≠ 0 then [⟨0, as.flatMap enc⟩] else []) (zeros (k * as.length)) =
      some (as.flatMap enc) := by
    split
    · exact stores_whole (by rw [hlen, List.length_replicate])
    · rename_i h
      rw [not_not, List.length_eq_zero_iff] at h
      subst h
      rfl
  have hat : (if as.length ≠ 0 then [⟨4, as.flatMap enc⟩] else []) =
      atOffset 4 (if as.length ≠ 0 then [⟨0, as.flatMap enc⟩] else []) := by
    split <;> rfl
  rw [hat, zeros_add]
  exact stores_block rfl hhdr hcopy

theorem populateAcl_stores (d : Option AclDesc) :
    stores (ghRmPopulateAclDesc d) (zeros (aclSize (aclOf d).length)) = some (aclBytes (aclOf d)) := by
  have hentry (e : AclEntry) :
      stores [⟨0, u16Bytes e.vmid⟩, ⟨2, [e.perms]⟩] (zeros 4) = some (AclEntry.bytes e) := rfl
  have hentries := stores_each rfl hentry (aclOf d)
  rw [List.flatten_replicate_replicate, Nat.mul_comm] at hentries
  have hn : stores [⟨0, u32Bytes (BitVec.ofNat 32 (aclOf d).length)⟩] (zeros 4) =
      some (u32Bytes (BitVec.ofNat 32 (aclOf d).length)) := rfl
  rw [aclSize, zeros_add]
  exact stores_block rfl hn hentries

theorem populateSgl_stores (d : Option SglDesc) (param : BitVec 16) :
    stores (ghRmPopulateSglDesc d param) (zeros (sglSize (min GH_RM_MEM_MAX_SGL_ENTRIES (sglOf d).length))) =
      some (sglBytes (u16Bytes param) ((sglOf d).take GH_RM_MEM_MAX_SGL_ENTRIES)) := by
  have hlen : min GH_RM_MEM_MAX_SGL_ENTRIES (sglOf d).length =
      ((sglOf d).take GH_RM_MEM_MAX_SGL_ENTRIES).length := List.length_take.symm
  have htake : (sglOf d).take (min GH_RM_MEM_MAX_SGL_ENTRIES (sglOf d).length) =
      (sglOf d).take GH_RM_MEM_MAX_SGL_ENTRIES := List.take_eq_take_min.symm
  simp only [ghRmPopulateSglDesc, htake]
  rw [hlen]
  exact stores_copied SglEntry.bytes (fun _ => rfl) _ (by rfl)

theorem populateMemAttr_stores (d : Option MemAttrDesc) :
    stores (ghRmPopulateMemAttrDesc d) (zeros (memAttrSize (attrOf d).length)) = some (memAttrBytes (attrOf d)) :=
  stores_copied MemAttrEntry.bytes (fun _ => rfl) _
    (show stores [⟨0, u16Bytes (BitVec.ofNat 16 (attrOf d).length)⟩] (zeros 4) = _ from rfl)

/-- A request whose header is filled in, and which has room for its lists: whatever is behind
them stays. -/
theorem populate_stores {fnId : BitVec 32} {hdr : List Byte} (hfn : reqHdrSize fnId = some hdr.length)
    (acl : Option AclDesc) (sgl : Option SglDesc) (param : BitVec 16) (attr : Option MemAttrDesc) (more : List Byte) :
    stores (ghRmPopulateMemRequest fnId acl sgl param attr)
      (hdr ++ (zeros (aclSize (aclOf acl).length) ++
        (zeros (sglSize (min GH_RM_MEM_MAX_SGL_ENTRIES (sglOf sgl).length)) ++
          zeros (memAttrSize (attrOf attr).length) ++ more))) =
      some (hdr ++ (aclBytes (aclOf acl) ++
        (sglBytes (u16Bytes param) ((sglOf sgl).take GH_RM_MEM_MAX_SGL_ENTRIES) ++ memAttrBytes (attrOf attr) ++ more))) := by
  have htail := stores_left (stores_block (k := sglSize (min GH_RM_MEM_MAX_SGL_ENTRIES (sglOf sgl).length))
    (by simp) (populateSgl_stores sgl param) (populateMemAttr_stores attr)) more
  have hlists := stores_right (stores_block (k := aclSize (aclOf acl).length) (by simp) (populateAcl_stores acl)
    htail) hdr
  simp only [atOffset_append, atOffset_atOffset] at hlists
  simpa only [ghRmPopulateMemRequest, hfn, List.append_assoc, Nat.add_assoc] using hlists

end GH.Proof.Rm
