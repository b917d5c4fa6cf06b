import Gunyah.Impl.Rm.MemReq
import Gunyah.Impl.Rm.Send
import Gunyah.Framework.Decode

/-!
# The layout of requests about memory parcels

How the RM reads a request: the header, and the three lists after it, each of
which says how many entries it has. Reserved fields are passed over.
-/

namespace GH.Spec.Rm

open GH.Impl GH.Impl.Rm

/-- The first call of a function. -/
def first {α : Type} : RmCalls α → Option CallArgs
  | .call args _ => some args
  | _ => none

/-- The payload of a call, which `gh_rm_send_request` does not find too long. -/
def Transmits (args : CallArgs) (payload : List Byte) : Prop :=
  args.reqBuff = some payload ∧
    (Request.mk args.messageId payload 0).numFragments.toNat ≤ GH_RM_MAX_NUM_FRAGMENTS

instance (args : CallArgs) (payload : List Byte) : Decidable (Transmits args payload) :=
  inferInstanceAs (Decidable (_ ∧ _))

/-! ## Integers -/

/-- A field of one byte. -/
def u8 : Decoder Byte (BitVec 8) := do
  let bs ← Decoder.take 1
  return bs.getD 0 0

/-- A little-endian field of two bytes. -/
def u16 : Decoder Byte (BitVec 16) := do
  let bs ← Decoder.take 2
  return bs.getD 1 0 ++ bs.getD 0 0

/-- A little-endian field of four bytes. -/
def u32 : Decoder Byte (BitVec 32) := do
  let bs ← Decoder.take 4
  return bs.getD 3 0 ++ bs.getD 2 0 ++ bs.getD 1 0 ++ bs.getD 0 0

/-- A little-endian field of eight bytes. -/
def u64 : Decoder Byte (BitVec 64) := do
  let low ← u32
  let high ← u32
  return high ++ low

/-! ## Lists -/

/-- An entry of an ACL. -/
def aclEntry : Decoder Byte AclEntry := do
  let vmid ← u16
  let perms ← u8
  Decoder.skip 1
  return ⟨vmid, perms⟩

/-- An entry of an SG list. -/
def sglEntry : Decoder Byte SglEntry := do
  let ipaBase ← u64
  let size ← u64
  return ⟨ipaBase, size⟩

/-- An entry of an attribute list. -/
def memAttrEntry : Decoder Byte MemAttrEntry := do
  let attr ← u16
  let vmid ← u16
  return ⟨attr, vmid⟩

/-- An ACL with its count. -/
def aclList : Decoder Byte (List AclEntry) := do
  let n ← u32
  aclEntry.count n.toNat

/-- An SG list with its count. -/
def sglList : Decoder Byte (List SglEntry) := do
  let n ← u16
  Decoder.skip 2
  sglEntry.count n.toNat

/-- An attribute list with its count. -/
def memAttrList : Decoder Byte (List MemAttrEntry) := do
  let n ← u16
  Decoder.skip 2
  memAttrEntry.count n.toNat

/-! ## Requests -/

/-- What a request says: the type of memory, flags and label, and the three lists. -/
structure MemParcel where
  memType : BitVec 8
  flags : BitVec 8
  label : BitVec 32
  acl : List AclEntry
  sgl : List SglEntry
  attr : List MemAttrEntry
  deriving DecidableEq

/-- The requests of `gh_rm_mem_share`, `gh_rm_mem_lend` and `gh_rm_mem_donate`, and that of
`gh_rm_mem_qcom_lookup_sgl`, where the byte of the flags is reserved. -/
def memParcel : Decoder Byte MemParcel := do
  let memType ← u8
  Decoder.skip 1
  let flags ← u8
  Decoder.skip 1
  let label ← u32
  let acl ← aclList
  let sgl ← sglList
  let attr ← memAttrList
  return ⟨memType, flags, label, acl, sgl, attr⟩

/-- What a request of `gh_rm_mem_append` says. -/
structure MemAppend where
  handle : BitVec 32
  flags : BitVec 8
  sgl : List SglEntry
  deriving DecidableEq

/-- A request to append. -/
def memAppend : Decoder Byte MemAppend := do
  let handle ← u32
  let flags ← u8
  Decoder.skip 3
  let sgl ← sglList
  return ⟨handle, flags, sgl⟩

/-- What a function is asked to tell the RM. -/
def parcel (a : MemArgs) (flags : BitVec 8) : MemParcel :=
  ⟨a.memType, flags, a.label, aclOf a.aclDesc, sglOf a.sglDesc, attrOf a.memAttrDesc⟩

/-- The RM reads from a payload, all of it, what was asked about. -/
def ReadAs (payload : List Byte) (p : MemParcel) : Prop := memParcel payload = some (p, [])

instance (payload : List Byte) (p : MemParcel) : Decidable (ReadAs payload p) :=
  inferInstanceAs (Decidable (_ = _))

end GH.Spec.Rm
