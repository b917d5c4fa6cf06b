import Gunyah.Impl.Rm.Replies
import Gunyah.Spec.Rm.Iface

/-!
# What a reply with entries is

A number of entries and the entries, which tile the rest of the payload: those of `VM_GET_ID` have
a size each (`IdEntry`), those of `VM_GET_HYP_RESOURCES` are all of 44 bytes. A function that reads
a reply must stay inside the payload, whatever is in the memory behind it.
-/

namespace GH.Spec.Rm.Replies

open GH.Impl GH.Impl.Rm GH.Impl.Rm.Replies GH.Spec.Rm

/-! ## Payloads -/

/-- An entry of `VM_GET_ID`: `id_info` is followed by zero to three bytes. -/
structure IdEntry where
  idType : Byte
  reserved : Byte
  idInfo : List Byte
  padding : List Byte
  length_lt : idInfo.length < 2 ^ 16
  padded : idInfo.length + padding.length = roundUp4 idInfo.length

namespace IdEntry

/-- The entry as the RM sends it. -/
def bytes (e : IdEntry) : List Byte :=
  [e.idType, e.reserved] ++ u16Of e.idInfo.length ++ e.idInfo ++ e.padding

end IdEntry

/-- The bytes are `n` entries of `VM_GET_ID`. -/
def IdEntries (n : Nat) (bs : List Byte) : Prop := ∃ es : List IdEntry, es.length = n ∧ bs = es.flatMap IdEntry.bytes

/-- The bytes are `n` entries of `VM_GET_HYP_RESOURCES`. -/
def HypResEntries (n : Nat) (bs : List Byte) : Prop :=
  ∃ es : List (List Byte), es.length = n ∧ (∀ e ∈ es, e.length = HYP_RES_ENTRY_SIZE) ∧ bs = es.flatten

/-- The payload is a number, and that many entries. -/
def Tiles (entries : Nat → List Byte → Prop) (p : List Byte) : Prop :=
  ∃ (n : BitVec 32) (bs : List Byte), entries n.toNat bs ∧ p = u32Bytes n ++ bs

/-! ## Reading a reply -/

/-- The RM answers with a payload, in memory that has more behind it, or with none. -/
def reply (p : Option (List Byte)) (behind : List Byte) : Outcome :=
  .answered (p.map (· ++ behind)) (p.getD []).length

/-- Every byte that is read is one of the payload. -/
def InPayload (reads : List Nat) (p : Option (List Byte)) : Prop := ∀ i ∈ reads, i < (p.getD []).length

/-- The payload is found right: then only the allocation of the copy is left to fail. -/
def Accepted {α : Type} (x : Except Int α) : Prop := (∃ a, x = .ok a) ∨ x = .error (-ENOMEM)

/-- The function stays inside the payload, and accepts it if it is `entries`. -/
def ReadsRight {α : Type} (entries : Nat → List Byte → Prop) (x : Except Int α × List Nat) (p : Option (List Byte)) : Prop :=
  InPayload x.2 p ∧ (Accepted x.1 ↔ ∃ q, p = some q ∧ Tiles entries q)

/-! ## Where that is so -/

/-- The bytes begin with the headers of `n` entries: all of them are whole but the last. -/
def IdHeaders (n : Nat) (bs : List Byte) : Prop :=
  n = 0 ∨ ∃ (es : List IdEntry) (hdr rest : List Byte),
    es.length + 1 = n ∧ hdr.length = 4 ∧ bs = es.flatMap IdEntry.bytes ++ hdr ++ rest

/-- The bytes begin with a VMID, if that is what the lookup has found. -/
def OneVmid (n : Nat) (bs : List Byte) : Prop := n = 1 → 2 ≤ bs.length

end GH.Spec.Rm.Replies
