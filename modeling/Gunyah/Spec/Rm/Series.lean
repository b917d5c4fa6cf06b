import Gunyah.Impl.Rm.Hdr

/-!
# Series of messages

A reply or a notification comes as a series: a start message, which
announces how many fragments follow, and that many continuation messages.
Its payload is what follows the header of the start message, then what
follows the headers of the others. `WellFormed` is what the protocol allows.
-/

namespace GH.Spec.Rm

open GH.Impl GH.Impl.Rm

/-- A message with the given type, fragment count, ids and rest. -/
def message (type : BitVec 2) (fragments : BitVec 6) (seq : BitVec 16) (msgId : BitVec 32)
    (rest : List Byte) : List Byte :=
  RpcHdr.bytes { version := GH_RM_RPC_HDR_VERSION_ONE, hdrWords := GH_RM_RPC_HDR_WORDS,
                 type, fragments, seq, msgId } ++ rest

/-- The size of the header of a start message. -/
def startHdr (m : List Byte) : Nat :=
  if (rpcHdr m).type = GH_RM_RPC_TYPE_RPLY then REPLY_HDR_SIZE else HDR_SIZE

/-- What a message that starts a series carries. -/
def startPayload (m : List Byte) : List Byte := m.drop (startHdr m)

/-- What a continuation carries. -/
def contPayload (m : List Byte) : List Byte := m.drop HDR_SIZE

/-- The payload of a series. -/
def seriesPayload : List (List Byte) → List Byte
  | [] => []
  | m :: ms => startPayload m ++ ms.flatMap contPayload

/-- A continuation message for the series of a start message. -/
def IsCont (start m : List Byte) : Prop :=
  (rpcHdr m).type = GH_RM_RPC_TYPE_CONT ∧ (rpcHdr m).fragments = (rpcHdr start).fragments ∧
    HDR_SIZE < m.length ∧ m.length ≤ GH_MSGQ_MAX_MSG_SIZE_BYTES

instance (start m : List Byte) : Decidable (IsCont start m) := inferInstanceAs (Decidable (_ ∧ _ ∧ _ ∧ _))

/-- A series of the protocol: a start message with a whole header, and as many
continuation messages as it announces. It has a payload if any follow. -/
structure WellFormed (start : List Byte) (conts : List (List Byte)) : Prop where
  kind : (rpcHdr start).type = GH_RM_RPC_TYPE_RPLY ∨ (rpcHdr start).type = GH_RM_RPC_TYPE_NOTIF
  hdr : startHdr start ≤ start.length
  long : HDR_SIZE < start.length
  len : start.length ≤ GH_MSGQ_MAX_MSG_SIZE_BYTES
  num : (rpcHdr start).fragments.toNat = conts.length
  first : conts ≠ [] → startPayload start ≠ []
  cont : ∀ m ∈ conts, IsCont start m

instance (start : List Byte) (conts : List (List Byte)) : Decidable (WellFormed start conts) :=
  decidable_of_iff
    (((rpcHdr start).type = GH_RM_RPC_TYPE_RPLY ∨ (rpcHdr start).type = GH_RM_RPC_TYPE_NOTIF) ∧
      startHdr start ≤ start.length ∧ HDR_SIZE < start.length ∧ start.length ≤ GH_MSGQ_MAX_MSG_SIZE_BYTES ∧
      (rpcHdr start).fragments.toNat = conts.length ∧ (conts ≠ [] → startPayload start ≠ []) ∧
      ∀ m ∈ conts, IsCont start m)
    ⟨fun ⟨h₁, h₂, h₃, h₄, h₅, h₆, h₇⟩ => ⟨h₁, h₂, h₃, h₄, h₅, h₆, h₇⟩,
      fun h => ⟨h.1, h.2, h.3, h.4, h.5, h.6, h.7⟩⟩

/-- `m` carries the message id of the start message and, in a reply, its
sequence number. -/
def SameIds (start m : List Byte) : Prop :=
  (rpcHdr m).msgId = (rpcHdr start).msgId ∧
    ((rpcHdr start).type = GH_RM_RPC_TYPE_RPLY → (rpcHdr m).seq = (rpcHdr start).seq)

instance (start m : List Byte) : Decidable (SameIds start m) := inferInstanceAs (Decidable (_ ∧ (_ → _)))

end GH.Spec.Rm
