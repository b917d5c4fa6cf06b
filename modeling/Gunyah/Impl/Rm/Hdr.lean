import Gunyah.Impl.Msgq.Entry

/-!
# The header of resource manager messages

`struct gh_rm_rpc_hdr` (8 bytes, packed, little-endian, bit fields from the
low bit): version and header words, type and number of fragments, sequence
number, message id. `struct gh_rm_rpc_reply_hdr` adds the error code of a
reply.
-/

namespace GH.Impl.Rm

/-- `struct gh_rm_rpc_hdr`. -/
structure RpcHdr where
  version : BitVec 4
  hdrWords : BitVec 4
  type : BitVec 2
  fragments : BitVec 6
  seq : BitVec 16
  msgId : BitVec 32
  deriving DecidableEq, Repr

/-- `sizeof(struct gh_rm_rpc_hdr)` and `sizeof(struct gh_rm_rpc_reply_hdr)`. -/
def HDR_SIZE : Nat := 8
def REPLY_HDR_SIZE : Nat := 12

/-- The version of the header, and its length in words. -/
def GH_RM_RPC_HDR_VERSION_ONE : BitVec 4 := 0x1
def GH_RM_RPC_HDR_WORDS : BitVec 4 := 0x2

/-- The types of messages. -/
def GH_RM_RPC_TYPE_CONT : BitVec 2 := 0x0
def GH_RM_RPC_TYPE_REQ : BitVec 2 := 0x1
def GH_RM_RPC_TYPE_RPLY : BitVec 2 := 0x2
def GH_RM_RPC_TYPE_NOTIF : BitVec 2 := 0x3

/-- `GH_MSGQ_MAX_MSG_SIZE_BYTES - sizeof(struct gh_rm_rpc_hdr)`. -/
def GH_RM_MAX_MSG_SIZE_BYTES : Nat := 232
def GH_RM_MAX_NUM_FRAGMENTS : Nat := 62

/-- The header's bytes, in memory order. -/
def RpcHdr.bytes (h : RpcHdr) : List Byte :=
  [h.hdrWords ++ h.version, h.fragments ++ h.type,
    h.seq.extractLsb' 0 8, h.seq.extractLsb' 8 8,
    h.msgId.extractLsb' 0 8, h.msgId.extractLsb' 8 8, h.msgId.extractLsb' 16 8,
    h.msgId.extractLsb' 24 8]

/-- The header of a message in a buffer. -/
def rpcHdr (buff : List Byte) : RpcHdr where
  version := (buff.getD 0 0).extractLsb' 0 4
  hdrWords := (buff.getD 0 0).extractLsb' 4 4
  type := (buff.getD 1 0).extractLsb' 0 2
  fragments := (buff.getD 1 0).extractLsb' 2 6
  seq := buff.getD 3 0 ++ buff.getD 2 0
  msgId := buff.getD 7 0 ++ buff.getD 6 0 ++ buff.getD 5 0 ++ buff.getD 4 0

/-- `err_code` of a reply in a buffer. -/
def errCode (buff : List Byte) : BitVec 32 :=
  buff.getD 11 0 ++ buff.getD 10 0 ++ buff.getD 9 0 ++ buff.getD 8 0

end GH.Impl.Rm
