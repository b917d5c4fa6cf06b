import Gunyah.Impl.Rm.Hdr

/-!
# Sending a request

`gh_rm_send_request`: a request goes out as a series of messages, the first
of type `REQ` and the others `CONT`, each with up to
`GH_RM_MAX_MSG_SIZE_BYTES` bytes of it. What `gh_msgq_send` answers, and what
the kernel decides before the first message, are inputs. The delay before the
messages of the console calls is left out.
-/

namespace GH.Impl.Rm

/-- The arguments of `gh_rm_send_request`; `seq` is the connection's. -/
structure Request where
  messageId : BitVec 32
  reqBuff : List Byte
  seq : BitVec 16

/-- `num_fragments`, a `u32`: the messages after the first. -/
def Request.numFragments (r : Request) : BitVec 32 :=
  BitVec.ofNat 32 (sizeSub (sizeAdd r.reqBuff.length GH_RM_MAX_MSG_SIZE_BYTES) 1 / GH_RM_MAX_MSG_SIZE_BYTES) - 1

/-- The variables of the loop of `gh_rm_send_request`: `req_buff_curr` is an
offset. -/
structure SendLoop where
  i : Nat
  buffSizeRemaining : Nat
  reqBuffCurr : Nat
  deriving DecidableEq

/-- The variables of the loop before its first turn. -/
def SendLoop.init (r : Request) : SendLoop := ⟨0, r.reqBuff.length, 0⟩

/-- `payload_size` of a turn. -/
def SendLoop.payloadSize (v : SendLoop) : Nat :=
  if v.buffSizeRemaining > GH_RM_MAX_MSG_SIZE_BYTES then GH_RM_MAX_MSG_SIZE_BYTES else v.buffSizeRemaining

/-- The header of the message. `fragments` has six bits. -/
def SendLoop.hdr (r : Request) (v : SendLoop) : RpcHdr where
  version := GH_RM_RPC_HDR_VERSION_ONE
  hdrWords := GH_RM_RPC_HDR_WORDS
  type := if v.i = 0 then GH_RM_RPC_TYPE_REQ else GH_RM_RPC_TYPE_CONT
  fragments := r.numFragments.setWidth 6
  seq := r.seq
  msgId := r.messageId

/-- A message, and the flags it is sent with. -/
structure Tx where
  msg : List Byte
  flags : BitVec 64
  deriving DecidableEq

/-- What a turn of the loop hands to `gh_msgq_send`. -/
def SendLoop.tx (r : Request) (v : SendLoop) : Tx where
  msg := (v.hdr r).bytes ++ (r.reqBuff.drop v.reqBuffCurr).take v.payloadSize
  flags := if v.i = r.numFragments.toNat then GH_MSGQ_TX_PUSH else 0

/-- The variables of the next turn. -/
def SendLoop.next (v : SendLoop) : SendLoop where
  i := v.i + 1
  buffSizeRemaining :=
    if v.buffSizeRemaining > GH_RM_MAX_MSG_SIZE_BYTES then v.buffSizeRemaining - v.payloadSize
    else v.buffSizeRemaining
  reqBuffCurr := v.reqBuffCurr + v.payloadSize

/-- What the kernel decides: whether `gh_rm_msgq_desc` is set, `msg` can be
allocated, and a signal interrupts the wait for `gh_rm_send_lock`. -/
structure SendEnv where
  desc : Bool := true
  msg : Bool := true
  signal : Bool := false

/-- `turns` turns of the loop: what is handed to `gh_msgq_send`, whose result
for the message of turn `i` is `send i`, and `ret`. -/
def sendFragments (r : Request) (send : Nat → Int) : Nat → SendLoop → List Tx × Int
  | 0, _ => ([], 0)
  | turns + 1, v =>
    if send v.i ≠ 0 then ([v.tx r], send v.i)
    else
      let (txs, ret) := sendFragments r send turns v.next
      (v.tx r :: txs, ret)

/-- `gh_rm_send_request`. -/
def ghRmSendRequest (env : SendEnv) (send : Nat → Int) (r : Request) : List Tx × Int :=
  if env.desc = false then ([], -EPROBE_DEFER)
  else if r.numFragments.toNat > GH_RM_MAX_NUM_FRAGMENTS then ([], -E2BIG)
  else if env.msg = false then ([], -ENOMEM)
  else if env.signal then ([], -ERESTARTSYS)
  else sendFragments r send (r.numFragments.toNat + 1) (.init r)

end GH.Impl.Rm
