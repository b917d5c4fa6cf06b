import Gunyah.Impl.Kernel

/-!
# The users of a message queue

`gh_msgq.c`, on one entry of the table of message queues: the interrupt
handlers and `gh_msgq_send` and `gh_msgq_recv`, which do the same for the two
directions. Each of the two is a sequence of steps (`XferPc`) that other
threads, interrupts and the peer can come between; what the hypervisor
answers, and whether a signal comes, are inputs. The names of the interrupts
and the contents of the messages received are left out.
-/

namespace GH.Impl

/-- The longest message of a queue. -/
def GH_MSGQ_MAX_MSG_SIZE_BYTES : Nat := 240

/-- The flag of a message that is to be delivered at once. -/
def GH_MSGQ_TX_PUSH : BitVec 64 := 0x1
/-- `BIT(32)`. -/
def GH_MSGQ_NONBLOCK : BitVec 64 := 0x100000000
/-- `GENMASK_ULL(31, 0)`. -/
def GH_MSGQ_HVC_FLAGS_MASK : BitVec 64 := 0xFFFFFFFF

/-- `U64_MAX`. -/
def GH_CAPID_INVAL : BitVec 64 := 0xFFFFFFFFFFFFFFFF

namespace Msgq

/-- The directions of a message queue. -/
inductive Direction where
  | tx
  | rx
  deriving DecidableEq, Repr

/-- `GH_MSGQ_DIRECTION_TX` is 0 and `GH_MSGQ_DIRECTION_RX` 1. -/
def Direction.ofInt (direction : Int) : Option Direction :=
  if direction = 0 then some .tx else if direction = 1 then some .rx else none

/-- `struct gh_msgq_cap_table`. -/
structure CapTable where
  clientDesc : Option Addr := none
  txCapId : BitVec 64 := GH_CAPID_INVAL
  rxCapId : BitVec 64 := GH_CAPID_INVAL
  txIrq : Int := 0
  rxIrq : Int := 0
  txFull : Bool := false
  rxEmpty : Bool := true
  label : Int
  deriving DecidableEq, Repr

namespace CapTable

/-- `tx_cap_id` or `rx_cap_id` -/
def capId (e : CapTable) : Direction → BitVec 64
  | .tx => e.txCapId
  | .rx => e.rxCapId

/-- `tx_irq` or `rx_irq` -/
def irq (e : CapTable) : Direction → Int
  | .tx => e.txIrq
  | .rx => e.rxIrq

/-- `tx_full` or `rx_empty`. -/
def blocked (e : CapTable) : Direction → Bool
  | .tx => e.txFull
  | .rx => e.rxEmpty

/-- The fields of a direction that `gh_msgq_populate_cap_info` writes. -/
def setCap (e : CapTable) (capId : BitVec 64) (irq : Int) : Direction → CapTable
  | .tx => { e with txCapId := capId, txIrq := irq }
  | .rx => { e with rxCapId := capId, rxIrq := irq }

/-- A write to `tx_full` or `rx_empty`. -/
def setBlocked (e : CapTable) (b : Bool) : Direction → CapTable
  | .tx => { e with txFull := b }
  | .rx => { e with rxEmpty := b }

end CapTable

/-- `gh_msgq_tx_isr` and `gh_msgq_rx_isr`. -/
def ghMsgqIsr (d : Direction) (e : CapTable) : CapTable := e.setBlocked false d

/-- The interrupt handlers of the two directions. -/
def ghMsgqTxIsr (e : CapTable) : CapTable := ghMsgqIsr .tx e
def ghMsgqRxIsr (e : CapTable) : CapTable := ghMsgqIsr .rx e

/-- An answer of the hypervisor: the error number and, if that is
`GH_ERROR_OK`, `not_full` or `not_empty`. -/
structure Resp where
  ghRet : Int
  ready : Bool := false
  deriving DecidableEq, Repr

/-- The answer that makes a thread wait and try again. -/
def Direction.busy : Direction → Int
  | .tx => GH_ERROR_MSGQUEUE_FULL
  | .rx => GH_ERROR_MSGQUEUE_EMPTY

/-- `__gh_msgq_send` and `__gh_msgq_recv` after the hypercall. -/
def ghMsgqAnswer (d : Direction) (e : CapTable) (r : Resp) : CapTable × Int :=
  if r.ghRet = GH_ERROR_OK then (e.setBlocked (!r.ready) d, 0)
  else if r.ghRet = d.busy then (e.setBlocked true d, -EAGAIN)
  else (e, ghRemapError r.ghRet)

/-- The arguments of `gh_msgq_send` and `gh_msgq_recv`: the descriptor and
whether its `cap_table` is set, whether the other pointers are given, the
size of the buffer and the flags. -/
structure XferArgs where
  clientDesc : Option Addr
  capTable : Bool := true
  ptrs : Bool := true
  size : Nat
  flags : BitVec 64 := 0

/-- `flags & GH_MSGQ_NONBLOCK` -/
def XferArgs.nonblock (args : XferArgs) : Bool := args.flags &&& GH_MSGQ_NONBLOCK ≠ 0

/-- Where a thread is in `gh_msgq_send` or `gh_msgq_recv`: before the checks
under `cap_entry_lock`, waiting for the capability, before the check of the
interrupt, at the head of the loop, waiting for `tx_full` or `rx_empty`,
before the hypercall, after it with the lock held, or returned. -/
inductive XferPc where
  | enter
  | waitCap
  | checkIrq
  | loop
  | waitReady
  | hcall
  | store (r : Resp)
  | done (ret : Int)
  deriving DecidableEq, Repr

/-- A step outside the part under `tx_lock` or `rx_lock`; `none` where the
thread sleeps. -/
def ghMsgqXfer (d : Direction) (args : XferArgs) (e : CapTable) (signal : Bool) : XferPc → Option XferPc
  | .enter =>
    if args.clientDesc = none ∨ args.ptrs = false ∨ args.size = 0 then some (.done (-EINVAL))
    else if args.size > GH_MSGQ_MAX_MSG_SIZE_BYTES then some (.done (-E2BIG))
    else if args.capTable = false then some (.done (-EAGAIN))
    else if e.clientDesc ≠ args.clientDesc then some (.done (-EINVAL))
    else if e.capId d = GH_CAPID_INVAL ∧ args.nonblock then some (.done (-EAGAIN))
    else some .waitCap
  | .waitCap =>
    if e.capId d ≠ GH_CAPID_INVAL then some .checkIrq
    else if signal then some (.done (-ERESTARTSYS))
    else none
  | .checkIrq => if e.irq d = 0 then some (.done (-EAGAIN)) else some .loop
  | .loop => if e.blocked d ∧ args.nonblock then some (.done (-EAGAIN)) else some .waitReady
  | .waitReady =>
    if e.blocked d = false then some .hcall
    else if signal then some (.done (-ERESTARTSYS))
    else none
  | .hcall | .store _ | .done _ => none

/-- The end of the part under the lock: the answer is stored, and the loop
goes on after `-EAGAIN`. -/
def ghMsgqXferStore (d : Direction) (e : CapTable) (r : Resp) : CapTable × XferPc :=
  let (e, ret) := ghMsgqAnswer d e r
  (e, if ret = -EAGAIN then .loop else .done ret)

/-- A step of `gh_msgq_send`. -/
def ghMsgqSend (args : XferArgs) (e : CapTable) (signal : Bool) : XferPc → Option XferPc :=
  ghMsgqXfer .tx args e signal

/-- A step of `gh_msgq_recv`. -/
def ghMsgqRecv (args : XferArgs) (e : CapTable) (signal : Bool) : XferPc → Option XferPc :=
  ghMsgqXfer .rx args e signal

end Msgq

end GH.Impl
