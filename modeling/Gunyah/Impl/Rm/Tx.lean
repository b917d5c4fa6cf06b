import Gunyah.Impl.Rm.Send

/-!
# Threads that send requests

Any number of threads in `gh_rm_send_request`, each with its own request, on
the message queue to the RM; a call of `gh_rm_call` is such a thread, since it
sends one request. `gh_rm_send_lock` is held over the loop; inside it each
fragment goes through `gh_msgq_send`, step by step. The hypervisor
answers each send as it likes and takes the message exactly when it answers
`GH_ERROR_OK`. TX interrupts, signals and changes of the entry by others
(registration, capabilities) can come at any time.
-/

namespace GH.Impl.Rm

open GH.Impl.Msgq

/-- Where a thread is in `gh_rm_send_request`: before it, waiting for
`gh_rm_send_lock`, at the head of the loop, in `gh_msgq_send`, or returned. -/
inductive TxPc where
  | idle
  | lock
  | turn (v : SendLoop)
  | send (v : SendLoop) (pc : XferPc)
  | ret (r : Int)

/-- The threads in `gh_rm_send_request`, with the locks and the queue's entry that they share. -/
structure TxState where
  entry : CapTable
  /-- `gh_rm_msgq_desc`, whose `cap_table` is the entry. -/
  desc : Option Addr
  /-- The holder of `gh_rm_send_lock`. -/
  sendLock : Option Nat
  /-- The holder of `tx_lock`. -/
  txLock : Option Nat
  threads : Nat → TxPc
  /-- The messages the queue has taken. -/
  accepted : List Tx

/-- No thread is in the function. -/
def TxState.init (entry : CapTable) (desc : Option Addr) : TxState :=
  ⟨entry, desc, none, none, fun _ => .idle, []⟩

/-- The steps of a thread, and what comes in between. -/
inductive TxAct where
  /-- `gh_rm_send_request` up to the lock; `msg` is whether `msg` can be allocated. -/
  | start (k : Nat) (msg : Bool)
  | lock (k : Nat) (signal : Bool)
  /-- The head of the loop. -/
  | turn (k : Nat)
  | run (k : Nat) (signal : Bool)
  | hcall (k : Nat) (r : Resp)
  | store (k : Nat)
  /-- `gh_msgq_send` returns. -/
  | sent (k : Nat)
  | txIsr
  /-- Something else changes the entry and the descriptor. -/
  | other (entry : CapTable) (desc : Option Addr)

/-- A thread goes on. -/
def TxState.setPc (s : TxState) (k : Nat) (pc : TxPc) : TxState :=
  { s with threads := Function.update s.threads k pc }

/-- What `gh_msgq_send` is called with. -/
def Tx.args (tx : Tx) (desc : Option Addr) : XferArgs :=
  { clientDesc := desc, size := tx.msg.length, flags := tx.flags }

/-- What the hypercall gets: only the flags for the hypervisor. -/
def Tx.hvc (tx : Tx) : Tx := { tx with flags := tx.flags &&& GH_MSGQ_HVC_FLAGS_MASK }

/-- A step of the threads, where thread `k` sends the request `reqs k`. -/
def txStep (reqs : Nat → Request) (s : TxState) : TxAct → Option TxState
  | .start k msg =>
    match s.threads k with
    | .idle =>
      if s.desc = none then some (s.setPc k (.ret (-EPROBE_DEFER)))
      else if (reqs k).numFragments.toNat > GH_RM_MAX_NUM_FRAGMENTS then some (s.setPc k (.ret (-E2BIG)))
      else if msg = false then some (s.setPc k (.ret (-ENOMEM)))
      else some (s.setPc k .lock)
    | _ => none
  | .lock k signal =>
    match s.threads k with
    | .lock =>
      if signal then some (s.setPc k (.ret (-ERESTARTSYS)))
      else if s.sendLock = none then some { s.setPc k (.turn (.init (reqs k))) with sendLock := some k }
      else none
    | _ => none
  | .turn k =>
    match s.threads k with
    | .turn v =>
      if v.i ≤ (reqs k).numFragments.toNat then some (s.setPc k (.send v .enter))
      else some { s.setPc k (.ret 0) with sendLock := none }
    | _ => none
  | .run k signal =>
    match s.threads k with
    | .send v pc =>
      (ghMsgqSend ((v.tx (reqs k)).args s.desc) s.entry signal pc).map fun pc => s.setPc k (.send v pc)
    | _ => none
  | .hcall k r =>
    match s.threads k with
    | .send v .hcall =>
      if s.txLock = none then
        some { s.setPc k (.send v (.store r)) with
               txLock := some k
               accepted := if r.ghRet = GH_ERROR_OK then s.accepted ++ [(v.tx (reqs k)).hvc] else s.accepted }
      else none
    | _ => none
  | .store k =>
    match s.threads k with
    | .send v (.store r) =>
      let (e, pc) := ghMsgqXferStore .tx s.entry r
      some { s.setPc k (.send v pc) with entry := e, txLock := none }
    | _ => none
  | .sent k =>
    match s.threads k with
    | .send v (.done ret) =>
      if ret ≠ 0 then some { s.setPc k (.ret ret) with sendLock := none }
      else some (s.setPc k (.turn v.next))
    | _ => none
  | .txIsr => if s.txLock = none then some { s with entry := ghMsgqTxIsr s.entry } else none
  | .other entry desc => some { s with entry := entry, desc := desc }

end GH.Impl.Rm
