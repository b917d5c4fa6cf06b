import Gunyah.Impl.Rm.Core
import Gunyah.Spec.Rm.Series

/-!
# The exchange with the resource manager

The calls and the receive task together with the RM, as the protocol has it:
requests are sent, the RM replies at most once to each with a well-formed
series that carries the ids of the request, and puts notifications between
the replies. The messages reach the receive task in the order in which the
RM sent them. `Agreement` is what the calls are promised.
-/

namespace GH.Spec.Rm

open GH.Impl GH.Impl.Rm

/-- The connection of a call in flight. -/
def connectionOf (s : Core) (k : Nat) : Option Connection :=
  match s.calls k with
  | .sending a | .waiting a => s.heap a
  | _ => none

/-- How often the call has been completed. -/
def doneCount (s : Core) (k : Nat) : Nat := ((connectionOf s k).map (·.seqDone)).getD 0

/-- The driver and the RM, with the messages between them and what has become of each call. -/
structure Rpc where
  core : Core
  /-- The messages on the way to the receive task, with the call that the
  series of each is a reply to. -/
  rxq : List (Option Nat × List Byte)
  /-- The reply to each call: a start message and its continuations. -/
  replies : Nat → Option (List Byte × List (List Byte))
  started : List Nat
  /-- The completions of calls: the call whose reply was received, and the
  call that was completed. -/
  delivered : List (Option Nat × Nat)

/-- Nothing has been sent. -/
def Rpc.init : Rpc := ⟨Core.init, [], fun _ => none, [], []⟩

/-- What the callers, the RM and the receive task do. -/
inductive RpcAct where
  | call (k : Nat) (args : CallArgs) (env : CallEnv)
  | send (k : Nat) (ret : Int)
  | finish (k : Nat)
  | notifWork (a : Addr)
  /-- The RM replies to call `k`. -/
  | reply (k : Nat) (start : List Byte) (conts : List (List Byte))
  /-- The RM sends a notification. -/
  | notif (start : List Byte) (conts : List (List Byte))
  /-- The receive task gets the next message. -/
  | recv (env : RecvEnv)

/-- The RM may send this reply to the call with this connection. -/
def IsReplyTo (c : Connection) (start : List Byte) (conts : List (List Byte)) : Prop :=
  WellFormed start conts ∧ (rpcHdr start).type = GH_RM_RPC_TYPE_RPLY ∧ (rpcHdr start).seq = c.seq ∧
    (rpcHdr start).msgId = c.msgId

instance (c : Connection) (start : List Byte) (conts : List (List Byte)) : Decidable (IsReplyTo c start conts) :=
  inferInstanceAs (Decidable (_ ∧ _ ∧ _ ∧ _))

/-- After a turn of the receive task on a message, with the calls it completed. -/
def Rpc.afterRecv (s : Rpc) (core : Core) (origin : Option Nat) (rest : List (Option Nat × List Byte)) : Rpc :=
  { s with core := core, rxq := rest,
           delivered := s.delivered ++
             (s.started.filter fun k => doneCount core k ≠ doneCount s.core k).map (origin, ·) }

/-- Calls get a sequence number and their sends succeed; the rest is up to the
environment. -/
def rpcStep (s : Rpc) : RpcAct → Option Rpc
  | .call k args env =>
    match env.idr with
    | .id _ =>
      if ReachesIdr args env then
        (step s.core (.call k args env)).map fun c => { s with core := c, started := s.started ++ [k] }
      else none
    | .err _ => none
  | .send k ret => if 0 ≤ ret then (step s.core (.send k ret)).map fun c => { s with core := c } else none
  | .finish k => (step s.core (.finish k)).map fun c => { s with core := c }
  | .notifWork a => (step s.core (.notifWork a)).map fun c => { s with core := c }
  | .reply k start conts =>
    match connectionOf s.core k with
    | some c =>
      if s.replies k = none ∧ IsReplyTo c start conts then
        some { s with rxq := s.rxq ++ (start :: conts).map (some k, ·),
                      replies := Function.update s.replies k (some (start, conts)) }
      else none
    | none => none
  | .notif start conts =>
    if WellFormed start conts ∧ (rpcHdr start).type = GH_RM_RPC_TYPE_NOTIF then
      some { s with rxq := s.rxq ++ (start :: conts).map (none, ·) }
    else none
  | .recv env =>
    match s.rxq with
    | (origin, msg) :: rest => (step s.core (.recv msg env)).map fun c => s.afterRecv c origin rest
    | [] => none

/-- The call gives this payload: that many bytes of the buffer returned. -/
def GivesPayload (r : CallRet) (payload : List Byte) : Prop :=
  ∃ p, r.ret = .ok p ∧ r.respBuffSize = some payload.length ∧ (p.getD []).take payload.length = payload

/-- Each call that has returned gives what `gives` says of the reply to its
own request; no reply completes another call, or a call twice; calls in
flight have different sequence numbers. -/
structure Agreement (gives : CallRet → List Byte → List (List Byte) → Prop) (s : Rpc) : Prop where
  returned : ∀ k r, s.core.calls k = .returned r →
    ∃ start conts, s.replies k = some (start, conts) ∧ (some k, k) ∈ s.delivered ∧ gives r start conts
  own : ∀ d ∈ s.delivered, d.1 = some d.2
  once : s.delivered.Nodup
  distinct : ∀ k k' c c', k ≠ k' → connectionOf s.core k = some c → connectionOf s.core k' = some c' →
    c.seq ≠ c'.seq

end GH.Spec.Rm
