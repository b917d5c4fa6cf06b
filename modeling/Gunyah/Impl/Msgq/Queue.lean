import Gunyah.Impl.Msgq.Entry

/-!
# A message queue and the hypervisor

Threads in `gh_msgq_send` and `gh_msgq_recv`, the interrupt handlers and the
peer VM, on one entry and the two queues of the hypervisor behind it. The
hypervisor answers a send with `GH_ERROR_MSGQUEUE_FULL` exactly when the TX
queue is full, a receive with `GH_ERROR_MSGQUEUE_EMPTY` exactly when the RX
queue is empty, or either with another error that changes nothing. It raises
the TX interrupt at least when the TX queue goes from full to not full, and
the RX interrupt at least when the RX queue goes from empty to not empty.
The peer can act between a hypercall and the store of its answer.
-/

namespace GH.Impl.Msgq

/-- A thread that uses the queue: its arguments and where it is. -/
structure User where
  args : XferArgs
  pc : XferPc

/-- A message queue with its entry, the messages that the hypervisor holds, and the threads that use it. -/
structure Queue where
  entry : CapTable
  /-- The messages in the hypervisor's queue of each direction. -/
  count : Direction → Nat
  /-- An interrupt was raised whose handler has not run. -/
  pending : Direction → Bool
  /-- The holder of `tx_lock` and `rx_lock`. -/
  lock : Direction → Option Nat
  /-- The threads that send and receive. -/
  users : Direction → Nat → Option User

/-- The entry was just allocated for the label and populated in both
directions, and its client registered. -/
def Queue.init (label : Int) (clientDesc : Addr) (txCapId rxCapId : BitVec 64) (txIrq rxIrq : Int) : Queue where
  entry := { label, clientDesc := some clientDesc, txCapId, rxCapId, txIrq, rxIrq }
  count := fun _ => 0
  pending := fun _ => false
  lock := fun _ => none
  users := fun _ _ => none

variable (depth : Nat)

/-- A TX queue with `n` messages is not full; an RX queue with `n` messages is
not empty. -/
def Direction.Ready (n : Nat) : Direction → Prop
  | .tx => n < depth
  | .rx => 0 < n

instance (n : Nat) : (d : Direction) → Decidable (d.Ready depth n)
  | .tx => inferInstanceAs (Decidable (n < depth))
  | .rx => inferInstanceAs (Decidable (0 < n))

/-- What a message sent or received makes of the number of messages. -/
def Direction.after (n : Nat) : Direction → Nat
  | .tx => n + 1
  | .rx => n - 1

/-- The answer to a hypercall, and the messages after it. -/
def hypercall (d : Direction) (n : Nat) (err : Option Int) : Resp × Nat :=
  match err with
  | some e => ({ ghRet := e }, n)
  | none =>
    if d.Ready depth n then ({ ghRet := GH_ERROR_OK, ready := d.Ready depth (d.after n) }, d.after n)
    else ({ ghRet := d.busy }, n)

/-- What the peer makes of the number of messages: it takes one from the TX
queue, or puts one into the RX queue. -/
def Direction.peer (n : Nat) : Direction → Option Nat
  | .tx => if 0 < n then some (n - 1) else none
  | .rx => some (n + 1)

/-- What the threads, the interrupt handlers and the peer do. -/
inductive QueueAct where
  | start (d : Direction) (k : Nat) (args : XferArgs)
  | run (d : Direction) (k : Nat) (signal : Bool)
  /-- The lock is taken and the hypercall made; `err` is an answer other than
  the ones that tell about the queue. -/
  | hcall (d : Direction) (k : Nat) (err : Option Int)
  | store (d : Direction) (k : Nat)
  | isr (d : Direction)
  /-- The peer acts; `raise` is an interrupt without need. -/
  | peer (d : Direction) (raise : Bool)

/-- A thread goes on. -/
def Queue.setPc (s : Queue) (d : Direction) (k : Nat) (u : User) (pc : XferPc) : Queue :=
  { s with users := Function.update s.users d (Function.update (s.users d) k (some { u with pc })) }

/-- One such step, `none` where it is not enabled. -/
def queueStep (s : Queue) : QueueAct → Option Queue
  | .start d k args =>
    match s.users d k with
    | none => some (s.setPc d k ⟨args, .enter⟩ .enter)
    | some ⟨_, .done _⟩ => some (s.setPc d k ⟨args, .enter⟩ .enter)
    | _ => none
  | .run d k signal =>
    match s.users d k with
    | some u => (ghMsgqXfer d u.args s.entry signal u.pc).map fun pc => s.setPc d k u pc
    | none => none
  | .hcall d k err =>
    match s.users d k with
    | some u =>
      if u.pc = .hcall ∧ s.lock d = none ∧ (∀ e ∈ err, e ≠ GH_ERROR_OK ∧ e ≠ d.busy) then
        let (r, n) := hypercall depth d (s.count d) err
        some { s.setPc d k u (.store r) with count := Function.update s.count d n, lock := Function.update s.lock d (some k) }
      else none
    | none => none
  | .store d k =>
    match s.users d k with
    | some ⟨args, .store r⟩ =>
      if s.lock d = some k then
        let (e, pc) := ghMsgqXferStore d s.entry r
        some { s.setPc d k ⟨args, .store r⟩ pc with entry := e, lock := Function.update s.lock d none }
      else none
    | _ => none
  | .isr d =>
    if s.pending d ∧ s.lock d = none then
      some { s with entry := ghMsgqIsr d s.entry, pending := Function.update s.pending d false }
    else none
  | .peer d raise =>
    (d.peer (s.count d)).map fun n =>
      { s with count := Function.update s.count d n,
               pending := Function.update s.pending d
                 (s.pending d || raise || (!d.Ready depth (s.count d) && d.Ready depth n)) }

end GH.Impl.Msgq
