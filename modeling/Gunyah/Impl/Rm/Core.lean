import Gunyah.Impl.Rm.Hdr

/-!
# Calls to the resource manager and the receive task

`gh_rm_core.c`: connections, the receive task (`gh_rm_recv_task_fn`), which
puts the messages of a series together in one, and `gh_rm_call`, which
registers a connection under a sequence number in `gh_rm_call_idr`, sends a
request and waits for the connection to be completed.

The machine `step` interleaves any number of calls with the receive task. A
call is three steps: up to the allocation of its sequence number, the send,
and, once it is completed, everything from the removal of the sequence
number to the return (all of it on the call's own connection). What the
kernel decides (allocations, signals, the id `idr_alloc_cyclic` gives, the
result of the send) is part of the action.

Memory errors stop the receive task: `task` is then the fault. `alloc`,
`series`, `appended` and `completed` are history, read by no function.
-/

namespace GH.Impl.Rm

/-- `struct gh_rm_connection`. -/
structure Connection where
  payload : Option (List Byte) := none
  size : Nat := 0
  msgId : BitVec 32
  ret : Int := 0
  type : BitVec 2 := 0
  numFragments : Nat := 0
  fragmentsReceived : Nat := 0
  rmError : BitVec 32 := 0
  seq : BitVec 16 := 0
  /-- How often `seq_done` has been completed. -/
  seqDone : Nat := 0
  /-- The bytes allocated for `payload` by the current series. -/
  alloc : Nat := 0
  /-- The messages of the current series. -/
  series : List (List Byte) := []
  deriving DecidableEq, Repr

/-- The functions of the receive task that follow a connection pointer. -/
inductive RecvFn where
  | initConnectionBuff
  | processRply
  | processCont
  | completeConnection
  | abortConnection
  deriving DecidableEq, Repr

/-- What stops the receive task: following an error value or a pointer to a
freed connection, or copying to `NULL` or over the end of a buffer. -/
inductive Fault where
  | badPtr (f : RecvFn) (p : Ptr)
  | badCopy
  deriving DecidableEq, Repr

/-- What `gh_rm_call` returns: an error or the reply's payload (`NULL` if it
has none), and what it wrote to `*rm_error` and `*resp_buff_size`. -/
structure CallRet where
  ret : Except Int (Option (List Byte))
  rmError : Option (BitVec 32) := none
  respBuffSize : Option Nat := none

/-- Where a call is: in `gh_rm_send_request`, in `wait_for_completion`, each
with its connection, or returned. -/
inductive CallState where
  | idle
  | sending (a : Addr)
  | waiting (a : Addr)
  | returned (r : CallRet)

/-- The state of the RM driver: its connections, the calls that are under way, and the receive task. -/
structure Core where
  /-- The connections that are allocated. -/
  heap : Addr → Option Connection
  /-- The address of the next connection to be allocated. -/
  next : Addr
  /-- `gh_rm_call_idr`. -/
  idr : BitVec 16 → Option Addr
  calls : Nat → CallState
  /-- `connection` of `gh_rm_recv_task_fn`. -/
  pending : Ptr
  task : Option Fault
  /-- The connections of the queued `gh_rm_validate_notif` work items. -/
  works : List Addr
  /-- Each copy of `gh_rm_process_cont`: the connection before it, and the message. -/
  appended : List (Connection × List Byte)
  /-- The connections completed, as they were. -/
  completed : List Connection

/-- Before the first call and the first message. -/
def Core.init : Core where
  heap := fun _ => none
  next := 0
  idr := fun _ => none
  calls := fun _ => .idle
  pending := .null
  task := none
  works := []
  appended := []
  completed := []

/-- A write to a connection. -/
def Core.set (s : Core) (a : Addr) (c : Connection) : Core :=
  { s with heap := Function.update s.heap a (some c) }

/-- `kfree` of a connection. -/
def Core.free (s : Core) (a : Addr) : Core :=
  { s with heap := Function.update s.heap a none }

/-- A result, or the fault and the state in which it happened. -/
abbrev Res (α : Type) := Except (Fault × Core) α

/-- The connection a function follows a pointer to. -/
def Core.deref (s : Core) (f : RecvFn) (p : Ptr) : Res (Addr × Connection) :=
  match p with
  | .obj a =>
    match s.heap a with
    | some c => .ok (a, c)
    | none => .error (.badPtr f p, s)
  | _ => .error (.badPtr f p, s)

/-! ## The receive task -/

/-- What the kernel decides in a step of the receive task: whether a signal
interrupts `mutex_lock_interruptible`, and whether the allocations of a
connection, its payload and a work item succeed. -/
structure RecvEnv where
  signal : Bool := false
  connection : Bool := true
  payload : Bool := true
  work : Bool := true
  deriving DecidableEq, Repr

/-- `gh_rm_init_connection_buff`. -/
def ghRmInitConnectionBuff (env : RecvEnv) (c : Connection) (recvBuff : List Byte)
    (hdrSize payloadSize : Nat) : Int × Connection :=
  let hdr := rpcHdr recvBuff
  let c := { c with numFragments := hdr.fragments.toNat, fragmentsReceived := 0, type := hdr.type,
                    alloc := 0, series := [recvBuff] }
  if payloadSize = 0 then (0, c)
  else
    let maxBufSize := sizeAdd payloadSize (hdr.fragments.toNat * GH_RM_MAX_MSG_SIZE_BYTES)
    if payloadSize > maxBufSize then (-EINVAL, c)
    else
      match kzalloc env.payload maxBufSize with
      | none => (-ENOMEM, { c with payload := none })
      | some buf =>
        let src := (recvBuff.drop hdrSize).take payloadSize
        (0, { c with payload := some (src ++ buf.drop src.length), size := payloadSize, alloc := maxBufSize })

/-- `gh_rm_process_notif`. A failed `gh_rm_alloc_connection` is an error
value, which `!connection` lets pass. -/
def ghRmProcessNotif (env : RecvEnv) (s : Core) (msg : List Byte) : Res (Ptr × Core) :=
  let hdr := rpcHdr msg
  if env.connection then
    match ghRmInitConnectionBuff env { msgId := hdr.msgId } msg HDR_SIZE (msg.length - HDR_SIZE) with
    | (0, c) => .ok (.obj s.next, { s.set s.next c with next := s.next + 1 })
    | _ => .ok (.null, s)
  else .error (.badPtr .initConnectionBuff (.err (-ENOMEM)), s)

/-- `gh_rm_process_rply`. -/
def ghRmProcessRply (env : RecvEnv) (s : Core) (recvBuff : List Byte) : Res (Ptr × Core) :=
  let hdr := rpcHdr recvBuff
  if env.signal then .ok (.err (-ERESTARTSYS), s)
  else
    match s.idr hdr.seq with
    | none => .ok (.err (-EINVAL), s)
    | some a => do
      let (a, c) ← s.deref .processRply (.obj a)
      if c.seq ≠ hdr.seq ∨ c.msgId ≠ hdr.msgId then .ok (.err (-EINVAL), s)
      else
        let payloadSize := sizeSub recvBuff.length REPLY_HDR_SIZE
        match ghRmInitConnectionBuff env c recvBuff REPLY_HDR_SIZE payloadSize with
        | (ret, c) =>
          if ret < 0 then .ok (.err ret, s.set a c)
          else .ok (.obj a, s.set a { c with rmError := errCode recvBuff })

/-- `gh_rm_process_cont`. Another message id is reported, but does not stop it. -/
def ghRmProcessCont (s : Core) (connection : Ptr) (recvBuff : List Byte) : Res (Int × Core) :=
  let hdr := rpcHdr recvBuff
  if connection = .null then .ok (-EINVAL, s)
  else do
    let (a, c) ← s.deref .processCont connection
    if c.numFragments ≠ hdr.fragments.toNat then .ok (-EINVAL, s)
    else
      let src := recvBuff.drop HDR_SIZE
      let s := { s with appended := s.appended ++ [(c, recvBuff)] }
      match c.payload.bind fun buf => memcpy buf c.size src with
      | none => .error (.badCopy, s)
      | some buf =>
        .ok (0, s.set a { c with payload := some buf, size := c.size + src.length,
                                 fragmentsReceived := (c.fragmentsReceived + 1) % 2 ^ 8,
                                 series := c.series ++ [recvBuff] })

/-- `gh_rm_complete_connection`. -/
def ghRmCompleteConnection (env : RecvEnv) (s : Core) (connection : Ptr) : Res (Bool × Core) :=
  if connection = .null then .ok (false, s)
  else do
    let (a, c) ← s.deref .completeConnection connection
    if c.fragmentsReceived ≠ c.numFragments then .ok (false, s)
    else if c.type = GH_RM_RPC_TYPE_RPLY then
      .ok (true, { s.set a { c with seqDone := c.seqDone + 1 } with completed := s.completed ++ [c] })
    else if c.type = GH_RM_RPC_TYPE_NOTIF then
      if env.work then
        .ok (true, { s with works := s.works ++ [a], completed := s.completed ++ [c] })
      else .ok (true, s.free a)
    else .ok (true, s)

/-- `gh_rm_abort_connection`. -/
def ghRmAbortConnection (s : Core) (connection : Ptr) : Res Core := do
  let (a, c) ← s.deref .abortConnection connection
  if c.type = GH_RM_RPC_TYPE_RPLY then .ok (s.set a { c with ret := -EIO_ERR, seqDone := c.seqDone + 1 })
  else .ok (s.free a)

/-- The start of a series aborts one that is not finished; `connection` is
assigned next. -/
def abortPending (s : Core) : Res Core :=
  if s.pending = .null then .ok s
  else do
    let s ← ghRmAbortConnection s s.pending
    .ok { s with pending := .null }

/-- The `switch` of `gh_rm_recv_task_fn`. -/
def ghRmRecvDispatch (env : RecvEnv) (s : Core) (recvBuff : List Byte) : Res Core :=
  let hdr := rpcHdr recvBuff
  if hdr.type = GH_RM_RPC_TYPE_NOTIF then do
    let s ← abortPending s
    let (p, s) ← ghRmProcessNotif env s recvBuff
    .ok { s with pending := p }
  else if hdr.type = GH_RM_RPC_TYPE_RPLY then do
    let s ← abortPending s
    let (p, s) ← ghRmProcessRply env s recvBuff
    .ok { s with pending := p }
  else if hdr.type = GH_RM_RPC_TYPE_CONT then
    if s.pending = .null then .ok s
    else do
      let (_, s) ← ghRmProcessCont s s.pending recvBuff
      .ok s
  else .ok s

/-- One turn of the loop of `gh_rm_recv_task_fn`, on the message received. -/
def ghRmRecvTask (env : RecvEnv) (s : Core) (recvBuff : List Byte) : Res Core :=
  if recvBuff.length ≤ HDR_SIZE then .ok s
  else do
    let s ← ghRmRecvDispatch env s recvBuff
    let (done, s) ← ghRmCompleteConnection env s s.pending
    .ok (if done then { s with pending := .null } else s)

/-! ## Calls -/

/-- The arguments of `gh_rm_call`: the message id, the request (or `NULL`),
and whether the two out pointers are given. -/
structure CallArgs where
  messageId : BitVec 32
  reqBuff : Option (List Byte)
  outPtrs : Bool := true

/-- The result of `idr_alloc_cyclic`: an id, or an error number. -/
inductive IdrRes where
  | id (q : BitVec 16)
  | err (e : Int)
  deriving DecidableEq, Repr

/-- What the kernel decides in the first step of a call. -/
structure CallEnv where
  connection : Bool := true
  signal : Bool := false
  idr : IdrRes

/-- `idr_alloc_cyclic(.., 0, U16_MAX, ..)` gives an id in its range that is not
in use, `-ENOSPC` or `-ENOMEM`. -/
def IdrRes.Possible (s : Core) : IdrRes → Prop
  | .id q => q ≠ 0xFFFF ∧ s.idr q = none
  | .err e => e = ENOSPC ∨ e = ENOMEM

instance (s : Core) : (r : IdrRes) → Decidable (r.Possible s)
  | .id q => inferInstanceAs (Decidable (q ≠ 0xFFFF ∧ s.idr q = none))
  | .err e => inferInstanceAs (Decidable (e = ENOSPC ∨ e = ENOMEM))

/-- `connection->seq`: the result as a `u16`, whether an id or an error. -/
def IdrRes.seq : IdrRes → BitVec 16
  | .id q => q
  | .err e => BitVec.ofInt 16 (-e)

/-- A call goes on. -/
def Core.setCall (s : Core) (k : Nat) (c : CallState) : Core :=
  { s with calls := Function.update s.calls k c }

/-- The call gets as far as allocating a sequence number. -/
def ReachesIdr (args : CallArgs) (env : CallEnv) : Prop :=
  ¬(args.messageId = 0 ∨ args.reqBuff = none ∨ args.outPtrs = false) ∧ env.connection ≠ false ∧ ¬env.signal

instance (args : CallArgs) (env : CallEnv) : Decidable (ReachesIdr args env) :=
  inferInstanceAs (Decidable (_ ∧ _ ∧ _))

/-- `gh_rm_call` up to the send. -/
def ghRmCallStart (s : Core) (k : Nat) (args : CallArgs) (env : CallEnv) : Option Core :=
  if args.messageId = 0 ∨ args.reqBuff = none ∨ args.outPtrs = false then
    some (s.setCall k (.returned { ret := .error (-EINVAL) }))
  else if env.connection = false then
    some (s.setCall k (.returned { ret := .error (-ENOMEM) }))
  else if env.signal then
    some (s.setCall k (.returned { ret := .error (-ERESTARTSYS) }))
  else if env.idr.Possible s then
    let c : Connection := { msgId := args.messageId, seq := env.idr.seq }
    let s' := { s.set s.next c with next := s.next + 1 }
    -- the result of `idr_alloc_cyclic` is not checked
    match env.idr with
    | .id q => some ({ s' with idr := Function.update s.idr q (some s.next) }.setCall k (.sending s.next))
    | .err _ => some (s'.setCall k (.sending s.next))
  else none

/-- The send of a call, with the result `ret` of `gh_rm_send_request`. -/
def ghRmCallSend (s : Core) (k : Nat) (a : Addr) (ret : Int) : Core :=
  if ret < 0 then (s.free a).setCall k (.returned { ret := .error ret })
  else s.setCall k (.waiting a)

/-- What a completed call returns. -/
def Connection.callRet (c : Connection) : CallRet :=
  if c.rmError ≠ 0 then { ret := .error (ghRemapError c.rmError.toInt), rmError := some c.rmError }
  else if c.ret ≠ 0 then { ret := .error c.ret, rmError := some c.rmError }
  else { ret := .ok c.payload, rmError := some c.rmError, respBuffSize := some c.size }

/-- `gh_rm_call` from the completion on. -/
def ghRmCallFinish (s : Core) (k : Nat) (a : Addr) (c : Connection) : Core :=
  ({ s with idr := Function.update s.idr c.seq none }.free a).setCall k (.returned c.callRet)

/-! ## The machine -/

/-- The parts of `gh_rm_call`, a turn of the receive task, and the work item of a notification. -/
inductive Act where
  | call (k : Nat) (args : CallArgs) (env : CallEnv)
  | send (k : Nat) (ret : Int)
  | finish (k : Nat)
  | recv (recvBuff : List Byte) (env : RecvEnv)
  /-- `gh_rm_validate_notif` of a queued connection, which frees it. -/
  | notifWork (a : Addr)

/-- One such step, `none` where it is not enabled. -/
def step (s : Core) : Act → Option Core
  | .call k args env =>
    match s.calls k with
    | .idle => ghRmCallStart s k args env
    | _ => none
  | .send k ret =>
    match s.calls k with
    | .sending a => some (ghRmCallSend s k a ret)
    | _ => none
  | .finish k =>
    match s.calls k with
    | .waiting a =>
      match s.heap a with
      | some c => if 0 < c.seqDone then some (ghRmCallFinish s k a c) else none
      | none => none
    | _ => none
  | .recv recvBuff env =>
    if s.task = none ∧ recvBuff.length ≤ GH_MSGQ_MAX_MSG_SIZE_BYTES then
      match ghRmRecvTask env s recvBuff with
      | .ok t => some t
      | .error (f, t) => some { t with task := some f }
    else none
  | .notifWork a =>
    if a ∈ s.works then some { s.free a with works := s.works.erase a } else none

end GH.Impl.Rm
