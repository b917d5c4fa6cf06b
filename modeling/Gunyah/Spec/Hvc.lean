import Gunyah.Impl.Hvc

/-!
# The order of a console's output

The console of a VM as a machine: threads that write to it, flush it and close
it, and the worker that runs `put_work`, step by step. The history says what
`gh_hvc_put_chars` has accepted and what `gh_rm_console_write` has been given.
-/

namespace GH.Spec.Hvc

open GH.Impl GH.Impl.Hvc

/-- Who runs `gh_hvc_put_work_fn`. -/
inductive Runner where
  | worker
  | thread (i : Nat)
  deriving DecidableEq, Repr

/-- A console, with the threads that put characters, flush it and write it out. -/
structure Console where
  putFifo : List Byte
  putWork : Work
  threads : Nat → ThreadPc
  /-- What `gh_hvc_put_chars` has accepted. -/
  accepted : List Byte
  /-- What `gh_rm_console_write` has been given. -/
  given : List Byte

/-- Nothing has been put. -/
def Console.init : Console where
  putFifo := []
  putWork := {}
  threads := fun _ => .out
  accepted := []
  given := []

/-- What the tty layer, the worker and the threads do. -/
inductive ConsoleAct where
  | putChars (buf : List Byte)
  /-- `gh_hvc_flush` or `gh_hvc_notify_del` is called. -/
  | call (i : Nat) (c : Caller)
  /-- A thread makes a step, other than in `gh_hvc_put_work_fn`. -/
  | thread (i : Nat) (ret : Int)
  /-- The worker takes up the work item. -/
  | start
  /-- A run of `gh_hvc_put_work_fn` makes a step. -/
  | work (r : Runner) (ret : Int)

/-- Where the run of `gh_hvc_put_work_fn` is, if there is one. -/
def Console.pc (s : Console) : Runner → Option WorkPc
  | .worker => s.putWork.running
  | .thread i =>
    match s.threads i with
    | .work _ pc => some pc
    | _ => none

/-- The run goes on, or returns. -/
def Console.setPc (s : Console) (pc : Option WorkPc) : Runner → Console
  | .worker => { s with putWork := { s.putWork with running := pc } }
  | .thread i =>
    match s.threads i with
    | .work c _ => { s with threads := Function.update s.threads i (pc.elim (.last c) (.work c)) }
    | _ => s

/-- What a run has taken out of the FIFO and has not given to `gh_rm_console_write`. -/
def held : WorkPc → List Byte
  | .write buf => buf
  | _ => []

/-- One such step, `none` where it is not enabled. -/
def consoleStep (s : Console) : ConsoleAct → Option Console
  | .putChars buf =>
    let (fifo, w, ret) := ghHvcPutChars s.putFifo s.putWork buf
    some { s with putFifo := fifo, putWork := w, accepted := s.accepted ++ buf.take ret }
  | .call i c =>
    if s.threads i = .out then some { s with threads := Function.update s.threads i c.start } else none
  | .thread i ret =>
    (ghHvcThreadStep s.putWork ret (s.threads i)).map fun (w, pc) =>
      { s with putWork := w, threads := Function.update s.threads i pc }
  | .start => s.putWork.start.map fun w => { s with putWork := w }
  | .work r ret =>
    (s.pc r).map fun pc =>
      let (fifo, pc') := ghHvcPutWorkStep s.putFifo ret pc
      { s with putFifo := fifo, given := s.given ++ held pc }.setPc pc' r

/-- What has been given is the beginning of what has been accepted. -/
def InOrder (s : Console) : Prop := s.given <+: s.accepted

instance : DecidablePred InOrder := fun s => inferInstanceAs (Decidable (s.given <+: s.accepted))

/-- A run of `gh_hvc_put_work_fn` takes bytes out of the FIFO only while no run holds
any. -/
def TakesAlone (s : Console) : ConsoleAct → Console → Prop
  | .work r _, _ => s.pc r = some .take → ∀ r' pc, s.pc r' = some pc → held pc = []
  | _, _ => True

end GH.Spec.Hvc
