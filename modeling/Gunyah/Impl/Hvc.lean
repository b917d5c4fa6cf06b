import Mathlib.Logic.Function.Basic
import Gunyah.Impl.Kernel

/-!
# The console of a VM

`hvc_gunyah.c`, for one VM: what is written to the console is kept in
`put_fifo`, and `put_work` sends it to the RM in pieces. The work item runs in
a worker of the kernel, one run at a time; `gh_hvc_flush` and
`gh_hvc_notify_del` cancel it, wait for its run to end, and call its function
themselves if it was pending. The range checks of the VM's name, and the
characters read from the console (`get_fifo`), are left out.
-/

namespace GH.Impl.Hvc

/-- The size of `put_fifo`. -/
def PUT_FIFO_SIZE : Nat := 1024

/-- The payload of a `CONSOLE_WRITE` of one fragment. -/
def GH_HVC_WRITE_MSG_SIZE : Nat := 1 * (240 - 8) - 4

/-- `kfifo_in`: the FIFO, and how many bytes of `buf` it has taken. -/
def kfifoIn (fifo buf : List Byte) : List Byte × Nat :=
  let n := min buf.length (PUT_FIFO_SIZE - fifo.length)
  (fifo ++ buf.take n, n)

/-- `kfifo_out`: the FIFO, and the bytes taken out of it, at most `n`. -/
def kfifoOut (fifo : List Byte) (n : Nat) : List Byte × List Byte := (fifo.drop n, fifo.take n)

/-- Where a run of `gh_hvc_put_work_fn` is. -/
inductive WorkPc where
  /-- It calls `gh_rm_get_vmid`. -/
  | getVmid
  /-- It tests `kfifo_is_empty`, at the head of its loop. -/
  | test
  /-- It takes bytes out of the FIFO. -/
  | take
  /-- It calls `gh_rm_console_write`. -/
  | write (buf : List Byte)
  deriving DecidableEq, Repr

/-- A step of `gh_hvc_put_work_fn`: the FIFO, and where the run is then, if it does
not return. `ret` is the answer of the RM call that the step makes, if it makes one. -/
def ghHvcPutWorkStep (fifo : List Byte) (ret : Int) : WorkPc → List Byte × Option WorkPc
  | .getVmid => (fifo, if ret = 0 then some .test else none)
  | .test => (fifo, if fifo = [] then none else some .take)
  | .take =>
    let (fifo, buf) := kfifoOut fifo GH_HVC_WRITE_MSG_SIZE
    (fifo, some (if buf.length = 0 then .test else .write buf))
  | .write _ => (fifo, if ret = 0 then some .test else none)

/-- The two that call `gh_hvc_put_work_fn` themselves. -/
inductive Caller where
  /-- `gh_hvc_flush`, with `wait`. -/
  | flush
  | notifyDel
  deriving DecidableEq, Repr

/-- Where a thread is. -/
inductive ThreadPc where
  | out
  /-- `gh_hvc_flush` calls `gh_rm_get_vmid`. -/
  | getVmid
  /-- It calls `cancel_work_sync`. -/
  | cancel (c : Caller)
  /-- It waits in `cancel_work_sync`, which has found the work pending or not. -/
  | wait (c : Caller) (pending : Bool)
  /-- It is in `gh_hvc_put_work_fn`. -/
  | work (c : Caller) (pc : WorkPc)
  /-- It makes the last calls, `gh_rm_console_flush` or `gh_rm_console_close`. -/
  | last (c : Caller)
  deriving DecidableEq, Repr

/-- Where a thread starts: only `gh_hvc_flush` asks for the VMID first. -/
def Caller.start : Caller → ThreadPc
  | .flush => .getVmid
  | .notifyDel => .cancel .notifyDel

/-- `put_work`: whether it is queued, and the run of it that the worker is in. -/
structure Work where
  pending : Bool := false
  running : Option WorkPc := none
  deriving DecidableEq, Repr

/-- `schedule_work`. -/
def Work.schedule (w : Work) : Work := { w with pending := true }

/-- The worker takes up the work item. -/
def Work.start (w : Work) : Option Work :=
  if w.pending ∧ w.running = none then some { pending := false, running := some .getVmid } else none

/-- A step of a thread outside of `gh_hvc_put_work_fn`: `none` where it waits, or
there is none. `cancel_work_sync` removes the work from the queue, and waits until the worker
is not in it. Others can queue it anew meanwhile, which some kernels refuse. -/
def ghHvcThreadStep (w : Work) (ret : Int) : ThreadPc → Option (Work × ThreadPc)
  | .getVmid => some (w, if ret = 0 then .cancel .flush else .out)
  | .cancel c => some ({ w with pending := false }, .wait c w.pending)
  | .wait c pending =>
    if w.running = none then some (w, if pending then .work c .getVmid else .last c) else none
  | .last _ => some (w, .out)
  | .out | .work _ _ => none

/-- `gh_hvc_put_chars`: the FIFO, the work, and what it returns. -/
def ghHvcPutChars (fifo : List Byte) (w : Work) (buf : List Byte) : List Byte × Work × Nat :=
  let (fifo, ret) := kfifoIn fifo buf
  (fifo, if 0 < ret then w.schedule else w, ret)

end GH.Impl.Hvc
