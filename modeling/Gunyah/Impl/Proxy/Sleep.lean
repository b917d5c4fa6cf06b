import Gunyah.Impl.Proxy.Sched

/-!
# A vCPU's thread and its sleep

`gh_vcpu_run` of `gh_proxy_sched.c` again, with the other threads and the
interrupts of the VM between its accesses to the flags: where the thread is
(`VcpuPc`) says what it does next. `gh_vcpu_sleep` waits on the vCPU's wait
queue: `wait_event_interruptible` tests its condition, enters the thread into
the queue (`prepare`), tests the condition again, and gives up the CPU if it is
false; `wake_up`, and a signal, make a thread that is in the queue run again.
The wakeup source and the watchdog of the vCPU are left out.
-/

namespace GH.Impl.Proxy

/-- Where a thread is in `gh_vcpu_run`. -/
inductive VcpuPc where
  | out
  /-- It tests `is_active`, before the loop. -/
  | entry
  /-- It resets `abort_sleep`, at the head of the loop. -/
  | reset
  | hypercall
  /-- It tests `abort_sleep` and for a signal, in `gh_vcpu_sleep`. -/
  | sleepTest
  /-- It tests the condition of `wait_event_interruptible`. -/
  | waitFirst
  /-- It enters itself into the wait queue. -/
  | prepare
  /-- It tests the condition again. -/
  | waitTest
  /-- It has given up the CPU. -/
  | blocked
  /-- It tests for a signal. -/
  | signalTest (ret : Int)
  /-- It tests `ret` and `is_active`, at the end of the loop. -/
  | activeTest (ret : Int)
  deriving DecidableEq, Repr

/-- A vCPU and its thread. -/
structure RunVcpu where
  abortSleep : Bool := false
  pc : VcpuPc := .out
  /-- The thread has been made to run again since it entered the wait queue. -/
  woken : Bool := false
  /-- A signal is pending. -/
  signal : Bool := false
  deriving DecidableEq, Repr

/-- The thread is asleep. -/
def RunVcpu.asleep (c : RunVcpu) : Bool := c.pc = .blocked ∧ c.woken = false

/-- `wake_up`, on the wait queue. -/
def RunVcpu.wakeUp (c : RunVcpu) : RunVcpu :=
  if c.pc = .waitTest ∨ c.pc = .blocked then { c with woken := true } else c

/-- A step of `gh_vcpu_run`: `none` where the thread is asleep, or not in it. `ret`
and `vcpuState` are what the hypervisor answers, if it is asked. -/
def ghVcpuRunStep (isActive : Bool) (ret : Int) (vcpuState : VcpuState) (c : RunVcpu) : Option RunVcpu :=
  match c.pc with
  | .out => none
  | .entry => some { c with pc := if isActive then .reset else .out }
  | .reset => some { c with abortSleep := false, pc := .hypercall }
  | .hypercall =>
    some { c with
      pc :=
        if ret = GH_ERROR_OK ∧ (vcpuState = .expectsWakeup ∨ vcpuState = .poweredOff) then .sleepTest
        else .signalTest ret }
  | .sleepTest =>
    some { c with pc := if c.abortSleep = false ∧ c.signal = false then .waitFirst else .signalTest GH_ERROR_OK }
  | .waitFirst => some { c with pc := if c.abortSleep then .signalTest GH_ERROR_OK else .prepare }
  | .prepare =>
    some (if c.signal then { c with pc := .signalTest GH_ERROR_OK } else { c with pc := .waitTest, woken := false })
  | .waitTest => some { c with pc := if c.abortSleep then .signalTest GH_ERROR_OK else .blocked }
  | .blocked => if c.woken then some { c with pc := .prepare } else none
  | .signalTest ret => some { c with pc := if c.signal then .out else .activeTest ret }
  | .activeTest ret =>
    some { c with pc := if (ret = GH_ERROR_OK ∨ ret = GH_ERROR_RETRY) ∧ isActive then .reset else .out }

end GH.Impl.Proxy
