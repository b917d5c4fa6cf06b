import Gunyah.Impl.Proxy.Sleep

/-!
# Waking up vCPUs

The threads of the vCPUs of a VM, the interrupts of the vCPUs
(`gh_vcpu_irq_handler`) and the exit of the VM (`gh_wakeup_all_vcpus`), step by
step. `gh_vcpu_wake_up` sets `abort_sleep` first and wakes the thread then. The
history says of each vCPU whether an interrupt has set `abort_sleep` since its
last reset, and whether `gh_wakeup_all_vcpus` is at its end.
-/

namespace GH.Spec.Proxy

open GH.Impl GH.Impl.Proxy

/-- Where a `gh_vcpu_irq_handler` is. -/
inductive IrqPc where
  | out
  /-- It sets `abort_sleep` of the vCPU. -/
  | set (j : Nat)
  /-- It calls `wake_up`. -/
  | wake (j : Nat)
  deriving DecidableEq, Repr

/-- Where a `gh_wakeup_all_vcpus` is. -/
inductive ExitPc where
  | out
  /-- It tests `is_active`. -/
  | test
  /-- It clears `is_active`. -/
  | clear
  /-- It is at the head of its loop. -/
  | loop (i : Nat)
  /-- It sets `abort_sleep` of the vCPU. -/
  | set (i : Nat)
  /-- It calls `wake_up`. -/
  | wake (i : Nat)
  deriving DecidableEq, Repr

/-- The threads of the vCPUs, the handlers, and the exit of the VM. -/
structure SleepState where
  isActive : Bool
  isVcpuInfoPopulated : Bool
  vcpuCount : Nat
  vcpus : Nat → RunVcpu
  irqs : Nat → IrqPc
  exit : ExitPc
  /-- An interrupt has set `abort_sleep` since its last reset. -/
  since : Nat → Bool
  /-- `gh_wakeup_all_vcpus` has come to the end of its loop. -/
  exited : Bool

/-- A VM with `n` vCPUs that run not yet. -/
def SleepState.init (n : Nat) : SleepState where
  isActive := true
  isVcpuInfoPopulated := true
  vcpuCount := n
  vcpus := fun _ => {}
  irqs := fun _ => .out
  exit := .out
  since := fun _ => false
  exited := false

/-- A vCPU with its thread is changed. -/
def SleepState.setVcpu (s : SleepState) (j : Nat) (c : RunVcpu) : SleepState :=
  { s with vcpus := Function.update s.vcpus j c }

/-- What happens: a call, a step of a thread or a handler, or a signal. -/
inductive SleepAct where
  /-- `gh_vcpu_run` is called. -/
  | call (j : Nat)
  /-- The thread makes a step. -/
  | run (j : Nat) (ret : Int) (vcpuState : VcpuState)
  /-- The interrupt of a vCPU comes. -/
  | irq (k : Nat) (j : Nat)
  /-- A handler makes a step. -/
  | handler (k : Nat)
  /-- The VM exits. -/
  | exit
  /-- `gh_wakeup_all_vcpus` makes a step. -/
  | exitStep
  /-- The thread of a vCPU gets a signal. -/
  | signal (j : Nat)
  /-- The signal is handled, outside of `gh_vcpu_run`. -/
  | handled (j : Nat)

/-- What happens, where it can. -/
def sleepStep (s : SleepState) : SleepAct → Option SleepState
  | .call j =>
    if j < s.vcpuCount ∧ (s.vcpus j).pc = .out then some (s.setVcpu j { s.vcpus j with pc := .entry }) else none
  | .run j ret vcpuState =>
    (ghVcpuRunStep s.isActive ret vcpuState (s.vcpus j)).map fun c =>
      { s.setVcpu j c with
        since := if (s.vcpus j).pc = .reset then Function.update s.since j false else s.since }
  | .irq k j =>
    if s.irqs k = .out then
      some { s with irqs := Function.update s.irqs k (if s.isVcpuInfoPopulated then .set j else .out) }
    else none
  | .handler k =>
    match s.irqs k with
    | .out => none
    | .set j =>
      some { s.setVcpu j { s.vcpus j with abortSleep := true } with
        irqs := Function.update s.irqs k (.wake j)
        since := Function.update s.since j true }
    | .wake j => some { s.setVcpu j (s.vcpus j).wakeUp with irqs := Function.update s.irqs k .out }
  | .exit => if s.exit = .out then some { s with exit := .test } else none
  | .exitStep =>
    match s.exit with
    | .out => none
    | .test => some { s with exit := if s.isActive then .clear else .out }
    | .clear => some { s with isActive := false, exit := .loop 0 }
    | .loop i => some (if i < s.vcpuCount then { s with exit := .set i } else { s with exit := .out, exited := true })
    | .set i => some { s.setVcpu i { s.vcpus i with abortSleep := true } with exit := .wake i }
    | .wake i => some { s.setVcpu i (s.vcpus i).wakeUp with exit := .loop (i + 1) }
  | .signal j => some (s.setVcpu j { s.vcpus j with signal := true }.wakeUp)
  | .handled j => if (s.vcpus j).pc = .out then some (s.setVcpu j { s.vcpus j with signal := false }) else none

/-- The number of steps of the thread, at most, until it runs the vCPU or is out of
`gh_vcpu_run`, where `abort_sleep` is set. -/
def toRun : VcpuPc → Nat
  | .out | .hypercall => 0
  | .reset => 1
  | .entry | .activeTest _ => 2
  | .signalTest _ => 3
  | .waitTest => 4
  | .prepare => 5
  | .blocked | .waitFirst => 6
  | .sleepTest => 7

/-- With an interrupt since the last reset of `abort_sleep`, the thread is not
asleep, other than until the handler wakes it. Where it is not asleep it has a
next step, also in the wait queue, and every step that it makes brings it closer
to the next run of the vCPU, or out of the loop. -/
structure NotSleptThrough (s : SleepState) (j : Nat) : Prop where
  woken : s.since j = true → (s.vcpus j).asleep = true → ∃ k, s.irqs k = .wake j
  goes : s.since j = true → (s.vcpus j).asleep = false → (s.vcpus j).pc ≠ .out →
    ∀ ret st, ∃ c, ghVcpuRunStep s.isActive ret st (s.vcpus j) = some c
  next : s.since j = true → ∀ ret st c, ghVcpuRunStep s.isActive ret st (s.vcpus j) = some c →
    (s.vcpus j).pc = .hypercall ∨ toRun c.pc < toRun (s.vcpus j).pc

/-- After the exit of the VM, no thread is asleep with `abort_sleep` false. -/
def ReleasedOnExit (s : SleepState) : Prop :=
  s.exited = true → s.isActive = false →
    ∀ j < s.vcpuCount, ¬ ((s.vcpus j).asleep = true ∧ (s.vcpus j).abortSleep = false)

/-- `gh_wakeup_all_vcpus` has set `abort_sleep` of the vCPU. -/
def SleepState.exitSet (s : SleepState) (j : Nat) : Bool :=
  match s.exit with
  | .loop i | .set i => j < i
  | .wake i => j ≤ i
  | _ => s.exited

/-- A thread does not reset `abort_sleep` at the head of its loop after
`gh_wakeup_all_vcpus` has set it. -/
def ResetsBeforeExit (s : SleepState) : SleepAct → SleepState → Prop
  | .run j _ _, _ => (s.vcpus j).pc = .reset → s.exitSet j = false
  | _, _ => True

instance (s : SleepState) : (act : SleepAct) → (t : SleepState) → Decidable (ResetsBeforeExit s act t)
  | .run j _ _, _ => inferInstanceAs (Decidable ((s.vcpus j).pc = .reset → s.exitSet j = false))
  | .call _, _ | .irq _ _, _ | .handler _, _ | .exit, _ | .exitStep, _ | .signal _, _ | .handled _, _ => isTrue trivial

end GH.Spec.Proxy
