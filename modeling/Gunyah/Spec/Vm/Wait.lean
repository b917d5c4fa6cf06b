import Gunyah.Impl.Vm.Wait

/-!
# What the threads that wait for a VM can rely on

A thread does not sleep while the VM has the status that it waits for, except until the
notification that has written the status wakes it. One that waits for the
exit of the VM returns only after the VM has exited, if no signal ends the wait, and what
it reports is the exit type of a notification.
-/

namespace GH.Spec.Wait

open GH.Impl GH.Impl.Main GH.Impl.Wait GH.WaitQueue

/-- A notification is going to wake the threads in this function. -/
def Owed (notifs : Nat → NotifPc) (f : Waiter) : Prop :=
  ∃ j ws, notifs j = .wake ws ∧ ∃ w ∈ ws, w.reaches f = true

/-- No waiter is left asleep, and the ones that wait for the exit return an exit type that was notified. -/
structure Right (s : VmWait) : Prop where
  noLost : NoLost s.holds (Owed s.notifs) s.threads
  exited : ∀ f r, (f, r) ∈ s.returned → f.status = GH_RM_VM_STATUS_EXITED →
    r = some (-ERESTARTSYS) ∨ (s.exits ≠ [] ∧ ∀ v, r = some v → v ∈ s.exits)

end GH.Spec.Wait
