import Gunyah.Impl.Handlers

/-!
# What the handlers read

A handler is called with a pointer to the payload of a notification, whose size
it does not get. It must stay inside the payload, for every notification that
`gh_rm_validate_notif` passes on, whether the handler is interested in it or
not.
-/

namespace GH.Spec.Handlers

open GH.Impl GH.Impl.Rm GH.Impl.Irq GH.Impl.Main GH.Impl.Handlers

/-- The function reads bytes of the payload only. -/
def Inside {α : Type} (x : ReadM α) (p : List Byte) : Prop := ∀ i ∈ x.reads p, i < p.length

/-- What the handlers know when the chain is called. -/
structure ChainEnv where
  status : StatusNbEnv
  /-- The VM of a `gh_vm_rm_notifier_fn`. -/
  vm : GhVm
  irqs : IrqTable
  getVmName : VmId → Except Int VmName
  entries : MemNotifierEntries
  room : VmName → Nat

/-- Every handler of the chain stays inside the payload. -/
structure ChainInside (env : ChainEnv) (cmd : BitVec 32) (p : List Byte) : Prop where
  vmStatus : Inside (ghVmStatusNbHandler env.status cmd) p
  vmRm : Inside (ghVmRmNotifierFn env.vm cmd) p
  irqLent : Inside (ghIrqLentNbHandler env.irqs env.getVmName cmd) p
  irqReleasedAccepted : Inside (ghIrqReleasedAcceptedNbHandler env.irqs cmd) p
  mem : Inside (ghMemNotifierCall env.entries cmd) p
  console : Inside (ghHvcNotifyConsoleChars env.getVmName env.room cmd) p
  guestPops : Inside (ghGuestPopsRmNotiferFn cmd) p

end GH.Spec.Handlers
