import Mathlib.Data.List.Chain
import Gunyah.Impl.Proxy.Watchdog
import Gunyah.Framework.Run

/-!
# A vCPU's watchdog

The watchdog is frozen or not (`wdogStep`): only the other of the two can be
asked for, and the vCPU does not run while it is frozen. What this says of the
hypercalls is that FREEZE and UNFREEZE alternate (`Alternates`) and that no run
falls between a FREEZE and the next UNFREEZE (`RunsUnfrozen`).
-/

namespace GH.Spec.Proxy

open GH.Impl GH.Impl.Proxy

/-- The watchdog, `true` where it is frozen. -/
def wdogStep : Bool → VcpuCall → Option Bool
  | false, .freeze => some true
  | false, .run => some false
  | true, .unfreeze => some false
  | _, _ => none

/-- The operations on the watchdog. -/
def wdogOps (calls : List VcpuCall) : List VcpuCall := calls.filter (· ≠ .run)

/-- FREEZE, UNFREEZE, FREEZE, ... -/
def Alternates (calls : List VcpuCall) : Prop :=
  (wdogOps calls).head? ≠ some .unfreeze ∧ (wdogOps calls).IsChain (· ≠ ·)

/-- Between a FREEZE and a later run there is an UNFREEZE. -/
def RunsUnfrozen (calls : List VcpuCall) : Prop :=
  ∀ l m r, calls = l ++ .freeze :: m ++ .run :: r → .unfreeze ∈ m

/-- The last operation on the watchdog is FREEZE. -/
def LeftFrozen (calls : List VcpuCall) : Prop := (wdogOps calls).getLast? = some .freeze

/-- A return with `-ERESTARTSYS` leaves the watchdog frozen, unless that is the
hypervisor's answer to the run of the vCPU and no signal is pending. -/
def RestartsFrozen (m : Runs) (a : RunAct) (t : Runs) : Prop :=
  a.returns m = some (-ERESTARTSYS) → ∃ p signal, a = .check p signal ∧
    (LeftFrozen (t.calls p) ∨ m.pc p = some (.ran (-ERESTARTSYS)) ∧ signal = false)

/-- The watchdog's flag of a vCPU, which is false where the slot has none. -/
def frozenFlag (s : Sched) (p : VcpuId) : Bool := (s.vcpu? p).any (·.wdogFrozen)

/-- The hypercalls for each vCPU since its slot was last reset are a run of its
watchdog, up to the state its flag says; an invocation has its vCPU. -/
structure WdogInv (m : Runs) : Prop where
  calls (p : VcpuId) : exec wdogStep false (m.calls p) = some (frozenFlag m.sched p)
  running (p : VcpuId) : m.pc p ≠ none → p.2 < GH_MAX_VCPUS_PER_VM ∧ (m.sched.vcpu? p).isSome

end GH.Spec.Proxy
