import Gunyah.Impl.Rm.Core

/-!
# Connections that the receive task is not led to

A message leads the receive task to a connection by its pending pointer, which the CONT messages go by, or by
the sequence number of a reply. `Spares` says that some messages lead it to none of a set of connections, and
`without` takes these away, and puts the calls wherever they may be.
-/

namespace GH.Spec.Rm

open GH.Impl GH.Impl.Rm

/-- Without the connections that are lost, and with other calls. -/
def without (lost : Addr → Bool) (calls : Nat → CallState) (s : Core) : Core :=
  { s with heap := fun a => if lost a then none else s.heap a, calls := calls }

/-- The pointer leads to nothing that is lost. -/
def Remains (lost : Addr → Bool) (p : Ptr) : Prop := ∀ a, p = .obj a → lost a = false

/-- Nothing is lost that the task may be led to on these messages. -/
structure Spares (lost : Addr → Bool) (msgs : List (List Byte)) (s : Core) : Prop where
  pending : Remains lost s.pending
  new : ∀ a, s.next ≤ a → lost a = false
  reply : ∀ msg ∈ msgs, (rpcHdr msg).type = GH_RM_RPC_TYPE_RPLY → ∀ a, s.idr (rpcHdr msg).seq = some a →
    lost a = false

/-- The receive task gets a message. -/
def received (m : List Byte × RecvEnv) : Act := .recv m.1 m.2

end GH.Spec.Rm
