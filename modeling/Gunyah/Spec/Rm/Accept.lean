import Gunyah.Impl.Rm.Accept
import Gunyah.Framework.Driven
import Gunyah.Spec.Rm.Iface

/-!
# Accepting a memory parcel

`gh_rm_mem_accept` where its calls end as a stream of outcomes says: the requests that
it makes, and what the replies to them are to it.
-/

namespace GH.Spec.Rm

open GH.Impl GH.Impl.Rm

/-! ## Replies -/

/-- The payload of the reply, and its size. -/
def Outcome.reply : Outcome → List Byte
  | .answered payload _ => payload.getD []
  | _ => []

/-- The size of the payload. -/
def Outcome.size : Outcome → Nat
  | .answered _ size => size
  | _ => 0

/-- The reply has the size that it must have: it is empty where the caller gave the SG list, and otherwise it has a
header of 4 bytes and the entries, of 16 bytes each, that the header says. -/
def Passes (a : AcceptArgs) (x : Outcome) : Prop :=
  x.Answered ∧ x.size = if a.sglDesc.isSome then 0 else 4 + 16 * respNSglEntries x.reply

/-- The reply says that there are other fragments. -/
def Incomplete (x : Outcome) : Prop := respFlags x.reply &&& GH_MEM_ACCEPT_RESP_INCOMPLETE ≠ 0

instance (x : Outcome) : Decidable (Incomplete x) := inferInstanceAs (Decidable (_ ≠ _))

/-- The reply takes the function from `s` to `t`, and its fragment is checked and gathered: the fragments that there
are then are those that were there and it, and their number of entries is the sum. -/
structure Gathers (a : AcceptArgs) (s : Accept) (x : Outcome) (t : Accept) : Prop where
  passes : Passes a x
  fragment : x.size ≠ 0
  kept : t.gather.list.Perm (respSglEntries x.reply :: s.gather.list)
  entries : t.gather.nSglEntries.toNat = s.gather.nSglEntries.toNat + respNSglEntries x.reply

/-! ## Runs -/

/-- What an outcome does. -/
def acceptStep (a : AcceptArgs) (env : AcceptEnv) (s : Accept) (x : Outcome) : Option Accept :=
  s.step a env x.callRet

/-- The function after `k` calls. -/
def acceptAt (a : AcceptArgs) (env : AcceptEnv) (xs : Nat → Outcome) (k : Nat) : Accept :=
  driven (acceptStep a env) (.start a env) xs k

/-- The requests of the first `n` calls. -/
def acceptSent (a : AcceptArgs) (env : AcceptEnv) (xs : Nat → Outcome) (n : Nat) : List CallArgs :=
  emitted (acceptStep a env) (Accept.request a env) (.start a env) xs n

/-- A request to accept, with `GH_RM_MEM_ACCEPT_DONE`. -/
def carriesDone (args : CallArgs) : Bool :=
  args.messageId == GH_RM_RPC_MSG_ID_CALL_MEM_ACCEPT &&
    args.reqBuff.any fun payload => payload.getD 6 0 &&& GH_RM_MEM_ACCEPT_DONE != 0

/-- Call `k` is one to accept, and succeeds. -/
def Succeeded (a : AcceptArgs) (env : AcceptEnv) (xs : Nat → Outcome) (k : Nat) : Prop :=
  (∃ args, (acceptAt a env xs k).request a env = some args ∧ args.messageId = GH_RM_RPC_MSG_ID_CALL_MEM_ACCEPT) ∧
    (xs k).Answered

/-- Call `k` is one of the loop, and its reply has the last fragment. -/
def GathersLast (a : AcceptArgs) (env : AcceptEnv) (xs : Nat → Outcome) (k : Nat) : Prop :=
  (acceptAt a env xs k).pc = .accept ∧ ¬ Incomplete (xs k) ∧
    Gathers a (acceptAt a env xs k) (xs k) (acceptAt a env xs (k + 1))

/-- The request of `gh_rm_mem_release`. -/
def releaseArgs (handle : BitVec 32) : CallArgs :=
  ⟨GH_RM_RPC_MSG_ID_CALL_MEM_RELEASE, some (u32Bytes handle ++ [0, 0, 0, 0]), true⟩

/-! ## Fragments -/

/-- The entries in the first `n` replies, a list for each. -/
def fragments (xs : Nat → Outcome) (n : Nat) : List (List SglEntry) :=
  (List.range n).map fun k => respSglEntries (xs k).reply

/-- The number of entries in the first `n` replies. -/
def total (xs : Nat → Outcome) (n : Nat) : Nat := ((List.range n).map fun k => respNSglEntries (xs k).reply).sum

/-- The function gets to its first call. -/
def Asks (a : AcceptArgs) (env : AcceptEnv) : Prop := ∃ args, (acceptAt a env (fun _ => .aborted) 0).request a env = some args

/-- All allocations succeed. -/
structure Allocated (env : AcceptEnv) : Prop where
  alloc : env.alloc = true
  gather : env.gather = true
  entry : ∀ k, env.entry k = true
  combine : env.combine = true

/-- The first `n` replies are an SG list in fragments. -/
structure InFragments (a : AcceptArgs) (xs : Nat → Outcome) (n : Nat) : Prop where
  some : 0 < n
  passes : ∀ k < n, Passes a (xs k)
  more : ∀ k, k + 1 < n → Incomplete (xs k)
  last : ¬ Incomplete (xs (n - 1))
  total : total xs n ≤ 65535

/-- The function returns a descriptor. -/
def Returns (a : AcceptArgs) (env : AcceptEnv) (xs : Nat → Outcome) (nSglEntries : BitVec 16)
    (sglEntries : List SglEntry) : Prop :=
  ∃ n, (acceptAt a env xs n).pc = .ret (.ok (some (nSglEntries, sglEntries)))

/-- At most one of the lists has elements. -/
def AtMostOne {α : Type*} (frags : List (List α)) : Prop := (frags.filter fun f => !f.isEmpty).length ≤ 1

instance {α : Type*} (frags : List (List α)) : Decidable (AtMostOne frags) := inferInstanceAs (Decidable (_ ≤ _))

/-- The lists have the same elements in the same order, whether the first or the last of them comes first: there
is no second list with elements, or elements occur again. -/
def SameBothWays {α : Type*} (frags : List (List α)) : Prop :=
  AtMostOne frags ∨ ¬ frags.flatten.Nodup ∧ frags.reverse.flatten = frags.flatten

/-! ## Turns of the loop -/

/-- The turns of the loop among the first `n` calls. -/
def loopTurns (a : AcceptArgs) (env : AcceptEnv) (xs : Nat → Outcome) (n : Nat) : Nat :=
  (List.range n).countP fun k => (acceptAt a env xs k).pc = .accept

/-- One of the first 65536 turns is the last: its reply is the last fragment, or cannot be kept, or
the replies have too many entries by then. -/
def EndsInTime (a : AcceptArgs) (env : AcceptEnv) (xs : Nat → Outcome) : Prop :=
  a.sglDesc.isSome = true ∨ (∃ k < 65536, ¬ Incomplete (xs k) ∨ env.entry k = false) ∨ 65535 < total xs 65536

end GH.Spec.Rm
