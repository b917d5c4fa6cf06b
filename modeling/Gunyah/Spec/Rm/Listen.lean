import Gunyah.Impl.Rm.Tx
import Gunyah.Framework.Frames
import Gunyah.Spec.Rm.Api

/-!
# The other end of the message queue

The resource manager reads all that the queue has taken, whoever has sent it. A
request that breaks off, because its sender has given up, is followed by the first message
of another, and is passed over (`rmReader`). `HeardOnce` is what the senders are promised.
-/

namespace GH.Spec.Rm

open GH.Impl GH.Impl.Rm

/-- The resource manager reads series: a request starts one, and says how many messages follow. -/
def rmReader : Reader (List Byte) (BitVec 16 × Ask) where
  starts m := (rpcHdr m).type = GH_RM_RPC_TYPE_REQ
  size m := (rpcHdr m).fragments.toNat
  frame := hears
  frame_nil := rfl
  of_frame {m ms x} h := by
    -- `requestOf` takes a series only with all of its header checks
    cases hr : requestOf (m :: ms) with
    | none => simp [hears, hr] at h
    | some x =>
      rw [requestOf] at hr
      split_ifs at hr with hreq
      refine ⟨hreq.1, hreq.2.1.symm, fun m' hm' => ?_⟩
      rw [hreq.2.2 m' hm']
      exact (by decide : GH_RM_RPC_TYPE_CONT ≠ GH_RM_RPC_TYPE_REQ)

/-- The request is the one that the function makes. -/
def Makes (c : ApiCall) (r : Request) : Prop :=
  ∃ env args, c.sends env = some args ∧ args.reqBuff = some r.reqBuff ∧ args.messageId = r.messageId

/-- What is heard is what these threads ask, one after the other, each once; a thread that has
returned is among them exactly if it has returned 0. -/
def HeardOnce (calls : Nat → ApiCall) (reqs : Nat → Request) (s : TxState) : Prop :=
  ∃ ks : List Nat,
    (rmReader.listen (s.accepted.map (·.msg))).map some = ks.map (fun k => (calls k).asks.map ((reqs k).seq, ·)) ∧
      ks.Nodup ∧ ∀ k ret, s.threads k = .ret ret → (k ∈ ks ↔ ret = 0)

end GH.Spec.Rm
