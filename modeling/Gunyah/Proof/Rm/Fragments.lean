import Gunyah.Impl.Rm.Send
import Gunyah.Proof.Rm.Deliver
import Gunyah.Proof.Rm.MemReq
import Mathlib.Data.List.Basic

/-!
# The fragments of a request

The series of messages `gh_rm_send_request` makes of a request
(`series_eq`): turn `i` sends the bytes from `232 * i` on. Read back by the
receive task as a notification, it gives the request again
(`sendRequest_roundTrip`).
-/

namespace GH.Proof.Rm

open GH.Impl GH.Impl.Rm GH.Spec.Rm

/-- A header is read as it was written. -/
theorem rpcHdr_bytes (h : RpcHdr) (rest : List Byte) : rpcHdr (h.bytes ++ rest) = h := by
  show RpcHdr.mk ((h.hdrWords ++ h.version).extractLsb' 0 4) ((h.hdrWords ++ h.version).extractLsb' 4 4)
    ((h.fragments ++ h.type).extractLsb' 0 2) ((h.fragments ++ h.type).extractLsb' 2 6)
    (h.seq.extractLsb' 8 8 ++ h.seq.extractLsb' 0 8)
    (h.msgId.extractLsb' 24 8 ++ h.msgId.extractLsb' 16 8 ++ h.msgId.extractLsb' 8 8 ++
      h.msgId.extractLsb' 0 8) = h
  rw [u16_join, u32_join, BitVec.extractLsb'_append_eq_right, BitVec.extractLsb'_append_eq_left,
    BitVec.extractLsb'_append_eq_right, BitVec.extractLsb'_append_eq_left]

theorem drop_bytes (h : RpcHdr) (rest : List Byte) : (h.bytes ++ rest).drop HDR_SIZE = rest := rfl

theorem length_bytes (h : RpcHdr) : h.bytes.length = HDR_SIZE := rfl

/-! ## The loop of `gh_rm_send_request` -/

/-- The number of messages of a request of `n` bytes. -/
def numMessages (n : Nat) : Nat := (n + 231) / 232

theorem lt_of_lt_numMessages {i n : Nat} (h : i < numMessages n) : 232 * i < n := by
  rw [numMessages] at h
  omega

variable {r : Request}

/-- `num_fragments` without wrapping. -/
theorem numFragments_toNat (h : 1 ≤ r.reqBuff.length) (h' : r.reqBuff.length < 2 ^ 32) :
    r.numFragments.toNat = numMessages r.reqBuff.length - 1 := by
  simp only [Request.numFragments, GH_RM_MAX_MSG_SIZE_BYTES, numMessages]
  rw [sizeAdd_eq (by omega), sizeSub_eq (by omega), BitVec.toNat_sub, BitVec.toNat_ofNat,
    show (1 : BitVec 32).toNat = 1 from rfl]
  omega

/-- The variables of turn `i`. -/
def loopAt (r : Request) : Nat → SendLoop
  | 0 => .init r
  | i + 1 => (loopAt r i).next

/-- Turn `i` has the bytes from `232 * i` on. -/
theorem loopAt_eq {i : Nat} (h : 232 * i < r.reqBuff.length) :
    loopAt r i = ⟨i, r.reqBuff.length - 232 * i, 232 * i⟩ := by
  induction i with
  | zero => rfl
  | succ i ih =>
    rw [loopAt, ih (by omega)]
    have hgt : r.reqBuff.length - 232 * i > GH_RM_MAX_MSG_SIZE_BYTES := by
      rw [GH_RM_MAX_MSG_SIZE_BYTES]
      omega
    simp only [SendLoop.next, SendLoop.payloadSize]
    rw [if_pos hgt, if_pos hgt, GH_RM_MAX_MSG_SIZE_BYTES, SendLoop.mk.injEq]
    omega

theorem sendFragments_ok (turns i : Nat) :
    sendFragments r (fun _ => 0) turns (loopAt r i) =
      ((List.range turns).map fun j => (loopAt r (i + j)).tx r, 0) := by
  induction turns generalizing i with
  | zero => rfl
  | succ turns ih =>
    have hnext : (loopAt r i).next = loopAt r (i + 1) := rfl
    have hidx : ∀ j, i + 1 + j = i + (j + 1) := fun j => by omega
    rw [sendFragments, if_neg (by simp), hnext, ih (i + 1), List.range_succ_eq_map, List.map_cons,
      List.map_map]
    simp only [hidx]
    rfl

/-- The series of a request. -/
theorem series_eq (h : 1 ≤ r.reqBuff.length) (h' : r.reqBuff.length ≤ 63 * 232) :
    ghRmSendRequest {} (fun _ => 0) r =
      ((List.range (numMessages r.reqBuff.length)).map fun i => (loopAt r i).tx r, 0) := by
  have hn := numFragments_toNat h (by omega)
  have hm : 1 ≤ numMessages r.reqBuff.length := by rw [numMessages]; omega
  have hle : ¬ r.numFragments.toNat > GH_RM_MAX_NUM_FRAGMENTS := by
    rw [hn, GH_RM_MAX_NUM_FRAGMENTS, numMessages]
    omega
  rw [ghRmSendRequest, if_neg (by simp), if_neg hle, if_neg (by simp), if_neg (by simp), hn,
    show SendLoop.init r = loopAt r 0 from rfl, sendFragments_ok]
  simp only [Nat.zero_add, Nat.sub_add_cancel hm]

/-- A request that is too long, or empty, is refused. -/
theorem sendRequest_refuse (h : r.reqBuff.length = 0 ∨ (63 * 232 < r.reqBuff.length ∧ r.reqBuff.length < 2 ^ 32))
    {env : SendEnv} (hd : env.desc = true) (send : Nat → Int) :
    ghRmSendRequest env send r = ([], -E2BIG) := by
  have hgt : r.numFragments.toNat > GH_RM_MAX_NUM_FRAGMENTS := by
    rcases h with h | ⟨h, h'⟩
    · have hz : r.numFragments = 0xFFFFFFFF := by
        rw [Request.numFragments, h]
        decide
      rw [hz]
      decide
    · rw [numFragments_toNat (by omega) h', numMessages, GH_RM_MAX_NUM_FRAGMENTS]
      omega
  rw [ghRmSendRequest, if_neg (by rw [hd]; decide), if_pos hgt]

/-! ## Its messages -/

/-- The bytes of the request in message `i`. -/
def chunk (r : Request) (i : Nat) : List Byte := (r.reqBuff.drop (232 * i)).take 232

theorem tx_msg {i : Nat} (h : 232 * i < r.reqBuff.length) :
    ((loopAt r i).tx r).msg = ((loopAt r i).hdr r).bytes ++ chunk r i := by
  rw [loopAt_eq h]
  simp only [SendLoop.tx, SendLoop.payloadSize, chunk]
  by_cases hgt : r.reqBuff.length - 232 * i > GH_RM_MAX_MSG_SIZE_BYTES
  · rw [if_pos hgt, GH_RM_MAX_MSG_SIZE_BYTES]
  · rw [if_neg hgt, List.take_of_length_le (by simp), List.take_of_length_le]
    rw [GH_RM_MAX_MSG_SIZE_BYTES] at hgt
    rw [List.length_drop]
    omega

theorem length_chunk {i : Nat} (h : 232 * i < r.reqBuff.length) :
    0 < (chunk r i).length ∧ (chunk r i).length ≤ 232 := by
  rw [chunk, List.length_take, List.length_drop]
  omega

/-- The chunks put together. -/
theorem flatMap_chunk (k : Nat) : (List.range k).flatMap (chunk r) = r.reqBuff.take (232 * k) := by
  induction k with
  | zero => simp
  | succ k ih =>
    rw [List.range_succ, List.flatMap_append, ih, List.flatMap_singleton, chunk, Nat.mul_succ, List.take_add]

theorem loopAt_i (i : Nat) : (loopAt r i).i = i := by
  induction i with
  | zero => rfl
  | succ i ih => rw [loopAt, SendLoop.next, ih]

/-- The messages are a series of fragments: their number and lengths, types and
ids, and the flag on the last. -/
structure IsSeries (r : Request) (txs : List Tx) : Prop where
  count : txs.length = numMessages r.reqBuff.length
  len : ∀ tx ∈ txs, tx.msg.length ≤ GH_MSGQ_MAX_MSG_SIZE_BYTES
  type : ∀ i (h : i < txs.length), (rpcHdr txs[i].msg).type =
    if i = 0 then GH_RM_RPC_TYPE_REQ else GH_RM_RPC_TYPE_CONT
  ids : ∀ tx ∈ txs, (rpcHdr tx.msg).seq = r.seq ∧ (rpcHdr tx.msg).msgId = r.messageId
  fragments : ∀ tx ∈ txs, (rpcHdr tx.msg).fragments.toNat = txs.length - 1
  push : ∀ i (h : i < txs.length), txs[i].flags = if i + 1 = txs.length then GH_MSGQ_TX_PUSH else 0

theorem isSeries (h : 1 ≤ r.reqBuff.length) (h' : r.reqBuff.length ≤ 63 * 232) :
    IsSeries r ((List.range (numMessages r.reqBuff.length)).map fun i => (loopAt r i).tx r) := by
  have hn := numFragments_toNat h (by omega)
  have hlt : ∀ i, i < numMessages r.reqBuff.length → 232 * i < r.reqBuff.length := fun i => lt_of_lt_numMessages
  have hhdr : ∀ i, i < numMessages r.reqBuff.length →
      rpcHdr ((loopAt r i).tx r).msg = (loopAt r i).hdr r := fun i hi => by
    rw [tx_msg (hlt i hi), rpcHdr_bytes]
  refine ⟨by simp, fun tx htx => ?_, fun i hi => ?_, fun tx htx => ?_, fun tx htx => ?_, fun i hi => ?_⟩
  · obtain ⟨i, hi, rfl⟩ := List.mem_map.mp htx
    have hi' := hlt i (List.mem_range.mp hi)
    have hc := length_chunk hi'
    rw [tx_msg hi', List.length_append, length_bytes, HDR_SIZE, GH_MSGQ_MAX_MSG_SIZE_BYTES]
    omega
  · rw [List.length_map, List.length_range] at hi
    rw [List.getElem_map, List.getElem_range, hhdr i hi, SendLoop.hdr]
    simp only [loopAt_i]
  · obtain ⟨i, hi, rfl⟩ := List.mem_map.mp htx
    rw [hhdr i (List.mem_range.mp hi)]
    exact ⟨rfl, rfl⟩
  · obtain ⟨i, hi, rfl⟩ := List.mem_map.mp htx
    rw [hhdr i (List.mem_range.mp hi), List.length_map, List.length_range, SendLoop.hdr, BitVec.toNat_setWidth, hn,
      numMessages]
    omega
  · rw [List.length_map, List.length_range] at hi
    rw [List.getElem_map, List.getElem_range, SendLoop.tx, loopAt_i, hn, List.length_map, List.length_range]
    simp only
    congr 1
    rw [eq_iff_iff]
    omega

/-! ## The round trip -/

/-- The message with another type. -/
def withType (t : BitVec 2) (m : List Byte) : List Byte := { rpcHdr m with type := t }.bytes ++ m.drop HDR_SIZE

/-- The series as a notification. -/
def asNotif : List (List Byte) → List (List Byte)
  | [] => []
  | m :: ms => withType GH_RM_RPC_TYPE_NOTIF m :: ms

/-- The receive task completes a notification on the last of the messages and
not earlier, and its payload is the request. -/
def RoundTrip (r : Request) (ms : List (List Byte)) (s : Core) : Prop :=
  (∀ j < ms.length, ∃ t, exec step s (recvAll (ms.take j)) = some t ∧ t.completed = s.completed) ∧
    ∃ t c, exec step s (recvAll ms) = some t ∧ t.completed = s.completed ++ [c] ∧
      c.type = GH_RM_RPC_TYPE_NOTIF ∧ c.size = r.reqBuff.length ∧
      c.payload.map (·.take c.size) = some r.reqBuff

/-- The start message of the notification. -/
theorem withType_tx (h : 1 ≤ r.reqBuff.length) :
    withType GH_RM_RPC_TYPE_NOTIF ((loopAt r 0).tx r).msg =
      { (loopAt r 0).hdr r with type := GH_RM_RPC_TYPE_NOTIF }.bytes ++ chunk r 0 := by
  rw [withType, tx_msg (by omega), rpcHdr_bytes, drop_bytes]

/-- The series as a notification is well formed, and its payload is the request. -/
theorem asNotif_wellFormed {k : Nat} (h : 1 ≤ r.reqBuff.length) (h' : r.reqBuff.length ≤ 63 * 232)
    (hk : numMessages r.reqBuff.length = k + 1) {start : List Byte} {conts : List (List Byte)}
    (hs : start = withType GH_RM_RPC_TYPE_NOTIF ((loopAt r 0).tx r).msg)
    (hc : conts = (List.range k).map fun j => ((loopAt r (j + 1)).tx r).msg) :
    (rpcHdr start).type = GH_RM_RPC_TYPE_NOTIF ∧ WellFormed start conts ∧ startPayload start ≠ [] ∧
      seriesPayload (start :: conts) = r.reqBuff := by
  have hlt : ∀ i, i < k + 1 → 232 * i < r.reqBuff.length := fun i hi => lt_of_lt_numMessages (hk ▸ hi)
  have hstart := hs.trans (withType_tx h)
  have hhdr : rpcHdr start = { (loopAt r 0).hdr r with type := GH_RM_RPC_TYPE_NOTIF } := by
    rw [hstart, rpcHdr_bytes]
  have hty : (rpcHdr start).type = GH_RM_RPC_TYPE_NOTIF := by rw [hhdr]
  have hlen : start.length = HDR_SIZE + (chunk r 0).length := by
    rw [hstart, List.length_append, length_bytes]
  have hpay : startPayload start = chunk r 0 := by
    rw [startPayload, startHdr_notif hty, hstart, drop_bytes]
  have hch := length_chunk (hlt 0 (by omega))
  have hnum : (rpcHdr start).fragments.toNat = k := by
    rw [hhdr]
    show (r.numFragments.setWidth 6).toNat = k
    rw [BitVec.toNat_setWidth, numFragments_toNat h (by omega), hk]
    rw [numMessages] at hk
    omega
  have hne : startPayload start ≠ [] := by
    rw [hpay]
    exact List.length_pos_iff.mp hch.1
  refine ⟨hty, ⟨.inr hty, ?_, ?_, ?_, ?_, fun _ => hne, fun m hm => ?_⟩, hne, ?_⟩
  · rw [startHdr_notif hty, hlen]
    omega
  · rw [hlen]
    omega
  · rw [hlen, HDR_SIZE, GH_MSGQ_MAX_MSG_SIZE_BYTES]
    omega
  · rw [hnum, hc, List.length_map, List.length_range]
  · rw [hc] at hm
    obtain ⟨j, hj, rfl⟩ := List.mem_map.mp hm
    have hj' := hlt (j + 1) (by have := List.mem_range.mp hj; omega)
    have hcj := length_chunk hj'
    have hl : ((loopAt r (j + 1)).tx r).msg.length = HDR_SIZE + (chunk r (j + 1)).length := by
      rw [tx_msg hj', List.length_append, length_bytes]
    rw [HDR_SIZE] at hl
    refine ⟨?_, ?_, ?_, ?_⟩
    · rw [tx_msg hj', rpcHdr_bytes, SendLoop.hdr, loopAt_i, if_neg (by omega)]
    · rw [tx_msg hj', rpcHdr_bytes, hhdr]
      rfl
    · rw [hl, HDR_SIZE]
      omega
    · rw [hl, GH_MSGQ_MAX_MSG_SIZE_BYTES]
      omega
  · have hconts : conts.flatMap contPayload = (List.range k).flatMap fun j => chunk r (j + 1) := by
      rw [hc, List.flatMap_map]
      refine List.flatMap_congr fun j hj => ?_
      rw [contPayload, tx_msg (hlt (j + 1) (by have := List.mem_range.mp hj; omega)), drop_bytes]
    have hall := flatMap_chunk (r := r) (k + 1)
    rw [List.range_succ_eq_map, List.flatMap_cons, List.flatMap_map,
      List.take_of_length_le (by rw [numMessages] at hk; omega)] at hall
    rw [seriesPayload, hpay, hconts]
    exact hall

theorem roundTrip (h : 1 ≤ r.reqBuff.length) (h' : r.reqBuff.length ≤ 63 * 232) {s : Core}
    (htask : s.task = none) (hp : s.pending = .null) :
    RoundTrip r (asNotif ((List.range (numMessages r.reqBuff.length)).map fun i => ((loopAt r i).tx r).msg)) s := by
  obtain ⟨k, hk⟩ : ∃ k, numMessages r.reqBuff.length = k + 1 :=
    ⟨numMessages r.reqBuff.length - 1, by rw [numMessages]; omega⟩
  obtain ⟨hty, hw, hne, hpay⟩ := asNotif_wellFormed h h' hk rfl rfl
  rw [hk, List.range_succ_eq_map, List.map_cons, List.map_map, asNotif]
  refine ⟨fun j hj => ?_, ?_⟩
  · cases j with
    | zero => exact ⟨s, rfl, rfl⟩
    | succ j =>
      rw [List.length_cons, Nat.add_lt_add_iff_right] at hj
      obtain ⟨t, ht, hpart⟩ := exec_notif_part hw hty htask hp hj
      exact ⟨t, ht, hpart.completed⟩
  · obtain ⟨t, ht, hdone⟩ := exec_notif hw hty htask hp
    obtain ⟨c, -, has, hcomp⟩ := hdone.holds
    obtain ⟨buf, hbuf, -, htake⟩ := has.payload hne
    refine ⟨t, c, ht, hcomp, has.type.trans hty, ?_, ?_⟩
    · rw [has.size hne, hpay]
    · rw [hbuf, Option.map_some, htake, hpay]

/-- For a request of 1 to `63 * 232` bytes, `gh_rm_send_request` hands a series
of fragments to `gh_msgq_send` that, read back as a notification, gives the
request; it refuses any other. -/
theorem sendRequest_roundTrip (r : Request) :
    (1 ≤ r.reqBuff.length → r.reqBuff.length ≤ 63 * 232 →
      ∃ txs, ghRmSendRequest {} (fun _ => 0) r = (txs, 0) ∧ IsSeries r txs ∧
        ∀ s : Core, s.task = none → s.pending = .null → RoundTrip r (asNotif (txs.map (·.msg))) s) ∧
    (r.reqBuff.length = 0 ∨ (63 * 232 < r.reqBuff.length ∧ r.reqBuff.length < 2 ^ 32) →
      ∀ (env : SendEnv) send, env.desc = true → ghRmSendRequest env send r = ([], -E2BIG)) := by
  refine ⟨fun h h' => ⟨_, series_eq h h', isSeries h h', fun s htask hp => ?_⟩,
    fun h env send hd => sendRequest_refuse h hd send⟩
  rw [List.map_map]
  exact roundTrip h h' htask hp

/-- A request of two messages, and an empty one. -/
theorem sendRequest_roundTrip_two :
    (∃ txs, ghRmSendRequest {} (fun _ => 0) ⟨0x51000012, List.replicate 300 7, 5⟩ = (txs, 0) ∧
        IsSeries ⟨0x51000012, List.replicate 300 7, 5⟩ txs ∧
        RoundTrip ⟨0x51000012, List.replicate 300 7, 5⟩ (asNotif (txs.map (·.msg))) Core.init) ∧
      ghRmSendRequest {} (fun _ => 0) ⟨0x51000012, [], 5⟩ = ([], -E2BIG) := by
  obtain ⟨txs, htxs, hser, htrip⟩ :=
    (sendRequest_roundTrip ⟨0x51000012, List.replicate 300 7, 5⟩).1
      (by rw [List.length_replicate]; decide) (by rw [List.length_replicate]; decide)
  exact ⟨⟨txs, htxs, hser, htrip Core.init rfl rfl⟩,
    (sendRequest_roundTrip ⟨0x51000012, [], 5⟩).2 (.inl rfl) {} _ rfl⟩

end GH.Proof.Rm
