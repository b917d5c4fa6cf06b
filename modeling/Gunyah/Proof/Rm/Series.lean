import Gunyah.Framework.Run
import Gunyah.Proof.Rm.Turn
import Gunyah.Spec.Rm.Series

/-!
# Putting a series together

What the start of a series makes of a connection (`init_eq`, `init_short`),
and the invariant of the pending connection: it holds the messages of a
series received so far (`Assembles`), in a buffer that was allocated for all
of them.
-/

namespace GH.Proof.Rm

open GH.Impl GH.Impl.Rm GH.Spec.Rm

/-- The connection at the start of a series, before it has a buffer. -/
def started (c : Connection) (msg : List Byte) : Connection :=
  { c with numFragments := (rpcHdr msg).fragments.toNat, fragmentsReceived := 0,
           type := (rpcHdr msg).type, alloc := 0, series := [msg] }

/-- The connection with the start message's payload in a buffer. -/
def filled (c : Connection) (msg : List Byte) (hdrSize : Nat) : Connection :=
  { started c msg with
    payload := some (msg.drop hdrSize ++
      List.replicate ((rpcHdr msg).fragments.toNat * GH_RM_MAX_MSG_SIZE_BYTES) 0)
    size := msg.length - hdrSize
    alloc := msg.length - hdrSize + (rpcHdr msg).fragments.toNat * GH_RM_MAX_MSG_SIZE_BYTES }

theorem sizeAdd_eq {a b : Nat} (h : a + b < 2 ^ 64) : sizeAdd a b = a + b := by
  rw [sizeAdd, if_pos h]

theorem sizeSub_eq {a b : Nat} (h : b ≤ a) : sizeSub a b = a - b := by
  rw [sizeSub, if_pos h]

theorem kzalloc_eq {n : Nat} (h : n ≤ KMALLOC_MAX_SIZE) (ok : Bool) :
    kzalloc ok n = if ok then some (List.replicate n 0) else none := by
  cases ok <;> simp [kzalloc, h]

theorem fragments_lt (msg : List Byte) : (rpcHdr msg).fragments.toNat < 64 :=
  (rpcHdr msg).fragments.isLt

/-- The start of a series, on a message with a complete header. -/
theorem init_eq {env : RecvEnv} {c : Connection} {msg : List Byte} {h : Nat} (hh : h ≤ msg.length)
    (hl : msg.length ≤ GH_MSGQ_MAX_MSG_SIZE_BYTES) :
    ghRmInitConnectionBuff env c msg h (msg.length - h) =
      if msg.length = h then (0, started c msg)
      else if env.payload then (0, filled c msg h)
      else (-ENOMEM, { started c msg with payload := none }) := by
  have hf := fragments_lt msg
  simp only [GH_MSGQ_MAX_MSG_SIZE_BYTES] at hl
  have hs : sizeAdd (msg.length - h) ((rpcHdr msg).fragments.toNat * GH_RM_MAX_MSG_SIZE_BYTES) =
      msg.length - h + (rpcHdr msg).fragments.toNat * GH_RM_MAX_MSG_SIZE_BYTES :=
    sizeAdd_eq (by simp only [GH_RM_MAX_MSG_SIZE_BYTES]; omega)
  have hk : msg.length - h + (rpcHdr msg).fragments.toNat * GH_RM_MAX_MSG_SIZE_BYTES ≤ KMALLOC_MAX_SIZE := by
    simp only [GH_RM_MAX_MSG_SIZE_BYTES, KMALLOC_MAX_SIZE]; omega
  unfold ghRmInitConnectionBuff
  simp only [hs]
  by_cases he : msg.length = h
  · rw [if_pos (by omega), if_pos he]
    rfl
  · rw [if_neg (by omega), if_neg he, if_neg (by omega), kzalloc_eq hk]
    cases env.payload
    · rfl
    · simp only [ite_true]
      rw [List.take_of_length_le (by simp)]
      simp only [filled, started, List.drop_replicate, List.length_drop, Nat.add_sub_cancel_left]

/-- A reply shorter than its header: its payload size wraps, and no buffer
can be had for it. -/
theorem init_short {env : RecvEnv} {c : Connection} {msg : List Byte} (hl : msg.length < REPLY_HDR_SIZE) :
    (ghRmInitConnectionBuff env c msg REPLY_HDR_SIZE (sizeSub msg.length REPLY_HDR_SIZE)).1 < 0 := by
  have hf := fragments_lt msg
  have hs : sizeSub msg.length REPLY_HDR_SIZE = 2 ^ 64 + msg.length - REPLY_HDR_SIZE := by
    rw [sizeSub, if_neg (by omega)]
  simp only [REPLY_HDR_SIZE] at hl hs
  unfold ghRmInitConnectionBuff
  simp only [REPLY_HDR_SIZE, hs]
  rw [if_neg (by omega)]
  by_cases h0 : (rpcHdr msg).fragments.toNat = 0
  · rw [h0, Nat.zero_mul, sizeAdd_eq (by omega), if_neg (by omega)]
    have : kzalloc env.payload (2 ^ 64 + msg.length - 12 + 0) = none := by
      rw [kzalloc, if_neg (by simp only [KMALLOC_MAX_SIZE]; omega)]
    simp only [this]
    decide
  · have : sizeAdd (2 ^ 64 + msg.length - 12) ((rpcHdr msg).fragments.toNat * GH_RM_MAX_MSG_SIZE_BYTES) =
        2 ^ 64 + msg.length - 12 + (rpcHdr msg).fragments.toNat * GH_RM_MAX_MSG_SIZE_BYTES - 2 ^ 64 := by
      rw [sizeAdd, if_neg (by simp only [GH_RM_MAX_MSG_SIZE_BYTES]; omega)]
    rw [this, if_pos (by simp only [GH_RM_MAX_MSG_SIZE_BYTES]; omega)]
    show -EINVAL < 0
    decide

/-! ## The pending connection -/

/-- The connection holds the messages of a series that were received so far:
a start message and `conts`. If the start message has a payload, the buffer
was allocated for it and for as many full fragments as it announces. -/
structure Assembles (c : Connection) (start : List Byte) (conts : List (List Byte)) : Prop where
  series : c.series = start :: conts
  type : c.type = (rpcHdr start).type
  kind : c.type = GH_RM_RPC_TYPE_RPLY ∨ c.type = GH_RM_RPC_TYPE_NOTIF
  msgId : c.msgId = (rpcHdr start).msgId
  seq : c.type = GH_RM_RPC_TYPE_RPLY → c.seq = (rpcHdr start).seq
  num : c.numFragments = (rpcHdr start).fragments.toNat
  received : c.fragmentsReceived = conts.length
  le : conts.length ≤ c.numFragments
  lens : ∀ m ∈ conts, m.length ≤ GH_MSGQ_MAX_MSG_SIZE_BYTES
  empty : startPayload start = [] → c.alloc = 0
  alloc : startPayload start ≠ [] →
    c.alloc = (startPayload start).length + c.numFragments * GH_RM_MAX_MSG_SIZE_BYTES
  size : startPayload start ≠ [] → c.size = (seriesPayload (start :: conts)).length
  payload : startPayload start ≠ [] →
    ∃ buf, c.payload = some buf ∧ buf.length = c.alloc ∧ buf.take c.size = seriesPayload (start :: conts)

/-- The fragments received so far are no longer than the room for them. -/
theorem flatMap_contPayload_le {ms : List (List Byte)}
    (h : ∀ m ∈ ms, m.length ≤ GH_MSGQ_MAX_MSG_SIZE_BYTES) :
    (ms.flatMap contPayload).length ≤ ms.length * GH_RM_MAX_MSG_SIZE_BYTES := by
  induction ms with
  | nil => simp
  | cons m ms ih =>
    have h₁ := h m List.mem_cons_self
    have h₂ := ih fun m hm => h m (List.mem_cons_of_mem _ hm)
    simp only [List.flatMap_cons, List.length_append, contPayload, List.length_drop, List.length_cons,
      HDR_SIZE, GH_MSGQ_MAX_MSG_SIZE_BYTES, GH_RM_MAX_MSG_SIZE_BYTES] at h₁ h₂ ⊢
    omega

theorem length_startPayload (m : List Byte) : (startPayload m).length = m.length - startHdr m := by
  rw [startPayload, List.length_drop]

/-- A connection set up by a start message holds it. -/
theorem Assembles.start {env : RecvEnv} {c c' : Connection} {msg : List Byte} {ret : Int}
    (hh : startHdr msg ≤ msg.length) (hl : msg.length ≤ GH_MSGQ_MAX_MSG_SIZE_BYTES)
    (ht : (rpcHdr msg).type = GH_RM_RPC_TYPE_RPLY ∨ (rpcHdr msg).type = GH_RM_RPC_TYPE_NOTIF)
    (hm : c.msgId = (rpcHdr msg).msgId)
    (hs : (rpcHdr msg).type = GH_RM_RPC_TYPE_RPLY → c.seq = (rpcHdr msg).seq)
    (hi : ghRmInitConnectionBuff env c msg (startHdr msg) (msg.length - startHdr msg) = (ret, c'))
    (hr : 0 ≤ ret) : Assembles c' msg [] := by
  have hp := length_startPayload msg
  rw [init_eq hh hl] at hi
  by_cases he : msg.length = startHdr msg
  · have h0 : startPayload msg = [] := List.eq_nil_of_length_eq_zero (by omega)
    rw [if_pos he, Prod.mk.injEq] at hi
    obtain ⟨-, rfl⟩ := hi
    exact ⟨rfl, rfl, ht, hm, hs, rfl, rfl, Nat.zero_le _, by simp, fun _ => rfl, fun h => absurd h0 h,
      fun h => absurd h0 h, fun h => absurd h0 h⟩
  · have h0 : startPayload msg ≠ [] := fun h => he (by rw [h, List.length_nil] at hp; omega)
    rw [if_neg he] at hi
    split at hi
    · rw [Prod.mk.injEq] at hi
      obtain ⟨-, rfl⟩ := hi
      refine ⟨rfl, rfl, ht, hm, hs, rfl, rfl, Nat.zero_le _, by simp, fun h => absurd h h0, fun _ => ?_,
        fun _ => ?_, fun _ => ⟨_, rfl, ?_, ?_⟩⟩
      · simp [filled, hp, started]
      · simp [filled, seriesPayload, hp]
      · simp [filled]
      · simp only [filled, seriesPayload, List.flatMap_nil, List.append_nil]
        rw [List.take_append_of_le_length (by simp), List.take_of_length_le (by simp), startPayload]
    · rw [Prod.mk.injEq] at hi
      rw [← hi.1] at hr
      exact absurd hr (by decide)

/-- The error code of a reply is no part of its series. -/
theorem Assembles.withError {c : Connection} {start : List Byte} {conts : List (List Byte)}
    (h : Assembles c start conts) (e : BitVec 32) : Assembles { c with rmError := e } start conts :=
  ⟨h.1, h.2, h.3, h.4, h.5, h.6, h.7, h.8, h.9, h.10, h.11, h.12, h.13⟩

/-- The room a series still has. -/
theorem Assembles.room {c : Connection} {start : List Byte} {conts : List (List Byte)}
    (h : Assembles c start conts) (hp : startPayload start ≠ []) {n : Nat}
    (hn : conts.length + n ≤ c.numFragments) : c.size + n * GH_RM_MAX_MSG_SIZE_BYTES ≤ c.alloc := by
  have hf := flatMap_contPayload_le h.lens
  rw [h.size hp, h.alloc hp, seriesPayload, List.length_append]
  simp only [GH_RM_MAX_MSG_SIZE_BYTES] at hf ⊢
  omega

/-- Appending a fragment. -/
theorem Assembles.append {c : Connection} {start msg buf : List Byte} {conts : List (List Byte)}
    (h : Assembles c start conts) (hr : c.fragmentsReceived ≠ c.numFragments)
    (hl : msg.length ≤ GH_MSGQ_MAX_MSG_SIZE_BYTES)
    (hb : (c.payload.bind fun buf => memcpy buf c.size (msg.drop HDR_SIZE)) = some buf) :
    Assembles { c with payload := some buf, size := c.size + (msg.drop HDR_SIZE).length,
                       fragmentsReceived := (c.fragmentsReceived + 1) % 2 ^ 8,
                       series := c.series ++ [msg] } start (conts ++ [msg]) := by
  have hle := h.le
  have hn := h.num ▸ fragments_lt start
  rw [h.received] at hr
  have hpay : seriesPayload (start :: (conts ++ [msg])) = seriesPayload (start :: conts) ++ msg.drop HDR_SIZE := by
    simp [seriesPayload, contPayload]
  refine ⟨by simp [h.series], h.type, h.kind, h.msgId, h.seq, h.num, ?_, ?_, ?_, h.empty, h.alloc,
    fun hp => ?_, fun hp => ?_⟩
  · simp only [h.received, List.length_append, List.length_singleton]
    omega
  · simp only [List.length_append, List.length_singleton]
    omega
  · intro m hm
    rcases List.mem_append.mp hm with hm | hm
    · exact h.lens m hm
    · rw [List.mem_singleton.mp hm]
      exact hl
  · rw [hpay, List.length_append, h.size hp]
  · obtain ⟨b, hb₁, hb₂, hb₃⟩ := h.payload hp
    rw [hb₁, Option.bind_some, memcpy] at hb
    split at hb
    · rename_i hfit
      rw [Option.some.injEq] at hb
      have hsz : c.size ≤ b.length := by omega
      refine ⟨buf, rfl, ?_, ?_⟩
      · rw [← hb]
        simp only [List.length_append, List.length_take, List.length_drop] at hfit ⊢
        omega
      · rw [hpay, ← hb₃, ← hb]
        have e : (b.take c.size ++ msg.drop HDR_SIZE).length = c.size + (msg.drop HDR_SIZE).length := by
          rw [List.length_append, List.length_take, Nat.min_eq_left hsz]
        show List.take (c.size + (msg.drop HDR_SIZE).length) _ = _
        rw [← e, List.take_append_of_le_length (Nat.le_refl _), List.take_length]
    · cases hb

end GH.Proof.Rm
