import Gunyah.Proof.Rm.State
import Mathlib.Logic.Relation

/-!
# A turn of the receive task

What each function of the receive task gives, in cases (`Aborts`, `Replies`,
`Conts`, `Completes`), and what the task can do to the state, update by update
(`Micro`): abort the pending series, start one from a notification or a reply,
append a fragment, complete the pending connection, or stop at a fault. A turn
of its loop is a sequence of these (`recvTask_turn`), so an invariant that each
of them keeps is kept by a turn (`Turn.inv`), and no turn leaves a connection
pending that has all its fragments (`recvTask_settled`). `Does` gives the cases
of every step of the machine (`step_does`).
-/

namespace GH.Proof.Rm

open GH.Impl GH.Impl.Rm

/-- Between turns, no error value is pending, and the pending connection, if
it is live, still waits for fragments. -/
structure Settled (s : Core) : Prop where
  noErr : ∀ e, s.pending ≠ .err e
  waits : ∀ a c, s.pending = .obj a → s.heap a = some c → c.fragmentsReceived ≠ c.numFragments

/-- An update the receive task makes on a message. -/
inductive Micro (env : RecvEnv) (msg : List Byte) (s : Core) : Core → Prop where
  | fault (f : Fault) : Micro env msg s { s with task := some f }
  | abortReply {a c} (hp : s.pending = .obj a) (hc : s.heap a = some c)
      (ht : c.type = GH_RM_RPC_TYPE_RPLY) :
      Micro env msg s { s.set a { c with ret := -EIO_ERR, seqDone := c.seqDone + 1 } with pending := .null }
  | abortOther {a c} (hp : s.pending = .obj a) (hc : s.heap a = some c)
      (ht : c.type ≠ GH_RM_RPC_TYPE_RPLY) : Micro env msg s { s.free a with pending := .null }
  | startNotif {c} (hp : s.pending = .null) (ht : (rpcHdr msg).type = GH_RM_RPC_TYPE_NOTIF)
      (hi : ghRmInitConnectionBuff env { msgId := (rpcHdr msg).msgId } msg HDR_SIZE
        (msg.length - HDR_SIZE) = (0, c)) :
      Micro env msg s { s.set s.next c with next := s.next + 1, pending := .obj s.next }
  | startReply {a c c' ret} (hp : s.pending = .null) (ht : (rpcHdr msg).type = GH_RM_RPC_TYPE_RPLY)
      (hq : s.idr (rpcHdr msg).seq = some a) (hc : s.heap a = some c)
      (hs : c.seq = (rpcHdr msg).seq) (hm : c.msgId = (rpcHdr msg).msgId)
      (hi : ghRmInitConnectionBuff env c msg REPLY_HDR_SIZE
        (sizeSub msg.length REPLY_HDR_SIZE) = (ret, c')) (hr : 0 ≤ ret) :
      Micro env msg s { s.set a { c' with rmError := errCode msg } with pending := .obj a }
  | failReply {a c c' ret} (hp : s.pending = .null) (ht : (rpcHdr msg).type = GH_RM_RPC_TYPE_RPLY)
      (hq : s.idr (rpcHdr msg).seq = some a) (hc : s.heap a = some c)
      (hi : ghRmInitConnectionBuff env c msg REPLY_HDR_SIZE
        (sizeSub msg.length REPLY_HDR_SIZE) = (ret, c')) (hr : ret < 0) :
      Micro env msg s { s.set a c' with pending := .err ret }
  | dropReply (e : Int) (hp : s.pending = .null) : Micro env msg s { s with pending := .err e }
  | append {a c buf} (hp : s.pending = .obj a) (hc : s.heap a = some c)
      (hr : c.fragmentsReceived ≠ c.numFragments) (hf : c.numFragments = (rpcHdr msg).fragments.toNat)
      (hb : (c.payload.bind fun buf => memcpy buf c.size (msg.drop HDR_SIZE)) = some buf) :
      Micro env msg s ({ s with appended := s.appended ++ [(c, msg)] }.set a
        { c with payload := some buf, size := c.size + (msg.drop HDR_SIZE).length,
                 fragmentsReceived := (c.fragmentsReceived + 1) % 2 ^ 8,
                 series := c.series ++ [msg] })
  | badAppend {a c} (hp : s.pending = .obj a) (hc : s.heap a = some c)
      (hr : c.fragmentsReceived ≠ c.numFragments) (hf : c.numFragments = (rpcHdr msg).fragments.toNat) :
      Micro env msg s { s with appended := s.appended ++ [(c, msg)], task := some .badCopy }
  | completeReply {a c} (hp : s.pending = .obj a) (hc : s.heap a = some c)
      (hr : c.fragmentsReceived = c.numFragments) (ht : c.type = GH_RM_RPC_TYPE_RPLY) :
      Micro env msg s { s.set a { c with seqDone := c.seqDone + 1 } with
        completed := s.completed ++ [c], pending := .null }
  | completeNotif {a c} (hp : s.pending = .obj a) (hc : s.heap a = some c)
      (hr : c.fragmentsReceived = c.numFragments) (ht : c.type = GH_RM_RPC_TYPE_NOTIF) :
      Micro env msg s { s with
        works := s.works ++ [a], completed := s.completed ++ [c], pending := .null }
  | dropNotif {a c} (hp : s.pending = .obj a) (hc : s.heap a = some c)
      (ht : c.type = GH_RM_RPC_TYPE_NOTIF) : Micro env msg s { s.free a with pending := .null }
  | dropOther {a c} (hp : s.pending = .obj a) (hc : s.heap a = some c)
      (ht : c.type ≠ GH_RM_RPC_TYPE_RPLY ∧ c.type ≠ GH_RM_RPC_TYPE_NOTIF) :
      Micro env msg s { s with pending := .null }

/-- A sequence of updates. -/
abbrev Turn (env : RecvEnv) (msg : List Byte) : Core → Core → Prop :=
  Relation.ReflTransGen (Micro env msg)

theorem Turn.inv {env : RecvEnv} {msg : List Byte} {I : Core → Prop}
    (hI : ∀ s t, I s → Micro env msg s t → I t) {s t : Core} (h : Turn env msg s t) (h₀ : I s) : I t := by
  induction h with
  | refl => exact h₀
  | tail _ hm ih => exact hI _ _ ih hm

/-- The state a result leaves the task in. -/
def outcome : Res Core → Core
  | .ok t => t
  | .error (f, t) => { t with task := some f }

variable {env : RecvEnv} {msg : List Byte}

/-! ## What each function gives -/

theorem abort_reply {s : Core} {a : Addr} {c : Connection} (hc : s.heap a = some c)
    (ht : c.type = GH_RM_RPC_TYPE_RPLY) :
    ghRmAbortConnection s (.obj a) =
      .ok (s.set a { c with ret := -EIO_ERR, seqDone := c.seqDone + 1 }) := by
  rw [ghRmAbortConnection, deref_live hc]
  simp only [bind, Except.bind]
  rw [if_pos ht]

theorem abort_other {s : Core} {a : Addr} {c : Connection} (hc : s.heap a = some c)
    (ht : c.type ≠ GH_RM_RPC_TYPE_RPLY) : ghRmAbortConnection s (.obj a) = .ok (s.free a) := by
  rw [ghRmAbortConnection, deref_live hc]
  simp only [bind, Except.bind]
  rw [if_neg ht]

/-- The connection a reply is for: the one registered under its sequence
number, if that has the reply's sequence number and message id. -/
theorem processRply_mismatch {s : Core} {a : Addr} {c : Connection} (hsig : env.signal = false)
    (hq : s.idr (rpcHdr msg).seq = some a) (hc : s.heap a = some c)
    (hm : c.seq ≠ (rpcHdr msg).seq ∨ c.msgId ≠ (rpcHdr msg).msgId) :
    ghRmProcessRply env s msg = .ok (.err (-EINVAL), s) := by
  simp only [ghRmProcessRply, hsig, hq, deref_live hc, bind, Except.bind, Bool.false_eq_true, ite_false]
  rw [if_pos hm]

theorem processRply_match {s : Core} {a : Addr} {c : Connection} (hsig : env.signal = false)
    (hq : s.idr (rpcHdr msg).seq = some a) (hc : s.heap a = some c)
    (hm : ¬(c.seq ≠ (rpcHdr msg).seq ∨ c.msgId ≠ (rpcHdr msg).msgId)) {r : Int × Connection}
    (hi : ghRmInitConnectionBuff env c msg REPLY_HDR_SIZE (sizeSub msg.length REPLY_HDR_SIZE) = r) :
    ghRmProcessRply env s msg =
      if r.1 < 0 then .ok (.err r.1, s.set a r.2)
      else .ok (.obj a, s.set a { r.2 with rmError := errCode msg }) := by
  simp only [ghRmProcessRply, hsig, hq, deref_live hc, bind, Except.bind, Bool.false_eq_true, ite_false]
  rw [if_neg hm, hi]

theorem processCont_mismatch {s : Core} {a : Addr} {c : Connection} (hc : s.heap a = some c)
    (hf : c.numFragments ≠ (rpcHdr msg).fragments.toNat) :
    ghRmProcessCont s (.obj a) msg = .ok (-EINVAL, s) := by
  simp only [ghRmProcessCont, reduceCtorEq, ite_false, deref_live hc, bind, Except.bind]
  rw [if_pos hf]

theorem processCont_bad {s : Core} {a : Addr} {c : Connection} (hc : s.heap a = some c)
    (hf : c.numFragments = (rpcHdr msg).fragments.toNat)
    (hb : (c.payload.bind fun buf => memcpy buf c.size (msg.drop HDR_SIZE)) = none) :
    ghRmProcessCont s (.obj a) msg =
      .error (.badCopy, { s with appended := s.appended ++ [(c, msg)] }) := by
  simp only [ghRmProcessCont, reduceCtorEq, ite_false, deref_live hc, bind, Except.bind]
  rw [if_neg (not_not.mpr hf)]
  simp only [hb]

theorem processCont_ok {s : Core} {a : Addr} {c : Connection} {buf : List Byte}
    (hc : s.heap a = some c) (hf : c.numFragments = (rpcHdr msg).fragments.toNat)
    (hb : (c.payload.bind fun buf => memcpy buf c.size (msg.drop HDR_SIZE)) = some buf) :
    ghRmProcessCont s (.obj a) msg =
      .ok (0, { s with appended := s.appended ++ [(c, msg)] }.set a
        { c with payload := some buf, size := c.size + (msg.drop HDR_SIZE).length,
                 fragmentsReceived := (c.fragmentsReceived + 1) % 2 ^ 8,
                 series := c.series ++ [msg] }) := by
  simp only [ghRmProcessCont, reduceCtorEq, ite_false, deref_live hc, bind, Except.bind]
  rw [if_neg (not_not.mpr hf)]
  simp only [hb]

/-- Completing the pending connection, which is then no longer pending. -/
abbrev complete (env : RecvEnv) (s : Core) : Res Core :=
  ghRmCompleteConnection env s s.pending >>= fun r =>
    .ok (if r.1 then { r.2 with pending := .null } else r.2)

theorem complete_null {s : Core} (hp : s.pending = .null) : complete env s = .ok s := by
  simp [complete, ghRmCompleteConnection, hp, bind, Except.bind]

theorem complete_err {s : Core} {e : Int} (hp : s.pending = .err e) :
    complete env s = .error (.badPtr .completeConnection (.err e), s) := by
  simp [complete, ghRmCompleteConnection, hp, deref_err, bind, Except.bind]

theorem complete_freed {s : Core} {a : Addr} (hp : s.pending = .obj a) (hc : s.heap a = none) :
    complete env s = .error (.badPtr .completeConnection (.obj a), s) := by
  simp [complete, ghRmCompleteConnection, hp, deref_freed hc, bind, Except.bind]

section

variable {s : Core} {a : Addr} {c : Connection} (hp : s.pending = .obj a) (hc : s.heap a = some c)
include hp hc

theorem complete_part (hr : c.fragmentsReceived ≠ c.numFragments) : complete env s = .ok s := by
  simp [complete, ghRmCompleteConnection, hp, deref_live hc, hr, bind, Except.bind]

theorem complete_reply (hr : c.fragmentsReceived = c.numFragments)
    (ht : c.type = GH_RM_RPC_TYPE_RPLY) :
    complete env s = .ok { s.set a { c with seqDone := c.seqDone + 1 } with
      completed := s.completed ++ [c], pending := .null } := by
  simp only [complete, ghRmCompleteConnection, hp, reduceCtorEq, ite_false, deref_live hc, bind,
    Except.bind]
  rw [if_neg (not_not.mpr hr), if_pos ht]
  rfl

theorem complete_notif (hr : c.fragmentsReceived = c.numFragments)
    (ht : c.type = GH_RM_RPC_TYPE_NOTIF) :
    complete env s = .ok (if env.work then
      { s with works := s.works ++ [a], completed := s.completed ++ [c], pending := .null }
      else { s.free a with pending := .null }) := by
  simp only [complete, ghRmCompleteConnection, hp, reduceCtorEq, ite_false, deref_live hc, bind,
    Except.bind]
  rw [if_neg (not_not.mpr hr), if_neg (by rw [ht]; decide), if_pos ht]
  cases env.work <;> rfl

theorem complete_other (hr : c.fragmentsReceived = c.numFragments)
    (ht : c.type ≠ GH_RM_RPC_TYPE_RPLY) (hn : c.type ≠ GH_RM_RPC_TYPE_NOTIF) :
    complete env s = .ok { s with pending := .null } := by
  simp only [complete, ghRmCompleteConnection, hp, reduceCtorEq, ite_false, deref_live hc, bind,
    Except.bind]
  rw [if_neg (not_not.mpr hr), if_neg ht, if_neg hn]
  rfl

end

/-! ## Their cases -/

/-- What `abortPending` gives. -/
inductive Aborts (s : Core) : Res Core → Prop where
  | null (hp : s.pending = .null) : Aborts s (.ok s)
  | bad (hn : s.pending ≠ .null) (hp : ∀ a c, s.pending = .obj a → s.heap a ≠ some c) :
      Aborts s (.error (.badPtr .abortConnection s.pending, s))
  | reply {a c} (hp : s.pending = .obj a) (hc : s.heap a = some c) (ht : c.type = GH_RM_RPC_TYPE_RPLY) :
      Aborts s (.ok { s.set a { c with ret := -EIO_ERR, seqDone := c.seqDone + 1 } with pending := .null })
  | other {a c} (hp : s.pending = .obj a) (hc : s.heap a = some c) (ht : c.type ≠ GH_RM_RPC_TYPE_RPLY) :
      Aborts s (.ok { s.free a with pending := .null })

theorem abortPending_cases (s : Core) : Aborts s (abortPending s) := by
  unfold abortPending
  cases hp : s.pending with
  | null => exact .null hp
  | err e =>
    rw [if_neg (by simp), ghRmAbortConnection, deref_err, ← hp]
    exact .bad (by simp [hp]) (by simp [hp])
  | obj a =>
    rw [if_neg (by simp)]
    cases hc : s.heap a with
    | none =>
      rw [ghRmAbortConnection, deref_freed hc, ← hp]
      refine .bad (by simp [hp]) fun b c hb => ?_
      rw [hp] at hb
      cases hb
      simp [hc]
    | some c =>
      by_cases ht : c.type = GH_RM_RPC_TYPE_RPLY
      · rw [abort_reply hc ht]
        exact .reply hp hc ht
      · rw [abort_other hc ht]
        exact .other hp hc ht

/-- What `gh_rm_process_rply` gives. -/
inductive Replies (env : RecvEnv) (msg : List Byte) (s : Core) : Res (Ptr × Core) → Prop where
  | drop (e : Int) : Replies env msg s (.ok (.err e, s))
  | freed {a} (hq : s.idr (rpcHdr msg).seq = some a) (hc : s.heap a = none) :
      Replies env msg s (.error (.badPtr .processRply (.obj a), s))
  | fail {a c c' ret} (hq : s.idr (rpcHdr msg).seq = some a) (hc : s.heap a = some c)
      (hi : ghRmInitConnectionBuff env c msg REPLY_HDR_SIZE (sizeSub msg.length REPLY_HDR_SIZE) = (ret, c'))
      (hr : ret < 0) : Replies env msg s (.ok (.err ret, s.set a c'))
  | start {a c c' ret} (hsig : env.signal = false) (hq : s.idr (rpcHdr msg).seq = some a)
      (hc : s.heap a = some c) (hs : c.seq = (rpcHdr msg).seq) (hm : c.msgId = (rpcHdr msg).msgId)
      (hi : ghRmInitConnectionBuff env c msg REPLY_HDR_SIZE (sizeSub msg.length REPLY_HDR_SIZE) = (ret, c'))
      (hr : 0 ≤ ret) : Replies env msg s (.ok (.obj a, s.set a { c' with rmError := errCode msg }))

variable (env msg) in
theorem processRply_cases (s : Core) : Replies env msg s (ghRmProcessRply env s msg) := by
  cases hsig : env.signal with
  | true =>
    rw [ghRmProcessRply, if_pos hsig]
    exact .drop _
  | false =>
    cases hq : s.idr (rpcHdr msg).seq with
    | none =>
      simp only [ghRmProcessRply, hsig, hq, Bool.false_eq_true, ite_false]
      exact .drop _
    | some a =>
      cases hc : s.heap a with
      | none =>
        simp only [ghRmProcessRply, hsig, hq, deref_freed hc, Bool.false_eq_true, ite_false]
        exact .freed hq hc
      | some c =>
        by_cases hm : c.seq ≠ (rpcHdr msg).seq ∨ c.msgId ≠ (rpcHdr msg).msgId
        · rw [processRply_mismatch hsig hq hc hm]
          exact .drop _
        · generalize hi : ghRmInitConnectionBuff env c msg REPLY_HDR_SIZE
            (sizeSub msg.length REPLY_HDR_SIZE) = r
          obtain ⟨ret, c'⟩ := r
          rw [processRply_match hsig hq hc hm hi]
          simp only [not_or, ne_eq, not_not] at hm
          by_cases hr : ret < 0
          · rw [if_pos hr]
            exact .fail hq hc hi hr
          · rw [if_neg hr]
            exact .start hsig hq hc hm.1 hm.2 hi (by omega)

/-- What `gh_rm_process_cont` gives for the pending connection. -/
inductive Conts (msg : List Byte) (s : Core) : Res (Int × Core) → Prop where
  | bad (hp : ∀ a c, s.pending = .obj a → s.heap a ≠ some c) :
      Conts msg s (.error (.badPtr .processCont s.pending, s))
  | mismatch {a c} (hp : s.pending = .obj a) (hc : s.heap a = some c)
      (hf : c.numFragments ≠ (rpcHdr msg).fragments.toNat) : Conts msg s (.ok (-EINVAL, s))
  | noRoom {a c} (hp : s.pending = .obj a) (hc : s.heap a = some c)
      (hf : c.numFragments = (rpcHdr msg).fragments.toNat)
      (hb : (c.payload.bind fun buf => memcpy buf c.size (msg.drop HDR_SIZE)) = none) :
      Conts msg s (.error (.badCopy, { s with appended := s.appended ++ [(c, msg)] }))
  | ok {a c buf} (hp : s.pending = .obj a) (hc : s.heap a = some c)
      (hf : c.numFragments = (rpcHdr msg).fragments.toNat)
      (hb : (c.payload.bind fun buf => memcpy buf c.size (msg.drop HDR_SIZE)) = some buf) :
      Conts msg s (.ok (0, { s with appended := s.appended ++ [(c, msg)] }.set a
        { c with payload := some buf, size := c.size + (msg.drop HDR_SIZE).length,
                 fragmentsReceived := (c.fragmentsReceived + 1) % 2 ^ 8,
                 series := c.series ++ [msg] }))

variable (msg) in
theorem processCont_cases {s : Core} (hn : s.pending ≠ .null) : Conts msg s (ghRmProcessCont s s.pending msg) := by
  cases hp : s.pending with
  | null => exact absurd hp hn
  | err e =>
    simp only [ghRmProcessCont, reduceCtorEq, ite_false, deref_err, bind, Except.bind]
    rw [← hp]
    exact .bad (by simp [hp])
  | obj a =>
    cases hc : s.heap a with
    | none =>
      simp only [ghRmProcessCont, reduceCtorEq, ite_false, deref_freed hc, bind, Except.bind]
      rw [← hp]
      refine .bad fun b c hb => ?_
      rw [hp] at hb
      cases hb
      simp [hc]
    | some c =>
      by_cases hf : c.numFragments = (rpcHdr msg).fragments.toNat
      · cases hb : c.payload.bind fun buf => memcpy buf c.size (msg.drop HDR_SIZE) with
        | none =>
          rw [processCont_bad hc hf hb]
          exact .noRoom hp hc hf hb
        | some buf =>
          rw [processCont_ok hc hf hb]
          exact .ok hp hc hf hb
      · rw [processCont_mismatch hc hf]
        exact .mismatch hp hc hf

/-- What completing the pending connection gives. -/
inductive Completes (env : RecvEnv) (s : Core) : Res Core → Prop where
  | null (hp : s.pending = .null) : Completes env s (.ok s)
  | bad (hn : s.pending ≠ .null) (hp : ∀ a c, s.pending = .obj a → s.heap a ≠ some c) :
      Completes env s (.error (.badPtr .completeConnection s.pending, s))
  | part {a c} (hp : s.pending = .obj a) (hc : s.heap a = some c) (hr : c.fragmentsReceived ≠ c.numFragments) :
      Completes env s (.ok s)
  | reply {a c} (hp : s.pending = .obj a) (hc : s.heap a = some c) (hr : c.fragmentsReceived = c.numFragments)
      (ht : c.type = GH_RM_RPC_TYPE_RPLY) :
      Completes env s (.ok { s.set a { c with seqDone := c.seqDone + 1 } with
        completed := s.completed ++ [c], pending := .null })
  | notif {a c} (hp : s.pending = .obj a) (hc : s.heap a = some c) (hr : c.fragmentsReceived = c.numFragments)
      (ht : c.type = GH_RM_RPC_TYPE_NOTIF) :
      Completes env s (.ok { s with works := s.works ++ [a], completed := s.completed ++ [c], pending := .null })
  | drop {a c} (hp : s.pending = .obj a) (hc : s.heap a = some c) (ht : c.type = GH_RM_RPC_TYPE_NOTIF) :
      Completes env s (.ok { s.free a with pending := .null })
  | other {a c} (hp : s.pending = .obj a) (hc : s.heap a = some c) (ht : c.type ≠ GH_RM_RPC_TYPE_RPLY)
      (hn : c.type ≠ GH_RM_RPC_TYPE_NOTIF) : Completes env s (.ok { s with pending := .null })

variable (env) in
theorem complete_cases (s : Core) : Completes env s (complete env s) := by
  cases hp : s.pending with
  | null =>
    rw [complete_null hp]
    exact .null hp
  | err e =>
    rw [complete_err hp, ← hp]
    exact .bad (by simp [hp]) (by simp [hp])
  | obj a =>
    cases hc : s.heap a with
    | none =>
      rw [complete_freed hp hc, ← hp]
      refine .bad (by simp [hp]) fun b c hb => ?_
      rw [hp] at hb
      cases hb
      simp [hc]
    | some c =>
      by_cases hr : c.fragmentsReceived = c.numFragments
      · by_cases ht : c.type = GH_RM_RPC_TYPE_RPLY
        · rw [complete_reply hp hc hr ht]
          exact .reply hp hc hr ht
        by_cases hn : c.type = GH_RM_RPC_TYPE_NOTIF
        · rw [complete_notif hp hc hr hn]
          cases env.work
          · exact .drop hp hc hn
          · exact .notif hp hc hr hn
        · rw [complete_other hp hc hr ht hn]
          exact .other hp hc ht hn
      · rw [complete_part hp hc hr]
        exact .part hp hc hr

/-! ## Their updates -/

variable (env msg) in
theorem abortPending_turn (s : Core) :
    Turn env msg s (outcome (abortPending s)) ∧ ∀ t, abortPending s = .ok t → t.pending = .null := by
  have h := abortPending_cases s
  generalize abortPending s = r at h ⊢
  cases h with
  | null hp => exact ⟨.refl, fun t ht => by cases ht; exact hp⟩
  | bad hn hp => exact ⟨.single (.fault _), fun t ht => by cases ht⟩
  | reply hp hc hty => exact ⟨.single (.abortReply hp hc hty), fun t ht => by cases ht; rfl⟩
  | other hp hc hty => exact ⟨.single (.abortOther hp hc hty), fun t ht => by cases ht; rfl⟩

/-- Processing a start message, and assigning `connection`. -/
abbrev assign (r : Res (Ptr × Core)) : Res Core := r >>= fun r => .ok { r.2 with pending := r.1 }

theorem processNotif_turn {s : Core} (hp : s.pending = .null)
    (ht : (rpcHdr msg).type = GH_RM_RPC_TYPE_NOTIF) :
    Turn env msg s (outcome (assign (ghRmProcessNotif env s msg))) := by
  unfold ghRmProcessNotif
  simp only
  split
  · split
    · rename_i c hi
      exact .single (.startNotif hp ht hi)
    · simp only [assign, bind, Except.bind, outcome]
      rw [← hp]
  · exact .single (.fault _)

theorem processRply_turn {s : Core} (hp : s.pending = .null)
    (ht : (rpcHdr msg).type = GH_RM_RPC_TYPE_RPLY) :
    Turn env msg s (outcome (assign (ghRmProcessRply env s msg))) := by
  have h := processRply_cases env msg s
  generalize ghRmProcessRply env s msg = r at h ⊢
  cases h with
  | drop e => exact .single (.dropReply e hp)
  | freed hq hc => exact .single (.fault _)
  | fail hq hc hi hr => exact .single (.failReply hp ht hq hc hi hr)
  | start _ hq hc hs hm hi hr => exact .single (.startReply hp ht hq hc hs hm hi hr)

theorem processCont_turn {s : Core} (hs : Settled s) (hn : s.pending ≠ .null) :
    Turn env msg s (outcome (ghRmProcessCont s s.pending msg >>= fun r => .ok r.2)) := by
  have h := processCont_cases msg hn
  generalize ghRmProcessCont s s.pending msg = r at h ⊢
  cases h with
  | bad hp => exact .single (.fault _)
  | mismatch hp hc hf => exact .refl
  | noRoom hp hc hf hb => exact .single (.badAppend hp hc (hs.waits _ _ hp hc) hf)
  | ok hp hc hf hb => exact .single (.append hp hc (hs.waits _ _ hp hc) hf hb)

theorem Settled.of_null {s : Core} (h : s.pending = .null) : Settled s :=
  ⟨by simp [h], by simp [h]⟩

variable (env msg) in
theorem complete_turn (s : Core) :
    Turn env msg s (outcome (complete env s)) ∧ ∀ t, complete env s = .ok t → Settled t := by
  have h := complete_cases env s
  generalize complete env s = r at h ⊢
  cases h with
  | null hp => exact ⟨.refl, fun t ht => by cases ht; exact .of_null hp⟩
  | bad hn hp => exact ⟨.single (.fault _), fun t ht => by cases ht⟩
  | @part a c hp hc hr =>
    refine ⟨.refl, fun t h => ⟨fun e he => ?_, fun a' c' ha hc' => ?_⟩⟩
    · cases h
      rw [hp] at he
      cases he
    · cases h
      rw [hp] at ha
      cases ha
      rw [hc] at hc'
      cases hc'
      exact hr
  | reply hp hc hr hty => exact ⟨.single (.completeReply hp hc hr hty), fun t ht => by cases ht; exact .of_null rfl⟩
  | notif hp hc hr hty => exact ⟨.single (.completeNotif hp hc hr hty), fun t ht => by cases ht; exact .of_null rfl⟩
  | drop hp hc hty => exact ⟨.single (.dropNotif hp hc hty), fun t ht => by cases ht; exact .of_null rfl⟩
  | other hp hc hty hn => exact ⟨.single (.dropOther hp hc ⟨hty, hn⟩), fun t ht => by cases ht; exact .of_null rfl⟩

theorem Turn.bind {s : Core} {x : Res Core} {f : Core → Res Core} (hx : Turn env msg s (outcome x))
    (hf : ∀ t, x = .ok t → Turn env msg t (outcome (f t))) : Turn env msg s (outcome (x >>= f)) := by
  cases x with
  | error e => exact hx
  | ok t => exact hx.trans (hf t rfl)

theorem dispatch_turn {s : Core} (hs : Settled s) :
    Turn env msg s (outcome (ghRmRecvDispatch env s msg)) := by
  have ha := abortPending_turn env msg s
  unfold ghRmRecvDispatch
  simp only
  split
  · rename_i ht
    exact ha.1.bind fun t h => processNotif_turn (ha.2 t h) ht
  split
  · rename_i ht
    exact ha.1.bind fun t h => processRply_turn (ha.2 t h) ht
  split
  · split
    · exact .refl
    · rename_i hp
      exact processCont_turn hs hp
  · exact .refl

/-- A turn of the loop is a sequence of updates. -/
theorem recvTask_turn {s : Core} (hs : Settled s) : Turn env msg s (outcome (ghRmRecvTask env s msg)) := by
  unfold ghRmRecvTask
  split
  · exact .refl
  · exact (dispatch_turn hs).bind fun t _ => (complete_turn env msg t).1

theorem recvTask_settled {s t : Core} (hs : Settled s) (h : ghRmRecvTask env s msg = .ok t) :
    Settled t := by
  unfold ghRmRecvTask at h
  split at h
  · cases h
    exact hs
  · cases hd : ghRmRecvDispatch env s msg with
    | error e => rw [hd] at h; cases h
    | ok u =>
      rw [hd] at h
      exact (complete_turn env msg u).2 t h

theorem outcome_settled {s : Core} (hs : Settled s) (hn : (outcome (ghRmRecvTask env s msg)).task = none) :
    Settled (outcome (ghRmRecvTask env s msg)) := by
  cases hr : ghRmRecvTask env s msg with
  | ok t => exact recvTask_settled hs hr
  | error e =>
    rw [hr] at hn
    cases hn

/-! ## Steps of the machine -/

/-- What an action does: `step`, with its cases. -/
inductive Does (s : Core) : Act → Core → Prop where
  | refuse {k args} {env : CallEnv} (r : CallRet) (hr : ¬ ReachesIdr args env) (hk : s.calls k = .idle) :
      Does s (.call k args env) (s.setCall k (.returned r))
  | alloc {k args} {env : CallEnv} {q} (hr : ReachesIdr args env) (hk : s.calls k = .idle)
      (he : env.idr = .id q) (hq : s.idr q = none) :
      Does s (.call k args env)
        ({ s.set s.next { msgId := args.messageId, seq := q } with
          next := s.next + 1, idr := Function.update s.idr q (some s.next) }.setCall k (.sending s.next))
  | noId {k args} {env : CallEnv} {e} (hr : ReachesIdr args env) (hk : s.calls k = .idle)
      (he : env.idr = .err e) (h : e = ENOSPC ∨ e = ENOMEM) :
      Does s (.call k args env)
        ({ s.set s.next { msgId := args.messageId, seq := BitVec.ofInt 16 (-e) } with
          next := s.next + 1 }.setCall k (.sending s.next))
  | sendFail {k ret a} (hk : s.calls k = .sending a) (hr : ret < 0) :
      Does s (.send k ret) ((s.free a).setCall k (.returned { ret := .error ret }))
  | sendOk {k ret a} (hk : s.calls k = .sending a) (hr : 0 ≤ ret) :
      Does s (.send k ret) (s.setCall k (.waiting a))
  | finish {k a c} (hk : s.calls k = .waiting a) (hc : s.heap a = some c) (hd : 0 < c.seqDone) :
      Does s (.finish k) (ghRmCallFinish s k a c)
  | recv {msg : List Byte} {env : RecvEnv} (ht : s.task = none) (hl : msg.length ≤ GH_MSGQ_MAX_MSG_SIZE_BYTES) :
      Does s (.recv msg env) (outcome (ghRmRecvTask env s msg))
  | work {a} (ha : a ∈ s.works) :
      Does s (.notifWork a) { s.free a with works := s.works.erase a }

theorem callStart_does {s t : Core} {k : Nat} {args : CallArgs} {env : CallEnv}
    (hk : s.calls k = .idle) (h : ghRmCallStart s k args env = some t) :
    Does s (.call k args env) t := by
  unfold ghRmCallStart at h
  by_cases hargs : args.messageId = 0 ∨ args.reqBuff = none ∨ args.outPtrs = false
  · rw [if_pos hargs] at h
    cases h
    exact .refuse _ (fun hr => hr.1 hargs) hk
  rw [if_neg hargs] at h
  by_cases hconn : env.connection = false
  · rw [if_pos hconn] at h
    cases h
    exact .refuse _ (fun hr => hr.2.1 hconn) hk
  rw [if_neg hconn] at h
  by_cases hsig : env.signal
  · rw [if_pos hsig] at h
    cases h
    exact .refuse _ (fun hr => hr.2.2 hsig) hk
  rw [if_neg hsig] at h
  have hr : ReachesIdr args env := ⟨hargs, hconn, hsig⟩
  split at h
  · rename_i hp
    cases he : env.idr with
    | id q =>
      rw [he] at h hp
      cases h
      exact .alloc hr hk he hp.2
    | err e =>
      rw [he] at h hp
      cases h
      exact .noId hr hk he hp
  · cases h

theorem step_does {s t : Core} {act : Act} (h : step s act = some t) : Does s act t := by
  cases act with
  | call k args env =>
    simp only [step] at h
    split at h
    · rename_i hk
      exact callStart_does hk h
    · cases h
  | send k ret =>
    simp only [step] at h
    split at h
    · rename_i a hk
      cases h
      unfold ghRmCallSend
      split
      · rename_i hr
        exact .sendFail hk hr
      · exact .sendOk hk (by omega)
    · cases h
  | finish k =>
    simp only [step] at h
    split at h
    · rename_i a hk
      split at h
      · rename_i c hc
        split at h
        · rename_i hd
          cases h
          exact .finish hk hc hd
        · cases h
      · cases h
    · cases h
  | recv msg env =>
    simp only [step] at h
    split at h
    · rename_i hl
      have : t = outcome (ghRmRecvTask env s msg) := by
        cases hr : ghRmRecvTask env s msg with
        | ok u => rw [hr] at h; cases h; rfl
        | error e => rw [hr] at h; cases h; rfl
      rw [this]
      exact .recv hl.1 hl.2
    · cases h
  | notifWork a =>
    simp only [step] at h
    split at h
    · rename_i ha
      cases h
      exact .work ha
    · cases h

end GH.Proof.Rm
