import Gunyah.Proof.Rm.CallTable
import Gunyah.Proof.Rm.Deliver
import Gunyah.Spec.Rm.Rpc
import Mathlib.Data.List.Nodup

/-!
# Agreement of calls and replies

The invariant of the exchange with the RM: the messages on the way are what
is left of the series being received, then whole series (`Stream`), each
reply among them for a call in flight that has got nothing of it yet; and a
call that was completed has got the whole of its own reply, once
(`CallsOk`). It gives `rpc_agreement`.
-/

namespace GH.Proof.Rm

open GH.Impl GH.Impl.Rm GH.Spec.Rm

/-! ## Connections of calls -/

theorem connectionOf_eq {s : Core} {k : Nat} {c : Connection} :
    connectionOf s k = some c ↔ ∃ a, InFlight s k a ∧ s.heap a = some c := by
  unfold connectionOf InFlight
  cases s.calls k <;> simp

/-- A call's connection depends on where the call is and on its own address. -/
theorem connectionOf_congr {s t : Core} {k : Nat} (hc : t.calls k = s.calls k)
    (hh : ∀ a, InFlight s k a → t.heap a = s.heap a) : connectionOf t k = connectionOf s k := by
  unfold connectionOf
  rw [hc]
  cases h : s.calls k with
  | sending a => exact hh a (.inl h)
  | waiting a => exact hh a (.inr h)
  | _ => rfl

theorem InFlight.unique {s : Core} {k : Nat} {a b : Addr} (ha : InFlight s k a) (hb : InFlight s k b) : a = b := by
  rcases ha with h₁ | h₁ <;> rcases hb with h₂ | h₂ <;> rw [h₁] at h₂ <;> cases h₂ <;> rfl

/-! ## The invariant -/

/-- A series on its way: the call it is a reply to, if it is one, the start
message and the continuations. -/
structure Block where
  origin : Option Nat
  start : List Byte
  conts : List (List Byte)

/-- The messages of a block, each with the call it is for. -/
def Block.msgs (b : Block) : List (Option Nat × List Byte) := (b.start :: b.conts).map (b.origin, ·)

/-- The connection has got nothing of a reply. -/
structure Fresh (c : Connection) : Prop where
  seqDone : c.seqDone = 0
  ret : c.ret = 0
  payload : c.payload = none
  size : c.size = 0

/-- The connection has got the whole of a reply. -/
structure Whole (c : Connection) (start : List Byte) (conts : List (List Byte)) : Prop where
  ret : c.ret = 0
  rmError : c.rmError = errCode start
  size : c.size = (seriesPayload (start :: conts)).length
  payload : (c.payload.getD []).take c.size = seriesPayload (start :: conts)

/-- A series that is still to be received. -/
structure Queued (s : Rpc) (b : Block) : Prop where
  wf : WellFormed b.start b.conts
  notif : b.origin = none → (rpcHdr b.start).type = GH_RM_RPC_TYPE_NOTIF
  reply : ∀ k, b.origin = some k → s.replies k = some (b.start, b.conts) ∧
    ∃ c, connectionOf s.core k = some c ∧ Fresh c ∧ IsReplyTo c b.start b.conts

/-- A series of which the start and `got` were received, and `rest` was not. -/
structure Receiving (s : Rpc) (b : Block) (got rest : List (List Byte)) : Prop where
  wf : WellFormed b.start b.conts
  split : b.conts = got ++ rest
  more : rest ≠ []
  notif : b.origin = none → (rpcHdr b.start).type = GH_RM_RPC_TYPE_NOTIF ∧ (s.core.pending = .null ∨
    ∃ a c, s.core.pending = .obj a ∧ s.core.heap a = some c ∧ Assembles c b.start got)
  reply : ∀ k, b.origin = some k → s.replies k = some (b.start, b.conts) ∧
    (rpcHdr b.start).type = GH_RM_RPC_TYPE_RPLY ∧ ∃ a c, InFlight s.core k a ∧ s.core.heap a = some c ∧
      s.core.pending = .obj a ∧ Assembles c b.start got ∧ c.seqDone = 0 ∧ c.ret = 0 ∧
      c.rmError = errCode b.start

/-- What is on the way to the receive task. -/
inductive Stream (s : Rpc) : Prop where
  | between (bs : List Block) (hq : s.rxq = bs.flatMap Block.msgs) (hp : s.core.pending = .null)
      (hb : ∀ b ∈ bs, Queued s b) (hn : (bs.filterMap Block.origin).Nodup)
  | within (b : Block) (got rest : List (List Byte)) (bs : List Block)
      (hq : s.rxq = rest.map (b.origin, ·) ++ bs.flatMap Block.msgs) (hr : Receiving s b got rest)
      (hb : ∀ b ∈ bs, Queued s b) (hn : ((b :: bs).filterMap Block.origin).Nodup)

/-- What a call that has returned gives of its reply: the error code, and the
payload if the error code is 0, or an error. -/
def Gives (r : CallRet) (start : List Byte) (conts : List (List Byte)) : Prop :=
  r.rmError = some (errCode start) ∧
    (errCode start = 0 → GivesPayload r (seriesPayload (start :: conts))) ∧
    (errCode start ≠ 0 → r.ret = .error (ghRemapError (errCode start).toInt))

/-- What the calls have got. -/
structure CallsOk (s : Rpc) : Prop where
  unanswered : ∀ k c, connectionOf s.core k = some c → s.replies k = none → Fresh c
  done : ∀ k c, connectionOf s.core k = some c → c.seqDone ≠ 0 → c.seqDone = 1 ∧ (some k, k) ∈ s.delivered ∧
    ∃ start conts, s.replies k = some (start, conts) ∧ Whole c start conts
  idle : ∀ k, s.core.calls k = .idle → s.replies k = none ∧ k ∉ s.started
  returned : ∀ k r, s.core.calls k = .returned r →
    ∃ start conts, s.replies k = some (start, conts) ∧ (some k, k) ∈ s.delivered ∧ Gives r start conts
  started : ∀ k c, connectionOf s.core k = some c → k ∈ s.started
  nodup : s.started.Nodup
  own : ∀ d ∈ s.delivered, d.1 = some d.2
  once : s.delivered.Nodup
  past : ∀ k, (some k, k) ∈ s.delivered → doneCount s.core k ≠ 0 ∨ ∃ r, s.core.calls k = .returned r

/-- The calls agree with the connections and with the stream of replies. -/
structure RpcInv (s : Rpc) : Prop where
  core : Inv (fun _ => True) s.core
  table : Registered s.core
  calls : CallsOk s
  stream : s.core.task = none → Stream s

theorem RpcInv.init : RpcInv Rpc.init where
  core := Inv.init
  table q a := by simp [Rpc.init, Core.init, HasSeq, InFlight]
  calls := {
    unanswered k c hc := by cases hc
    done k c hc := by cases hc
    idle k _ := ⟨rfl, List.not_mem_nil⟩
    returned k r hr := by cases hr
    started k c hc := by cases hc
    nodup := List.nodup_nil
    own d hd := absurd hd List.not_mem_nil
    once := List.nodup_nil
    past k hk := absurd hk List.not_mem_nil }
  stream _ := .between [] rfl rfl (by simp) (by simp)

/-! ## What is on the way -/

/-- Nothing changes for a call that was not completed, and its reply stays. -/
structure Kept (s t : Rpc) : Prop where
  calls : ∀ k a c, InFlight s.core k a → s.core.heap a = some c → c.seqDone = 0 →
    InFlight t.core k a ∧ t.core.heap a = some c
  replies : ∀ k x, s.replies k = some x → t.replies k = some x

theorem Kept.connectionOf {s t : Rpc} (h : Kept s t) {k : Nat} {c : Connection}
    (hc : connectionOf s.core k = some c) (hd : c.seqDone = 0) : connectionOf t.core k = some c := by
  obtain ⟨a, ha, hc⟩ := connectionOf_eq.mp hc
  exact connectionOf_eq.mpr ⟨a, h.calls k a c ha hc hd⟩

theorem Queued.mono {s t : Rpc} {b : Block} (h : Queued s b)
    (hk : ∀ k c, b.origin = some k → connectionOf s.core k = some c → Fresh c → connectionOf t.core k = some c)
    (hr : ∀ k x, s.replies k = some x → t.replies k = some x) : Queued t b := by
  refine ⟨h.wf, h.notif, fun k ho => ?_⟩
  obtain ⟨hr', c, hc, hf, hto⟩ := h.reply k ho
  exact ⟨hr k _ hr', c, hk k c ho hc hf, hf, hto⟩

theorem Queued.kept {s t : Rpc} {b : Block} (h : Queued s b) (hk : Kept s t) : Queued t b :=
  h.mono (fun _ _ _ hc hf => hk.connectionOf hc hf.seqDone) hk.replies

theorem Receiving.kept {s t : Rpc} {b : Block} {got rest : List (List Byte)} (h : Receiving s b got rest)
    (hk : Kept s t) (hp : t.core.pending = s.core.pending)
    (hh : ∀ a c, s.core.pending = .obj a → s.core.heap a = some c → t.core.heap a = some c) :
    Receiving t b got rest := by
  refine ⟨h.wf, h.split, h.more, fun ho => ?_, fun k ho => ?_⟩
  · obtain ⟨hty, hn | ⟨a, c, ha, hc, has⟩⟩ := h.notif ho
    · exact ⟨hty, .inl (hp.trans hn)⟩
    · exact ⟨hty, .inr ⟨a, c, hp.trans ha, hh a c ha hc, has⟩⟩
  · obtain ⟨hr, hty, a, c, ha, hc, hpa, has, hd, hrest⟩ := h.reply k ho
    obtain ⟨ha', hc'⟩ := hk.calls k a c ha hc hd
    exact ⟨hk.replies k _ hr, hty, a, c, ha', hc', hp.trans hpa, has, hd, hrest⟩

/-- A step that leaves the messages, the pending connection and the calls that
wait for a reply alone. -/
theorem Stream.kept {s t : Rpc} (h : Stream s) (hk : Kept s t) (hq : t.rxq = s.rxq)
    (hp : t.core.pending = s.core.pending)
    (hh : ∀ a c, s.core.pending = .obj a → s.core.heap a = some c → t.core.heap a = some c) : Stream t := by
  cases h with
  | between bs hq' hp' hb hn =>
    exact .between bs (hq.trans hq') (hp.trans hp') (fun b hb' => (hb b hb').kept hk) hn
  | within b got rest bs hq' hr hb hn =>
    exact .within b got rest bs (hq.trans hq') (hr.kept hk hp hh) (fun b hb' => (hb b hb').kept hk) hn

theorem nodup_origins {bs : List Block} {b : Block} (hn : (bs.filterMap Block.origin).Nodup)
    (hb : ∀ k, b.origin = some k → ∀ b' ∈ bs, b'.origin ≠ some k) :
    ((bs ++ [b]).filterMap Block.origin).Nodup := by
  rw [List.filterMap_append, List.nodup_append]
  refine ⟨hn, ?_, fun k hk k' hk' => ?_⟩
  · cases h : b.origin <;> simp [h]
  · obtain ⟨b', hb', ho⟩ := List.mem_filterMap.mp hk
    obtain ⟨b'', hb'', ho''⟩ := List.mem_filterMap.mp hk'
    rw [List.mem_singleton.mp hb''] at ho''
    rintro rfl
    exact hb k ho'' b' hb' ho

/-- The RM sends a series. -/
theorem Stream.send {s t : Rpc} {b : Block} (h : Stream s) (hk : Kept s t) (hc : t.core = s.core)
    (hq : t.rxq = s.rxq ++ b.msgs) (hb : Queued t b) (ho : ∀ k, b.origin = some k → s.replies k = none) :
    Stream t := by
  -- a call without a reply has no series on the way
  have hnew : ∀ k, b.origin = some k → ∀ b', Queued s b' → b'.origin ≠ some k := by
    intro k hbk b' hq' hbk'
    have hr := (hq'.reply k hbk').1
    rw [ho k hbk] at hr
    cases hr
  cases h with
  | between bs hq' hp hbs hn =>
    refine .between (bs ++ [b]) ?_ (by rw [hc]; exact hp) (fun b' hb' => ?_)
      (nodup_origins hn fun k hbk b' hb' => hnew k hbk b' (hbs b' hb'))
    · rw [hq, hq', List.flatMap_append, List.flatMap_singleton]
    · rcases List.mem_append.mp hb' with hb' | hb'
      · exact (hbs b' hb').kept hk
      · rw [List.mem_singleton.mp hb']
        exact hb
  | within b₀ got rest bs hq' hr hbs hn =>
    have hall : ((b₀ :: bs ++ [b]).filterMap Block.origin).Nodup := by
      refine nodup_origins hn fun k hbk b' hb' => ?_
      rcases List.mem_cons.mp hb' with rfl | hb'
      · intro hbk'
        have hr' := (hr.reply k hbk').1
        rw [ho k hbk] at hr'
        cases hr'
      · exact hnew k hbk b' (hbs b' hb')
    refine .within b₀ got rest (bs ++ [b]) ?_ (hr.kept hk (by rw [hc]) fun a c _ h => by rw [hc]; exact h)
      (fun b' hb' => ?_) hall
    · rw [hq, hq', List.flatMap_append, List.flatMap_singleton, List.append_assoc]
    · rcases List.mem_append.mp hb' with hb' | hb'
      · exact (hbs b' hb').kept hk
      · rw [List.mem_singleton.mp hb']
        exact hb

/-! ## What the calls have got -/

/-- A turn of the receive task that completes no call. -/
theorem CallsOk.recv_none {s : Rpc} {t : Core} {o : Option Nat} {rest : List (Option Nat × List Byte)}
    (h : CallsOk s) (hcalls : t.calls = s.core.calls)
    (hconn : ∀ k, connectionOf t k = connectionOf s.core k ∨
      (s.replies k ≠ none ∧ ∃ c c', connectionOf s.core k = some c ∧ connectionOf t k = some c' ∧
        c.seqDone = 0 ∧ c'.seqDone = 0)) : CallsOk (s.afterRecv t o rest) := by
  have hdone : ∀ k, doneCount t k = doneCount s.core k := by
    intro k
    rcases hconn k with e | ⟨-, c, c', hc, hc', hd, hd'⟩
    · rw [doneCount, e, doneCount]
    · simp [doneCount, hc, hc', hd, hd']
  have hdel : (s.afterRecv t o rest).delivered = s.delivered := by
    simp [Rpc.afterRecv, hdone]
  refine ⟨fun k c hc hr => ?_, fun k c hc hd => ?_, ?_, ?_, fun k c hc => ?_, h.nodup, ?_, ?_, ?_⟩
  · rcases hconn k with e | ⟨hne, -⟩
    · exact h.unanswered k c (e ▸ hc) hr
    · exact absurd hr hne
  · rcases hconn k with e | ⟨-, -, c', -, hc', -, hd'⟩
    · rw [hdel]
      exact h.done k c (e ▸ hc) hd
    · have : c = c' := Option.some.inj (hc.symm.trans hc')
      exact absurd hd' (this ▸ hd)
  · intro k hk
    exact h.idle k (hcalls ▸ hk)
  · intro k r hk
    rw [hdel]
    exact h.returned k r (hcalls ▸ hk)
  · rcases hconn k with e | ⟨-, c', -, hc', -⟩
    · exact h.started k c (e ▸ hc)
    · exact h.started k c' hc'
  · rw [hdel]
    exact h.own
  · rw [hdel]
    exact h.once
  · intro k hk
    rw [hdel] at hk
    show doneCount t k ≠ 0 ∨ ∃ r, t.calls k = .returned r
    rw [hdone, hcalls]
    exact h.past k hk

/-- A turn of the receive task that completes call `k` with its own reply. -/
theorem CallsOk.recv_done {s : Rpc} {t : Core} {k : Nat} {rest : List (Option Nat × List Byte)} {c c' : Connection}
    {start : List Byte} {conts : List (List Byte)} (h : CallsOk s) (hcalls : t.calls = s.core.calls)
    (hconn : ∀ k', k' ≠ k → connectionOf t k' = connectionOf s.core k')
    (hc : connectionOf s.core k = some c) (hd : c.seqDone = 0) (hc' : connectionOf t k = some c')
    (hd' : c'.seqDone = 1) (hr : s.replies k = some (start, conts)) (hw : Whole c' start conts) :
    CallsOk (s.afterRecv t (some k) rest) := by
  have h₀ : doneCount s.core k = 0 := by simp [doneCount, hc, hd]
  have h₁ : doneCount t k = 1 := by simp [doneCount, hc', hd']
  have hother : ∀ k', k' ≠ k → doneCount t k' = doneCount s.core k' := fun k' e => by
    rw [doneCount, hconn k' e, doneCount]
  have hnew : (some k, k) ∉ s.delivered := by
    intro hm
    rcases h.past k hm with hne | ⟨r, hk⟩
    · exact hne h₀
    · simp [connectionOf, hk] at hc
  have hdel : (s.afterRecv t (some k) rest).delivered = s.delivered ++ [(some k, k)] := by
    have hf : (s.started.filter fun k' => doneCount t k' ≠ doneCount s.core k') = [k] := by
      rw [List.filter_congr (q := fun k' => k' == k), List.filter_beq,
        List.count_eq_one_of_mem h.nodup (h.started k c hc)]
      · rfl
      · intro k' _
        by_cases e : k' = k
        · simp [e, h₀, h₁]
        · simp [e, hother k' e]
    simp only [Rpc.afterRecv, hf, List.map_singleton]
  refine ⟨fun k' d hd' hr' => ?_, fun k' d hd' hne => ?_, ?_, ?_, fun k' d hd' => ?_, h.nodup, ?_, ?_, ?_⟩
  · by_cases e : k' = k
    · subst e
      exact absurd (hr'.symm.trans hr) (by simp)
    · exact h.unanswered k' d (hconn k' e ▸ hd') hr'
  · rw [hdel]
    by_cases e : k' = k
    · subst e
      have : d = c' := Option.some.inj (hd'.symm.trans hc')
      subst this
      exact ⟨by assumption, List.mem_append_right _ (List.mem_singleton_self _), start, conts, hr, hw⟩
    · obtain ⟨h₂, h₃, h₄⟩ := h.done k' d (hconn k' e ▸ hd') hne
      exact ⟨h₂, List.mem_append_left _ h₃, h₄⟩
  · intro k' hk'
    exact h.idle k' (hcalls ▸ hk')
  · intro k' r hk'
    obtain ⟨st, cs, h₂, h₃, h₄⟩ := h.returned k' r (hcalls ▸ hk')
    rw [hdel]
    exact ⟨st, cs, h₂, List.mem_append_left _ h₃, h₄⟩
  · by_cases e : k' = k
    · exact e ▸ h.started k c hc
    · exact h.started k' d (hconn k' e ▸ hd')
  · rw [hdel]
    intro d hd
    rcases List.mem_append.mp hd with hd | hd
    · exact h.own d hd
    · rw [List.mem_singleton.mp hd]
  · rw [hdel, List.nodup_append]
    refine ⟨h.once, by simp, fun d hd d' hd' => ?_⟩
    rw [List.mem_singleton.mp hd']
    rintro rfl
    exact hnew hd
  · intro k' hk'
    rw [hdel] at hk'
    show doneCount t k' ≠ 0 ∨ ∃ r, t.calls k' = .returned r
    by_cases e : k' = k
    · subst e
      exact .inl (by rw [h₁]; decide)
    · rw [hother k' e, hcalls]
      rcases List.mem_append.mp hk' with hk' | hk'
      · exact h.past k' hk'
      · simp [e] at hk'

/-! ## The receive task -/

/-- A connection that has got all messages of a reply has got the whole of it. -/
theorem Assembles.whole {c c' : Connection} {start : List Byte} {conts : List (List Byte)}
    (h : Assembles c start conts) (hw : WellFormed start conts)
    (he : startPayload start = [] → c.payload = none ∧ c.size = 0) (hret : c.ret = 0)
    (herr : c.rmError = errCode start) (hc' : c' = { c with seqDone := c.seqDone + 1 }) :
    Whole c' start conts := by
  subst hc'
  by_cases hp : startPayload start = []
  · have hnil : conts = [] := by
      by_contra hne
      exact hw.first hne hp
    obtain ⟨hpay, hsize⟩ := he hp
    have hser : seriesPayload (start :: conts) = [] := by simp [seriesPayload, hp, hnil]
    exact ⟨hret, herr, by rw [hser]; exact hsize, by simp [hpay, hser]⟩
  · obtain ⟨buf, hbuf, -, htake⟩ := h.payload hp
    exact ⟨hret, herr, h.size hp, by rw [hbuf, Option.getD_some]; exact htake⟩

variable {s : Rpc} {b : Block} {bs : List Block} {u : Core} {a : Addr} {env : RecvEnv} {got rest : List (List Byte)}

/-- The messages that are left. -/
abbrev left (b : Block) (rest : List (List Byte)) (bs : List Block) : List (Option Nat × List Byte) :=
  rest.map (b.origin, ·) ++ bs.flatMap Block.msgs

/-- The series behind the one that is received stay where they are. -/
theorem queued_behind {t : Core} {o : Option Nat} {ms : List (Option Nat × List Byte)}
    (hb : ∀ b' ∈ bs, Queued s b') (hn : ((b :: bs).filterMap Block.origin).Nodup)
    (hconn : ∀ k, b.origin ≠ some k → connectionOf t k = connectionOf s.core k) :
    ∀ b' ∈ bs, Queued (s.afterRecv t o ms) b' := by
  intro b' hb'
  refine (hb b' hb').mono (fun k c ho hc _ => ?_) fun k x hr => hr
  refine (hconn k fun hbk => ?_).trans hc
  rw [List.filterMap_cons, hbk] at hn
  exact (List.nodup_cons.mp hn).1 (List.mem_filterMap.mpr ⟨b', hb', ho⟩)

theorem nodup_behind (hn : ((b :: bs).filterMap Block.origin).Nodup) : (bs.filterMap Block.origin).Nodup := by
  rw [List.filterMap_cons] at hn
  cases h : b.origin with
  | none => rwa [h] at hn
  | some k =>
    rw [h] at hn
    exact (List.nodup_cons.mp hn).2

/-- A message of a reply was put into the connection of its call. -/
theorem reply_turn {k : Nat} {c c' : Connection} (h : RpcInv s) (ho : b.origin = some k) (hwf : WellFormed b.start b.conts)
    (hsplit : b.conts = got ++ rest) (hty : (rpcHdr b.start).type = GH_RM_RPC_TYPE_RPLY)
    (hr : s.replies k = some (b.start, b.conts)) (hb : ∀ b' ∈ bs, Queued s b')
    (hn : ((b :: bs).filterMap Block.origin).Nodup) (hk : InFlight s.core k a) (hc : s.core.heap a = some c)
    (hd : c.seqDone = 0) (hcalls : u.calls = s.core.calls) (hp : u.pending = .obj a) (hc' : u.heap a = some c')
    (hheap : ∀ x, x ≠ a → u.heap x = s.core.heap x) (has : Assembles c' b.start got) (hd' : c'.seqDone = 0)
    (hret : c'.ret = 0) (herr : c'.rmError = errCode b.start)
    (he : startPayload b.start = [] → c'.payload = none ∧ c'.size = 0) :
    ∃ t, complete env u = .ok t ∧ CallsOk (s.afterRecv t b.origin (left b rest bs)) ∧
      Stream (s.afterRecv t b.origin (left b rest bs)) := by
  have hconn : ∀ {t : Core}, t.calls = s.core.calls → (∀ x, x ≠ a → t.heap x = s.core.heap x) →
      ∀ k', k' ≠ k → connectionOf t k' = connectionOf s.core k' := by
    intro t hcalls hheap k' hne
    refine connectionOf_congr (by rw [hcalls]) fun x hx => hheap x fun e => ?_
    exact hne (h.core.own.callInj k' k a (e ▸ hx) hk)
  have hsk : connectionOf s.core k = some c := connectionOf_eq.mpr ⟨a, hk, hc⟩
  have hku : InFlight u k a := by rwa [InFlight, hcalls]
  have hbehind : ∀ {t : Core}, (∀ k', k' ≠ k → connectionOf t k' = connectionOf s.core k') →
      ∀ b' ∈ bs, Queued (s.afterRecv t b.origin (left b rest bs)) b' := fun hconn =>
    queued_behind hb hn fun k' hne => hconn k' fun e => hne (e ▸ ho)
  by_cases hrest : rest = []
  · subst hrest
    rw [List.append_nil] at hsplit
    subst hsplit
    refine ⟨_, complete_last_reply hp hc' has hwf hty, ?_, ?_⟩
    · rw [ho]
      refine h.calls.recv_done hcalls (hconn hcalls fun x hx => ?_) hsk hd
        (connectionOf_eq.mpr ⟨a, hku, Function.update_self ..⟩) (by rw [hd']) hr (has.whole hwf he hret herr rfl)
      exact (Function.update_of_ne hx ..).trans (hheap x hx)
    · refine .between bs rfl rfl (hbehind (hconn hcalls fun x hx => ?_)) (nodup_behind hn)
      exact (Function.update_of_ne hx ..).trans (hheap x hx)
  · refine ⟨u, complete_more hp hc' has (hsplit ▸ hwf) hrest, ?_, ?_⟩
    · refine h.calls.recv_none hcalls fun k' => ?_
      by_cases e : k' = k
      · subst e
        exact .inr ⟨by rw [hr]; simp, c, c', hsk, connectionOf_eq.mpr ⟨a, hku, hc'⟩, hd, hd'⟩
      · exact .inl (hconn hcalls hheap k' e)
    · refine .within b got rest bs rfl ⟨hwf, hsplit, hrest, fun hn' => ?_, fun k' hk' => ?_⟩
        (hbehind (hconn hcalls hheap)) hn
      · rw [ho] at hn'
        cases hn'
      · rw [ho, Option.some.injEq] at hk'
        subst hk'
        exact ⟨hr, hty, a, c', hku, hc', hp, has, hd', hret, herr⟩

/-- A message of a notification was put into its connection, which is no call's. -/
theorem notif_turn {c : Connection} (h : RpcInv s) (ho : b.origin = none) (hwf : WellFormed b.start b.conts)
    (hsplit : b.conts = got ++ rest) (hty : (rpcHdr b.start).type = GH_RM_RPC_TYPE_NOTIF)
    (hb : ∀ b' ∈ bs, Queued s b') (hn : ((b :: bs).filterMap Block.origin).Nodup)
    (hk : ∀ k, ¬ InFlight s.core k a) (hcalls : u.calls = s.core.calls) (hp : u.pending = .obj a)
    (hc : u.heap a = some c) (hheap : ∀ x, x ≠ a → u.heap x = s.core.heap x) (has : Assembles c b.start got) :
    ∃ t, complete env u = .ok t ∧ CallsOk (s.afterRecv t b.origin (left b rest bs)) ∧
      Stream (s.afterRecv t b.origin (left b rest bs)) := by
  have hconn : ∀ {t : Core}, t.calls = s.core.calls → (∀ x, x ≠ a → t.heap x = s.core.heap x) →
      ∀ k, connectionOf t k = connectionOf s.core k := by
    intro t hcalls hheap k
    exact connectionOf_congr (by rw [hcalls]) fun x hx => hheap x fun e => hk k (e ▸ hx)
  by_cases hrest : rest = []
  · subst hrest
    rw [List.append_nil] at hsplit
    subst hsplit
    obtain ⟨t, ht, htc, htp, hth⟩ := complete_last_notif hp hc has hwf hty
    have hcon := hconn (htc.trans hcalls) fun x hx => (hth x hx).trans (hheap x hx)
    exact ⟨t, ht, h.calls.recv_none (htc.trans hcalls) fun k => .inl (hcon k),
      .between bs rfl htp (queued_behind hb hn fun k _ => hcon k) (nodup_behind hn)⟩
  · have hcon := hconn hcalls hheap
    refine ⟨u, complete_more hp hc has (hsplit ▸ hwf) hrest, h.calls.recv_none hcalls fun k => .inl (hcon k), ?_⟩
    refine .within b got rest bs rfl ⟨hwf, hsplit, hrest, fun _ => ⟨hty, .inr ⟨a, c, hp, hc, has⟩⟩, fun k hk' => ?_⟩
      (queued_behind hb hn fun k _ => hcon k) hn
    rw [ho] at hk'
    cases hk'

/-- A message of a notification that was dropped. -/
theorem drop_turn (h : RpcInv s) (ho : b.origin = none) (hwf : WellFormed b.start b.conts)
    (hsplit : b.conts = got ++ rest) (hty : (rpcHdr b.start).type = GH_RM_RPC_TYPE_NOTIF)
    (hb : ∀ b' ∈ bs, Queued s b') (hn : ((b :: bs).filterMap Block.origin).Nodup)
    (hp : s.core.pending = .null) :
    CallsOk (s.afterRecv s.core b.origin (left b rest bs)) ∧
      Stream (s.afterRecv s.core b.origin (left b rest bs)) := by
  refine ⟨h.calls.recv_none rfl fun k => .inl rfl, ?_⟩
  by_cases hrest : rest = []
  · subst hrest
    exact .between bs rfl hp (queued_behind hb hn fun k _ => rfl) (nodup_behind hn)
  · refine .within b got rest bs rfl ⟨hwf, hsplit, hrest, fun _ => ⟨hty, .inl hp⟩, fun k hk => ?_⟩
      (queued_behind hb hn fun k _ => rfl) hn
    rw [ho] at hk
    cases hk

/-- A fault of the receive task, which may have started to set up the
connection of a call that waits for its reply. -/
theorem fault_turn {t : Core} {o : Option Nat} {ms : List (Option Nat × List Byte)} (h : RpcInv s)
    (hcalls : t.calls = s.core.calls)
    (hheap : t.heap = s.core.heap ∨ ∃ k a c c', InFlight s.core k a ∧ s.core.heap a = some c ∧
      s.replies k ≠ none ∧ c.seqDone = 0 ∧ c'.seqDone = 0 ∧ t.heap = Function.update s.core.heap a (some c')) :
    CallsOk (s.afterRecv t o ms) := by
  refine h.calls.recv_none hcalls fun k' => ?_
  rcases hheap with hheap | ⟨k, a, c, c', hk, hc, hr, hd, hd', hheap⟩
  · exact .inl (connectionOf_congr (by rw [hcalls]) fun x _ => by rw [hheap])
  by_cases e : k' = k
  · subst e
    have hkt : InFlight t k' a := by rwa [InFlight, hcalls]
    exact .inr ⟨hr, c, c', connectionOf_eq.mpr ⟨a, hk, hc⟩,
      connectionOf_eq.mpr ⟨a, hkt, by rw [hheap, Function.update_self]⟩, hd, hd'⟩
  · refine .inl (connectionOf_congr (by rw [hcalls]) fun x hx => ?_)
    have hxa : x ≠ a := fun exa => e (h.core.own.callInj k' k a (exa ▸ hx) hk)
    rw [hheap, Function.update_of_ne hxa]

/-- What a turn leaves, whether or not it ends in a fault. -/
theorem outcome_ok {r : Res Core} {ms : List (Option Nat × List Byte)} {o : Option Nat}
    (h : ∃ t, r = .ok t ∧ CallsOk (s.afterRecv t o ms) ∧ Stream (s.afterRecv t o ms)) :
    CallsOk (s.afterRecv (outcome r) o ms) ∧ ((outcome r).task = none → Stream (s.afterRecv (outcome r) o ms)) := by
  obtain ⟨t, rfl, hc, hs⟩ := h
  exact ⟨hc, fun _ => hs⟩

theorem recv_queued (h : RpcInv s) (hp : s.core.pending = .null) (hb : ∀ b' ∈ b :: bs, Queued s b')
    (hn : ((b :: bs).filterMap Block.origin).Nodup) :
    CallsOk (s.afterRecv (outcome (ghRmRecvTask env s.core b.start)) b.origin (left b b.conts bs)) ∧
      ((outcome (ghRmRecvTask env s.core b.start)).task = none →
        Stream (s.afterRecv (outcome (ghRmRecvTask env s.core b.start)) b.origin (left b b.conts bs))) := by
  have hq := hb b List.mem_cons_self
  have hbs : ∀ b' ∈ bs, Queued s b' := fun b' hb' => hb b' (List.mem_cons_of_mem _ hb')
  cases ho : b.origin with
  | none =>
    have hty := hq.notif ho
    rw [← ho, recvTask_notif hq.wf hty hp]
    cases hconn : env.connection with
    | false =>
      rw [if_neg (by simp)]
      exact ⟨fault_turn h rfl (.inl rfl), fun hn => by cases hn⟩
    | true =>
      rw [if_pos rfl]
      cases hpay : env.payload with
      | false =>
        rw [if_neg (by simp)]
        obtain ⟨hc, hs⟩ := drop_turn h ho hq.wf (List.nil_append _).symm hty hbs hn hp
        exact ⟨hc, fun _ => hs⟩
      | true =>
        rw [if_pos rfl]
        refine outcome_ok (notif_turn h ho hq.wf (List.nil_append _).symm hty hbs hn (fun k hk => ?_) rfl rfl
          (Function.update_self ..) (fun x hx => Function.update_of_ne hx ..) (notified_assembles hq.wf hty))
        exact Nat.lt_irrefl _ (h.core.own.callLt k _ hk)
  | some k =>
    obtain ⟨hr, c, hconn, hf, hw, hty, hseq, hid⟩ := hq.reply k ho
    obtain ⟨a, hk, hc⟩ := connectionOf_eq.mp hconn
    have hreg : s.core.idr (rpcHdr b.start).seq = some a := by
      rw [hseq]
      exact (h.table c.seq a).mpr ⟨k, hk, c, hc, rfl⟩
    obtain ⟨c', hkeep, ⟨e, t, ht, htc, -, hth⟩ | ⟨has, herr, he, ht⟩⟩ :=
      recvTask_reply env hw hty hp hreg hc hseq.symm hid.symm
    · rw [ht]
      refine ⟨fault_turn h htc ?_, fun hn => by cases hn⟩
      rcases hth with hth | hth
      · exact .inl hth
      · exact .inr ⟨k, a, c, c', hk, hc, by rw [hr]; simp, hf.seqDone, hkeep.seqDone.trans hf.seqDone, hth⟩
    · rw [← ho, ht]
      exact outcome_ok (reply_turn h ho hq.wf (List.nil_append _).symm hty hr hbs hn hk hc hf.seqDone rfl rfl
        (Function.update_self ..) (fun x hx => Function.update_of_ne hx ..) has (hkeep.seqDone.trans hf.seqDone)
        (hkeep.ret.trans hf.ret) herr fun h0 => ⟨(he h0).1.trans hf.payload, (he h0).2.trans hf.size⟩)

theorem recv_receiving {m : List Byte} (h : RpcInv s) (hr : Receiving s b got (m :: rest))
    (hbs : ∀ b' ∈ bs, Queued s b') (hn : ((b :: bs).filterMap Block.origin).Nodup) :
    CallsOk (s.afterRecv (outcome (ghRmRecvTask env s.core m)) b.origin (left b rest bs)) ∧
      ((outcome (ghRmRecvTask env s.core m)).task = none →
        Stream (s.afterRecv (outcome (ghRmRecvTask env s.core m)) b.origin (left b rest bs))) := by
  have hsplit : b.conts = got ++ [m] ++ rest := by rw [hr.split, List.append_assoc]; rfl
  have hm : IsCont b.start m := hr.wf.cont m (by simp [hsplit])
  have hne : startPayload b.start ≠ [] := hr.wf.first (by simp [hsplit])
  have hnum : got.length < (rpcHdr b.start).fragments.toNat := by
    rw [hr.wf.num, hr.split, List.length_append, List.length_cons]
    omega
  cases ho : b.origin with
  | none =>
    obtain ⟨hty, hp | ⟨a, c, hp, hc, has⟩⟩ := hr.notif ho
    · rw [← ho, recvTask_cont_null hp hm.1]
      obtain ⟨hc, hs⟩ := drop_turn h ho hr.wf hsplit hty hbs hn hp
      exact ⟨hc, fun _ => hs⟩
    · obtain ⟨c', has', -, -, ht⟩ := recvTask_cont env hp hc has hne (by rw [has.num]; exact hnum) hm
      have hfree := (h.core.own.notif a c hp hc (by rw [has.type, hty]; decide)).1
      rw [← ho, ht]
      exact outcome_ok (notif_turn h ho hr.wf hsplit hty hbs hn hfree rfl hp (Function.update_self ..)
        (fun x hx => Function.update_of_ne hx ..) has')
  | some k =>
    obtain ⟨hrep, hty, a, c, hk, hc, hp, has, hd, hret, herr⟩ := hr.reply k ho
    obtain ⟨c', has', hkeep, herr', ht⟩ := recvTask_cont env hp hc has hne (by rw [has.num]; exact hnum) hm
    rw [← ho, ht]
    exact outcome_ok (reply_turn h ho hr.wf hsplit hty hrep hbs hn hk hc hd rfl hp (Function.update_self ..)
      (fun x hx => Function.update_of_ne hx ..) has' (hkeep.seqDone.trans hd) (hkeep.ret.trans hret)
      (herr'.trans herr) fun h0 => absurd h0 hne)

/-- The receive task gets the next message. -/
theorem recv_ok {o : Option Nat} {m : List Byte} {ms : List (Option Nat × List Byte)} (h : RpcInv s)
    (hq : s.rxq = (o, m) :: ms) (ht : s.core.task = none) :
    CallsOk (s.afterRecv (outcome (ghRmRecvTask env s.core m)) o ms) ∧
      ((outcome (ghRmRecvTask env s.core m)).task = none →
        Stream (s.afterRecv (outcome (ghRmRecvTask env s.core m)) o ms)) := by
  cases h.stream ht with
  | between bs hq' hp hb hn =>
    cases bs with
    | nil =>
      rw [hq] at hq'
      cases hq'
    | cons b bs =>
      rw [hq, List.flatMap_cons, Block.msgs, List.map_cons, List.cons_append, List.cons.injEq, Prod.mk.injEq] at hq'
      obtain ⟨⟨rfl, rfl⟩, rfl⟩ := hq'
      exact recv_queued h hp hb hn
  | within b got rest bs hq' hr hb hn =>
    cases rest with
    | nil => exact absurd rfl hr.more
    | cons m' rest =>
      rw [hq, List.map_cons, List.cons_append, List.cons.injEq, Prod.mk.injEq] at hq'
      obtain ⟨⟨rfl, rfl⟩, rfl⟩ := hq'
      exact recv_receiving h hr hb hn

/-! ## The other steps -/

/-- A step that leaves every call's connection alone. -/
theorem CallsOk.congr {t : Rpc} (h : CallsOk s) (hidle : ∀ k, t.core.calls k = .idle → s.core.calls k = .idle)
    (hret : ∀ k r, t.core.calls k = .returned r ↔ s.core.calls k = .returned r)
    (hconn : ∀ k, connectionOf t.core k = connectionOf s.core k) (hst : t.started = s.started)
    (hdel : t.delivered = s.delivered) (hr : ∀ k x, s.replies k = some x → t.replies k = some x)
    (hnone : ∀ k, s.core.calls k = .idle → t.replies k = s.replies k) : CallsOk t where
  unanswered k c hc hn := by
    refine h.unanswered k c (hconn k ▸ hc) ?_
    cases hs : s.replies k with
    | none => rfl
    | some x =>
      rw [hr k x hs] at hn
      cases hn
  done k c hc hd := by
    obtain ⟨h₁, h₂, start, conts, h₃, h₄⟩ := h.done k c (hconn k ▸ hc) hd
    exact ⟨h₁, hdel ▸ h₂, start, conts, hr k _ h₃, h₄⟩
  idle k hk := by
    have hs := hidle k hk
    rw [hnone k hs, hst]
    exact h.idle k hs
  returned k r hk := by
    obtain ⟨start, conts, h₁, h₂, h₃⟩ := h.returned k r ((hret k r).mp hk)
    exact ⟨start, conts, hr k _ h₁, hdel ▸ h₂, h₃⟩
  started k c hc := hst ▸ h.started k c (hconn k ▸ hc)
  nodup := hst ▸ h.nodup
  own := hdel ▸ h.own
  once := hdel ▸ h.once
  past k hk := by
    rw [doneCount, hconn k]
    rcases h.past k (hdel ▸ hk) with hd | ⟨r, hk⟩
    · exact .inl hd
    · exact .inr ⟨r, (hret k r).mpr hk⟩

/-- A call starts. -/
theorem CallsOk.call {core : Core} {k : Nat} {c : Connection} (h : CallsOk s) (hk : s.core.calls k = .idle)
    (hcalls : core.calls = Function.update s.core.calls k (.sending s.core.next))
    (hconn : ∀ k', k' ≠ k → connectionOf core k' = connectionOf s.core k')
    (hc : core.heap s.core.next = some c) (hf : Fresh c) :
    CallsOk { s with core := core, started := s.started ++ [k] } := by
  have hkc : connectionOf core k = some c :=
    connectionOf_eq.mpr ⟨s.core.next, .inl (by rw [hcalls, Function.update_self]), hc⟩
  have hcall : ∀ k', k' ≠ k → core.calls k' = s.core.calls k' := fun k' e => by
    rw [hcalls, Function.update_of_ne e]
  have hne : ∀ k' x, core.calls k' = x → (∀ a, x ≠ .sending a) → k' ≠ k := by
    rintro k' x hx hxa rfl
    rw [hcalls, Function.update_self] at hx
    exact hxa _ hx.symm
  obtain ⟨hnone, hnew⟩ := h.idle k hk
  refine ⟨fun k' d hd hr => ?_, fun k' d hd hdone => ?_, fun k' hk' => ?_, fun k' r hk' => ?_, fun k' d hd => ?_, ?_,
    h.own, h.once, fun k' hk' => ?_⟩
  · by_cases e : k' = k
    · subst e
      rw [← Option.some.inj (hkc.symm.trans hd)]
      exact hf
    · exact h.unanswered k' d (hconn k' e ▸ hd) hr
  · by_cases e : k' = k
    · subst e
      rw [← Option.some.inj (hkc.symm.trans hd)] at hdone
      exact absurd hf.seqDone hdone
    · exact h.done k' d (hconn k' e ▸ hd) hdone
  · have e := hne k' _ hk' (by simp)
    obtain ⟨h₁, h₂⟩ := h.idle k' ((hcall k' e).symm.trans hk')
    exact ⟨h₁, by simp [h₂, e]⟩
  · exact h.returned k' r ((hcall k' (hne k' _ hk' (by simp))).symm.trans hk')
  · by_cases e : k' = k
    · simp [e]
    · exact List.mem_append_left _ (h.started k' d (hconn k' e ▸ hd))
  · rw [List.nodup_append]
    refine ⟨h.nodup, by simp, fun x hx y hy => ?_⟩
    rw [List.mem_singleton.mp hy]
    rintro rfl
    exact hnew hx
  · show doneCount core k' ≠ 0 ∨ ∃ r, core.calls k' = .returned r
    have hpast := h.past k' hk'
    by_cases e : k' = k
    · subst e
      simp [doneCount, connectionOf, hk] at hpast
    · rw [doneCount, hconn k' e, hcall k' e]
      exact hpast

/-- What a call that was completed gives. -/
theorem Whole.gives {c : Connection} {start : List Byte} {conts : List (List Byte)} (h : Whole c start conts) :
    Gives c.callRet start conts := by
  unfold Connection.callRet
  rw [h.rmError]
  by_cases he : errCode start = 0
  · rw [if_neg (not_not.mpr he), if_neg (not_not.mpr h.ret)]
    refine ⟨rfl, fun _ => ⟨c.payload, rfl, by rw [h.size], ?_⟩, fun hne => absurd he hne⟩
    rw [← h.size, h.payload]
  · rw [if_pos he]
    exact ⟨rfl, fun h0 => absurd h0 he, fun _ => rfl⟩

/-- A call that was completed returns. -/
theorem CallsOk.finish {core : Core} {k : Nat} {c : Connection} (h : CallsOk s)
    (hc : connectionOf s.core k = some c) (hd : 0 < c.seqDone)
    (hcalls : core.calls = Function.update s.core.calls k (.returned c.callRet))
    (hconn : ∀ k', k' ≠ k → connectionOf core k' = connectionOf s.core k') :
    CallsOk { s with core := core } := by
  have hkc : connectionOf core k = none := by
    simp [connectionOf, hcalls]
  have hcall : ∀ k', k' ≠ k → core.calls k' = s.core.calls k' := fun k' e => by
    rw [hcalls, Function.update_of_ne e]
  have hne : ∀ k' d, connectionOf core k' = some d → k' ≠ k := by
    rintro k' d hd rfl
    rw [hkc] at hd
    cases hd
  obtain ⟨-, hdel, start, conts, hr, hw⟩ := h.done k c hc (Nat.ne_of_gt hd)
  refine ⟨fun k' d hd hr => ?_, fun k' d hd hdone => ?_, fun k' hk' => ?_, fun k' r hk' => ?_, fun k' d hd => ?_,
    h.nodup, h.own, h.once, fun k' hk' => ?_⟩
  · exact h.unanswered k' d (hconn k' (hne k' d hd) ▸ hd) hr
  · exact h.done k' d (hconn k' (hne k' d hd) ▸ hd) hdone
  · by_cases e : k' = k
    · rw [e, show ({ s with core := core } : Rpc).core = core from rfl, hcalls, Function.update_self] at hk'
      cases hk'
    · exact h.idle k' ((hcall k' e).symm.trans hk')
  · by_cases e : k' = k
    · subst e
      rw [show ({ s with core := core } : Rpc).core = core from rfl, hcalls, Function.update_self] at hk'
      cases hk'
      exact ⟨start, conts, hr, hdel, hw.gives⟩
    · exact h.returned k' r ((hcall k' e).symm.trans hk')
  · exact h.started k' d (hconn k' (hne k' d hd) ▸ hd)
  · show doneCount core k' ≠ 0 ∨ ∃ r, core.calls k' = .returned r
    by_cases e : k' = k
    · subst e
      exact .inr ⟨_, by rw [hcalls, Function.update_self]⟩
    · rw [doneCount, hconn k' e, hcall k' e]
      exact h.past k' hk'

theorem rpcInv_call {k : Nat} {args : CallArgs} {env : CallEnv} {q : BitVec 16} {core : Core} (h : RpcInv s)
    (he : env.idr = .id q) (hr : ReachesIdr args env) (hs : step s.core (.call k args env) = some core) :
    RpcInv { s with core := core, started := s.started ++ [k] } := by
  have hcore := inv_step_any _ _ _ h.core hs
  have htab := (registered_step h.core h.table hs).mpr fun _ => ⟨q, he⟩
  cases step_does hs with
  | refuse r hr' hk => exact absurd hr hr'
  | noId _ hk he' =>
    rw [he] at he'
    cases he'
  | alloc _ hk he' hq =>
    have hnext : ∀ {k' a}, InFlight s.core k' a → a ≠ s.core.next := fun ha =>
      Nat.ne_of_lt (h.core.own.callLt _ _ ha)
    refine ⟨hcore, htab, h.calls.call hk rfl (fun k' e => ?_) (Function.update_self ..) ⟨rfl, rfl, rfl, rfl⟩,
      fun ht => (h.stream ht).kept ⟨fun k' a c ha hc _ => ?_, fun _ _ hx => hx⟩ rfl rfl fun a c hp hc => ?_⟩
    · exact connectionOf_congr (Function.update_of_ne e ..) fun a ha => Function.update_of_ne (hnext ha) ..
    · have e : k' ≠ k := by
        rintro rfl
        simp [InFlight, hk] at ha
      refine ⟨?_, (Function.update_of_ne (hnext ha) ..).trans hc⟩
      simpa only [InFlight, setCall_calls, set_calls, Function.update_of_ne e] using ha
    · exact (Function.update_of_ne (Nat.ne_of_lt (h.core.own.pendingLt a hp)) ..).trans hc

theorem rpcInv_send {k : Nat} {ret : Int} {core : Core} (h : RpcInv s) (hr : 0 ≤ ret)
    (hs : step s.core (.send k ret) = some core) : RpcInv { s with core := core } := by
  have hcore := inv_step_any _ _ _ h.core hs
  have htab := (registered_step h.core h.table hs).mpr hr
  cases step_does hs with
  | sendFail hk hr' => exact absurd hr (Int.not_le.mpr hr')
  | @sendOk _ _ a hk _ =>
    have hcall : ∀ k', k' ≠ k → (s.core.setCall k (.waiting a)).calls k' = s.core.calls k' := fun k' e =>
      Function.update_of_ne e ..
    have hself : (s.core.setCall k (.waiting a)).calls k = .waiting a := Function.update_self ..
    refine ⟨hcore, htab, h.calls.congr (fun k' hk' => ?_) (fun k' r => ?_) (fun k' => ?_) rfl rfl
      (fun _ _ hx => hx) fun _ _ => rfl,
      fun ht => (h.stream ht).kept ⟨fun k' b c hb hc _ => ⟨?_, hc⟩, fun _ _ hx => hx⟩ rfl rfl fun _ _ _ hc => hc⟩
    all_goals by_cases e : k' = k
    · rw [e, hself] at hk'
      cases hk'
    · exact (hcall k' e).symm.trans hk'
    · rw [e, hself, hk]
      simp
    · rw [hcall k' e]
    · simp only [connectionOf, e, hself, hk, setCall_heap]
    · simp only [connectionOf, hcall k' e, setCall_heap]
    · subst e
      refine .inr (hself.trans ?_)
      rw [InFlight.unique hb (.inl hk)]
    · simpa only [InFlight, hcall k' e] using hb

/-- The pending connection is not that of a completed call. -/
theorem Stream.pending_ne {k : Nat} {c : Connection} (hs : Stream s) (ho : Own s.core) (hk : InFlight s.core k a)
    (hc : s.core.heap a = some c) (hd : 0 < c.seqDone) : s.core.pending ≠ .obj a := by
  intro hp
  cases hs with
  | between bs hq hp' hb hn =>
    rw [hp] at hp'
    cases hp'
  | within b got rest bs hq hr hb hn =>
    cases ho' : b.origin with
    | none =>
      obtain ⟨hty, hp' | ⟨a', c', hp', hc', has⟩⟩ := hr.notif ho'
      · rw [hp] at hp'
        cases hp'
      · exact (ho.notif a' c' hp' hc' (by rw [has.type, hty]; decide)).1 k
          (by rw [hp] at hp'; cases hp'; exact hk)
    | some k' =>
      obtain ⟨-, -, a', c', -, hc', hp', -, hz, -⟩ := hr.reply k' ho'
      rw [hp] at hp'
      cases hp'
      rw [hc, Option.some.injEq] at hc'
      rw [hc', hz] at hd
      exact Nat.lt_irrefl _ hd

theorem rpcInv_finish {k : Nat} {core : Core} (h : RpcInv s) (hs : step s.core (.finish k) = some core) :
    RpcInv { s with core := core } := by
  have hcore := inv_step_any _ _ _ h.core hs
  have htab := (registered_step h.core h.table hs).mpr trivial
  cases step_does hs with
  | @finish _ a c hk hc hd =>
    have hka : InFlight s.core k a := .inr hk
    have hne : ∀ {k' b}, InFlight s.core k' b → k' ≠ k → b ≠ a := fun hb e hba =>
      e (h.core.own.callInj _ k a (hba ▸ hb) hka)
    refine ⟨hcore, htab, h.calls.finish (connectionOf_eq.mpr ⟨a, hka, hc⟩) hd rfl (fun k' e => ?_),
      fun ht => (h.stream ht).kept ⟨fun k' b d hb hd' hz => ?_, fun _ _ hx => hx⟩ rfl rfl fun b d hp hd' => ?_⟩
    · exact connectionOf_congr (Function.update_of_ne e ..) fun b hb => Function.update_of_ne (hne hb e) ..
    · have e : k' ≠ k := by
        rintro rfl
        obtain rfl := InFlight.unique hb hka
        rw [hc, Option.some.injEq] at hd'
        rw [hd', hz] at hd
        exact Nat.lt_irrefl _ hd
      refine ⟨?_, (Function.update_of_ne (hne hb e) ..).trans hd'⟩
      simpa only [InFlight, ghRmCallFinish, setCall_calls, free_calls, Function.update_of_ne e] using hb
    · have hba : b ≠ a := by
        rintro rfl
        exact (h.stream ht).pending_ne h.core.own hka hc hd hp
      exact (Function.update_of_ne hba ..).trans hd'

theorem rpcInv_notifWork {core : Core} (h : RpcInv s) (hs : step s.core (.notifWork a) = some core) :
    RpcInv { s with core := core } := by
  have hcore := inv_step_any _ _ _ h.core hs
  have htab := (registered_step h.core h.table hs).mpr trivial
  cases step_does hs with
  | work ha =>
    obtain ⟨hno, -, hpend⟩ := h.core.own.works a ha
    have hne : ∀ {k b}, InFlight s.core k b → b ≠ a := fun hb e => hno _ (e ▸ hb)
    refine ⟨hcore, htab, h.calls.congr (fun _ hk => hk) (fun _ _ => Iff.rfl) (fun k => ?_) rfl rfl
      (fun _ _ hx => hx) fun _ _ => rfl,
      fun ht => (h.stream ht).kept ⟨fun k b c hb hc _ => ⟨hb, ?_⟩, fun _ _ hx => hx⟩ rfl rfl fun b c hp hc => ?_⟩
    · exact connectionOf_congr rfl fun b hb => Function.update_of_ne (hne hb) ..
    · exact (Function.update_of_ne (hne hb) ..).trans hc
    · have hba : b ≠ a := fun e => hpend (e ▸ hp)
      exact (Function.update_of_ne hba ..).trans hc

theorem rpcInv_reply {k : Nat} {c : Connection} {start : List Byte} {conts : List (List Byte)} (h : RpcInv s)
    (hc : connectionOf s.core k = some c) (hr : s.replies k = none) (hto : IsReplyTo c start conts) :
    RpcInv { s with rxq := s.rxq ++ (start :: conts).map (some k, ·),
                    replies := Function.update s.replies k (some (start, conts)) } := by
  have hmono : ∀ k' x, s.replies k' = some x → Function.update s.replies k (some (start, conts)) k' = some x := by
    intro k' x hx
    have e : k' ≠ k := by
      rintro rfl
      rw [hr] at hx
      cases hx
    rwa [Function.update_of_ne e]
  refine ⟨h.core, h.table, h.calls.congr (fun _ hk => hk) (fun _ _ => Iff.rfl) (fun _ => rfl) rfl rfl hmono
    fun k' hk' => ?_, fun ht => ?_⟩
  · have e : k' ≠ k := by
      rintro rfl
      simp [connectionOf, hk'] at hc
    exact Function.update_of_ne e ..
  · have hfresh := h.calls.unanswered k c hc hr
    refine (h.stream ht).send (b := ⟨some k, start, conts⟩) ⟨fun _ _ _ hk' hc' _ => ⟨hk', hc'⟩, hmono⟩ rfl rfl
      ⟨hto.1, fun hn => absurd hn (by simp), fun k' hk' => ?_⟩ fun k' hk' => ?_
    · cases hk'
      exact ⟨Function.update_self .., c, hc, hfresh, hto⟩
    · cases hk'
      exact hr

theorem rpcInv_notif {start : List Byte} {conts : List (List Byte)} (h : RpcInv s) (hw : WellFormed start conts)
    (hty : (rpcHdr start).type = GH_RM_RPC_TYPE_NOTIF) :
    RpcInv { s with rxq := s.rxq ++ (start :: conts).map (none, ·) } := by
  refine ⟨h.core, h.table, h.calls.congr (fun _ hk => hk) (fun _ _ => Iff.rfl) (fun _ => rfl) rfl rfl
    (fun _ _ hx => hx) fun _ _ => rfl, fun ht => ?_⟩
  exact (h.stream ht).send (b := ⟨none, start, conts⟩) ⟨fun _ _ _ hk hc _ => ⟨hk, hc⟩, fun _ _ hx => hx⟩ rfl rfl
    ⟨hw, fun _ => hty, fun k hk => by cases hk⟩ fun k hk => by cases hk

theorem rpcInv_step (s : Rpc) (act : RpcAct) (t : Rpc) (h : RpcInv s) (hs : rpcStep s act = some t) : RpcInv t := by
  cases act with
  | call k args env =>
    simp only [rpcStep] at hs
    split at hs
    · rename_i q he
      split at hs
      · rename_i hr
        obtain ⟨core, hcore, rfl⟩ := Option.map_eq_some_iff.mp hs
        exact rpcInv_call h he hr hcore
      · cases hs
    · cases hs
  | send k ret =>
    simp only [rpcStep] at hs
    split at hs
    · rename_i hr
      obtain ⟨core, hcore, rfl⟩ := Option.map_eq_some_iff.mp hs
      exact rpcInv_send h hr hcore
    · cases hs
  | finish k =>
    obtain ⟨core, hcore, rfl⟩ := Option.map_eq_some_iff.mp hs
    exact rpcInv_finish h hcore
  | notifWork a =>
    obtain ⟨core, hcore, rfl⟩ := Option.map_eq_some_iff.mp hs
    exact rpcInv_notifWork h hcore
  | reply k start conts =>
    simp only [rpcStep] at hs
    split at hs
    · rename_i c hc
      split at hs
      · rename_i hr
        cases hs
        exact rpcInv_reply h hc hr.1 hr.2
      · cases hs
    · cases hs
  | notif start conts =>
    simp only [rpcStep] at hs
    split at hs
    · rename_i hw
      cases hs
      exact rpcInv_notif h hw.1 hw.2
    · cases hs
  | recv env =>
    simp only [rpcStep] at hs
    split at hs
    · rename_i o m ms hq
      obtain ⟨core, hcore, rfl⟩ := Option.map_eq_some_iff.mp hs
      have hinv := inv_step_any _ _ _ h.core hcore
      have htab := (registered_step h.core h.table hcore).mpr trivial
      cases step_does hcore with
      | recv ht hl =>
        obtain ⟨hcalls, hstream⟩ := recv_ok h hq ht
        exact ⟨hinv, htab, hcalls, hstream⟩
    · cases hs

theorem RpcInv.agreement (h : RpcInv s) : Agreement Gives s := by
  refine ⟨h.calls.returned, h.calls.own, h.calls.once, fun k k' c c' hne hc hc' he => hne ?_⟩
  obtain ⟨a, ha, hc⟩ := connectionOf_eq.mp hc
  obtain ⟨a', ha', hc'⟩ := connectionOf_eq.mp hc'
  exact ((registered_iff h.core.own).mpr h.table).distinct k k' a a' c.seq ⟨ha, c, hc, rfl⟩ ⟨ha', c', hc', he.symm⟩

/-- In every state of an exchange with the RM, each call that has returned
gives the error code of the reply to its own request, and its payload if the
error code is 0; no reply completes another call or a call twice, and calls
in flight have different sequence numbers. -/
theorem rpc_agreement (as : List RpcAct) : Always rpcStep (Agreement Gives) Rpc.init as := by
  intro bs cs t _ ht
  exact (inv_exec rpcInv_step RpcInv.init ht).agreement

/-- What the calls would give if they gave the payload of every reply. -/
def GivesAll (r : CallRet) (start : List Byte) (conts : List (List Byte)) : Prop :=
  r.rmError = some (errCode start) ∧ GivesPayload r (seriesPayload (start :: conts))

/-- The payload of a reply with an error code is dropped. -/
theorem not_givesAll_error_reply :
    ¬ Always rpcStep (Agreement GivesAll) Rpc.init
      [.call 0 { messageId := 0x56000004, reqBuff := some [1] } { idr := .id 0 }, .send 0 0,
        .reply 0 (message GH_RM_RPC_TYPE_RPLY 0 0 0x56000004 [1, 0, 0, 0, 9]) [], .recv {}, .finish 0] := by
  intro h
  have hag := h _ [] _ (List.append_nil _).symm rfl
  obtain ⟨start, conts, -, -, -, p, hp, -⟩ := hag.returned 0 _ rfl
  cases hp

end GH.Proof.Rm
