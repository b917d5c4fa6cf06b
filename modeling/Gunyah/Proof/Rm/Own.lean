import Gunyah.Proof.Rm.Series

/-!
# Who holds a connection

A connection belongs to the call that allocated it, or to the receive task:
a notification, pending or queued to be validated. Whatever the RM sends and
the kernel decides, the two never mix (`Own`), so that the receive task frees
no call's connection, and leaves its sequence number and message id as they
are (`Micro.call_frame`).
-/

namespace GH.Proof.Rm

open GH.Impl GH.Impl.Rm GH.Spec.Rm

/-- Addresses in use are below `next`; a call in flight has a live connection
of its own; a notification's connection is no call's, and not registered. -/
structure Own (s : Core) : Prop where
  pendingLt : ∀ a, s.pending = .obj a → a < s.next
  idrLt : ∀ q a, s.idr q = some a → a < s.next
  worksLt : ∀ a ∈ s.works, a < s.next
  callLt : ∀ k a, InFlight s k a → a < s.next
  callLive : ∀ k a, InFlight s k a → ∃ c, s.heap a = some c
  callInj : ∀ k k' a, InFlight s k a → InFlight s k' a → k = k'
  notif : ∀ a c, s.pending = .obj a → s.heap a = some c → c.type ≠ GH_RM_RPC_TYPE_RPLY →
    (∀ k, ¬ InFlight s k a) ∧ ∀ q, s.idr q ≠ some a
  works : ∀ a ∈ s.works, (∀ k, ¬ InFlight s k a) ∧ (∀ q, s.idr q ≠ some a) ∧ s.pending ≠ .obj a

theorem Own.init : Own Core.init := by
  refine ⟨?_, ?_, ?_, ?_, ?_, ?_, ?_, ?_⟩ <;> simp [Core.init, InFlight]

/-- Setting up a connection keeps its sequence number and message id. -/
theorem init_keeps {env : RecvEnv} {c c' : Connection} {msg : List Byte} {h n : Nat} {ret : Int}
    (hi : ghRmInitConnectionBuff env c msg h n = (ret, c')) :
    c'.seq = c.seq ∧ c'.msgId = c.msgId ∧ c'.type = (rpcHdr msg).type ∧ c'.seqDone = c.seqDone := by
  unfold ghRmInitConnectionBuff at hi
  simp only at hi
  split at hi
  · cases hi
    exact ⟨rfl, rfl, rfl, rfl⟩
  split at hi
  · cases hi
    exact ⟨rfl, rfl, rfl, rfl⟩
  split at hi <;>
  · cases hi
    exact ⟨rfl, rfl, rfl, rfl⟩

theorem InFlight.update {s : Core} {k k' : Nat} {x : CallState} {a : Addr}
    (h : InFlight (s.setCall k' x) k a) : (k = k' ∧ (x = .sending a ∨ x = .waiting a)) ∨
      (k ≠ k' ∧ InFlight s k a) := by
  by_cases e : k = k'
  · subst e
    exact .inl ⟨rfl, by simpa [InFlight] using h⟩
  · exact .inr ⟨e, by simpa [InFlight, Function.update_of_ne e] using h⟩

/-- A store frees no connection. -/
theorem live_set {s : Core} {a b : Addr} (c : Connection) (hb : ∃ d, s.heap b = some d) :
    ∃ d, (s.set a c).heap b = some d := by
  rw [set_heap]
  by_cases e : b = a
  · exact ⟨c, by rw [e, Function.update_self]⟩
  · rwa [Function.update_of_ne e]

/-! ## Each change keeps it -/

section Changes

variable {s : Core} (h : Own s)
include h

theorem Own.unpend {p : Ptr} (hp : ∀ a, p ≠ .obj a) : Own { s with pending := p } where
  pendingLt a ha := absurd ha (hp a)
  idrLt := h.idrLt
  worksLt := h.worksLt
  callLt := h.callLt
  callLive := h.callLive
  callInj := h.callInj
  notif a _ ha := absurd ha (hp a)
  works a ha := ⟨(h.works a ha).1, (h.works a ha).2.1, hp a⟩

theorem Own.set {a : Addr} {c c' : Connection} (hc : s.heap a = some c)
    (ht : s.pending = .obj a → c'.type = c.type) : Own (s.set a c') where
  pendingLt := h.pendingLt
  idrLt := h.idrLt
  worksLt := h.worksLt
  callLt := h.callLt
  callLive k b hb := live_set c' (h.callLive k b hb)
  callInj := h.callInj
  notif b d hb hd hn := by
    rw [set_pending] at hb
    rw [set_heap] at hd
    by_cases e : b = a
    · subst e
      rw [Function.update_self, Option.some.injEq] at hd
      exact h.notif b c hb hc (by rw [← ht hb, hd]; exact hn)
    · rw [Function.update_of_ne e] at hd
      exact h.notif b d hb hd hn
  works := h.works

theorem Own.free {a : Addr} (ha : ∀ k, ¬ InFlight s k a) : Own (s.free a) where
  pendingLt := h.pendingLt
  idrLt := h.idrLt
  worksLt := h.worksLt
  callLt := h.callLt
  callLive k b hb := by
    have e : b ≠ a := fun e => ha k (e ▸ hb)
    rw [free_heap, Function.update_of_ne e]
    exact h.callLive k b hb
  callInj := h.callInj
  notif b d hb hd hn := by
    rw [free_heap] at hd
    by_cases e : b = a
    · rw [e, Function.update_self] at hd
      cases hd
    · rw [Function.update_of_ne e] at hd
      exact h.notif b d hb hd hn
  works := h.works

/-- A new connection, held by the receive task. -/
theorem Own.startNotif (c : Connection) :
    Own { s.set s.next c with next := s.next + 1, pending := .obj s.next } where
  pendingLt a ha := by
    cases ha
    exact Nat.lt_succ_self _
  idrLt q a ha := Nat.lt_succ_of_lt (h.idrLt q a ha)
  worksLt a ha := Nat.lt_succ_of_lt (h.worksLt a ha)
  callLt k a ha := Nat.lt_succ_of_lt (h.callLt k a ha)
  callLive k a ha := by
    have e : a ≠ s.next := Nat.ne_of_lt (h.callLt k a ha)
    rw [set_heap, Function.update_of_ne e]
    exact h.callLive k a ha
  callInj := h.callInj
  notif a d ha _ _ := by
    cases ha
    exact ⟨fun k hk => Nat.lt_irrefl _ (h.callLt k _ hk), fun q hq => Nat.lt_irrefl _ (h.idrLt q _ hq)⟩
  works a ha := by
    refine ⟨(h.works a ha).1, (h.works a ha).2.1, fun e => ?_⟩
    cases e
    exact Nat.lt_irrefl _ (h.worksLt _ ha)

/-- A registered connection becomes the pending one, as a reply. -/
theorem Own.startReply {a : Addr} {q : BitVec 16} {c' : Connection} (hq : s.idr q = some a)
    (ht : c'.type = GH_RM_RPC_TYPE_RPLY) : Own { s.set a c' with pending := .obj a } where
  pendingLt b hb := by
    cases hb
    exact h.idrLt q _ hq
  idrLt := h.idrLt
  worksLt := h.worksLt
  callLt := h.callLt
  callLive k b hb := live_set c' (h.callLive k b hb)
  callInj := h.callInj
  notif b d hb hd hn := by
    cases hb
    rw [set_heap, Function.update_self, Option.some.injEq] at hd
    exact absurd (hd ▸ ht) hn
  works b hb := by
    refine ⟨(h.works b hb).1, (h.works b hb).2.1, fun e => ?_⟩
    cases e
    exact (h.works _ hb).2.1 q hq

/-- A call that is not in flight, before and after. -/
theorem Own.setCall {k : Nat} {x : CallState} (hx : ∀ a, x ≠ .sending a ∧ x ≠ .waiting a) :
    Own (s.setCall k x) := by
  have hf : ∀ k' a, InFlight (s.setCall k x) k' a → InFlight s k' a := by
    intro k' a ha
    rcases ha.update with ⟨-, e | e⟩ | ⟨-, ha⟩
    · exact absurd e (hx a).1
    · exact absurd e (hx a).2
    · exact ha
  exact ⟨h.pendingLt, h.idrLt, h.worksLt, fun k' a ha => h.callLt k' a (hf k' a ha),
    fun k' a ha => h.callLive k' a (hf k' a ha),
    fun k₁ k₂ a h₁ h₂ => h.callInj k₁ k₂ a (hf k₁ a h₁) (hf k₂ a h₂),
    fun a c hp hc ht => ⟨fun k' ha => (h.notif a c hp hc ht).1 k' (hf k' a ha), (h.notif a c hp hc ht).2⟩,
    fun a ha => ⟨fun k' hk => (h.works a ha).1 k' (hf k' a hk), (h.works a ha).2⟩⟩

/-- A call in flight goes from its send to its wait. -/
theorem Own.wait {k : Nat} {a : Addr} (hk : s.calls k = .sending a) : Own (s.setCall k (.waiting a)) := by
  have hf : ∀ k' b, InFlight (s.setCall k (.waiting a)) k' b → InFlight s k' b := by
    intro k' b hb
    rcases hb.update with ⟨rfl, e | e⟩ | ⟨-, hb⟩
    · cases e
    · cases e
      exact .inl hk
    · exact hb
  exact ⟨h.pendingLt, h.idrLt, h.worksLt, fun k' b hb => h.callLt k' b (hf k' b hb),
    fun k' b hb => h.callLive k' b (hf k' b hb),
    fun k₁ k₂ b h₁ h₂ => h.callInj k₁ k₂ b (hf k₁ b h₁) (hf k₂ b h₂),
    fun b c hp hc ht => ⟨fun k' hb => (h.notif b c hp hc ht).1 k' (hf k' b hb), (h.notif b c hp hc ht).2⟩,
    fun b hb => ⟨fun k' hk' => (h.works b hb).1 k' (hf k' b hk'), (h.works b hb).2⟩⟩

/-- A call allocates its connection, and perhaps a sequence number for it. -/
theorem Own.alloc (k : Nat) (c : Connection) {idr : BitVec 16 → Option Addr}
    (hi : ∀ q a, idr q = some a → a = s.next ∨ s.idr q = some a) :
    Own ({ s.set s.next c with next := s.next + 1, idr := idr }.setCall k (.sending s.next)) := by
  have hf : ∀ k' a, InFlight ({ s.set s.next c with next := s.next + 1, idr := idr }.setCall k
      (.sending s.next)) k' a → (k' = k ∧ a = s.next) ∨ (k' ≠ k ∧ InFlight s k' a) := by
    intro k' a ha
    rcases ha.update with ⟨rfl, e | e⟩ | ⟨hk, ha⟩
    · cases e
      exact .inl ⟨rfl, rfl⟩
    · cases e
    · exact .inr ⟨hk, ha⟩
  have hlt : ∀ a, a < s.next → a ≠ s.next := fun a => Nat.ne_of_lt
  refine ⟨fun a ha => Nat.lt_succ_of_lt (h.pendingLt a ha), fun q a ha => ?_,
    fun a ha => Nat.lt_succ_of_lt (h.worksLt a ha), fun k' a ha => ?_, fun k' a ha => ?_,
    fun k₁ k₂ a h₁ h₂ => ?_, fun a d ha hd ht => ?_, fun a ha => ?_⟩
  · rcases hi q a ha with rfl | ha
    · exact Nat.lt_succ_self _
    · exact Nat.lt_succ_of_lt (h.idrLt q a ha)
  · rcases hf k' a ha with ⟨-, rfl⟩ | ⟨-, ha⟩
    · exact Nat.lt_succ_self _
    · exact Nat.lt_succ_of_lt (h.callLt k' a ha)
  · rw [setCall_heap, set_heap]
    rcases hf k' a ha with ⟨-, rfl⟩ | ⟨-, ha⟩
    · exact ⟨c, Function.update_self ..⟩
    · rw [Function.update_of_ne (hlt a (h.callLt k' a ha))]
      exact h.callLive k' a ha
  · rcases hf k₁ a h₁ with ⟨e₁, ea⟩ | ⟨-, h₁⟩
    · rcases hf k₂ a h₂ with ⟨e₂, -⟩ | ⟨-, h₂⟩
      · rw [e₁, e₂]
      · exact absurd ea (hlt a (h.callLt k₂ a h₂))
    · rcases hf k₂ a h₂ with ⟨-, ea⟩ | ⟨-, h₂⟩
      · exact absurd ea (hlt a (h.callLt k₁ a h₁))
      · exact h.callInj k₁ k₂ a h₁ h₂
  · have hn := hlt a (h.pendingLt a ha)
    rw [setCall_heap, set_heap, Function.update_of_ne hn] at hd
    have hno := h.notif a d ha hd ht
    refine ⟨fun k' hk => ?_, fun q hq => ?_⟩
    · rcases hf k' a hk with ⟨-, e⟩ | ⟨-, hk⟩
      · exact hn e
      · exact hno.1 k' hk
    · rcases hi q a hq with e | hq
      · exact hn e
      · exact hno.2 q hq
  · have hn := hlt a (h.worksLt a ha)
    have hno := h.works a ha
    refine ⟨fun k' hk => ?_, fun q hq => ?_, hno.2.2⟩
    · rcases hf k' a hk with ⟨-, e⟩ | ⟨-, hk⟩
      · exact hn e
      · exact hno.1 k' hk
    · rcases hi q a hq with e | hq
      · exact hn e
      · exact hno.2.1 q hq

/-- Forgetting registrations. -/
theorem Own.unregister {idr : BitVec 16 → Option Addr} (hi : ∀ q a, idr q = some a → s.idr q = some a) :
    Own { s with idr := idr } :=
  ⟨h.pendingLt, fun q a ha => h.idrLt q a (hi q a ha), h.worksLt, h.callLt, h.callLive, h.callInj,
    fun a c hp hc ht => ⟨(h.notif a c hp hc ht).1, fun q hq => (h.notif a c hp hc ht).2 q (hi q a hq)⟩,
    fun a ha => ⟨(h.works a ha).1, fun q hq => (h.works a ha).2.1 q (hi q a hq), (h.works a ha).2.2⟩⟩

theorem Own.erase (a : Addr) : Own { s with works := s.works.erase a } :=
  ⟨h.pendingLt, h.idrLt, fun b hb => h.worksLt b (List.mem_of_mem_erase hb), h.callLt, h.callLive,
    h.callInj, h.notif, fun b hb => h.works b (List.mem_of_mem_erase hb)⟩

/-- A call returns, and its connection is freed. -/
theorem Own.ret {k : Nat} {a : Addr} (hk : InFlight s k a) (r : CallRet) :
    Own ((s.free a).setCall k (.returned r)) := by
  have h' : Own (s.setCall k (.returned r)) := h.setCall fun b => ⟨by simp, by simp⟩
  refine h'.free fun k' ha => ?_
  rcases ha.update with ⟨-, e | e⟩ | ⟨hne, ha⟩
  · cases e
  · cases e
  · exact hne (h.callInj k' k a ha hk)

end Changes

/-! ## Every step keeps it -/

variable {env : RecvEnv} {msg : List Byte}

theorem Micro.own {s t : Core} (h : Own s) (hm : Micro env msg s t) : Own t := by
  have hnull : Own { s with pending := .null } := h.unpend (by simp)
  cases hm with
  | fault f => exact ⟨h.1, h.2, h.3, h.4, h.5, h.6, h.7, h.8⟩
  | abortReply hp hc ht => exact hnull.set hc (by simp)
  | abortOther hp hc ht => exact hnull.free (h.notif _ _ hp hc ht).1
  | startNotif hp ht hi => exact h.startNotif _
  | startReply hp ht hq hc hs hm hi hr => exact h.startReply hq ((init_keeps hi).2.2.1.trans ht)
  | @failReply _ _ _ ret hp ht hq hc hi hr =>
    have herr : Own { s with pending := .err ret } := h.unpend (by simp)
    exact herr.set hc (by simp)
  | dropReply e hp => exact h.unpend (by simp)
  | @append _ c _ hp hc hr hf hb =>
    have ha : Own { s with appended := s.appended ++ [(c, msg)] } := ⟨h.1, h.2, h.3, h.4, h.5, h.6, h.7, h.8⟩
    exact ha.set hc fun _ => rfl
  | badAppend hp hc hr hf => exact ⟨h.1, h.2, h.3, h.4, h.5, h.6, h.7, h.8⟩
  | @completeReply a c hp hc hr ht =>
    have hs : Own ({ s with pending := .null }.set a { c with seqDone := c.seqDone + 1 }) :=
      hnull.set hc (by simp)
    exact ⟨hs.1, hs.2, hs.3, hs.4, hs.5, hs.6, hs.7, hs.8⟩
  | completeNotif hp hc hr ht =>
    have hn := h.notif _ _ hp hc (by rw [ht]; decide)
    refine ⟨by simp, h.idrLt, fun b hb => ?_, h.callLt, h.callLive, h.callInj, by simp, fun b hb => ?_⟩
    · rcases List.mem_append.mp hb with hb | hb
      · exact h.worksLt b hb
      · rw [List.mem_singleton.mp hb]
        exact h.pendingLt _ hp
    · rcases List.mem_append.mp hb with hb | hb
      · exact ⟨(h.works b hb).1, (h.works b hb).2.1, by simp⟩
      · rw [List.mem_singleton.mp hb]
        exact ⟨hn.1, hn.2, by simp⟩
  | dropNotif hp hc ht => exact hnull.free (h.notif _ _ hp hc (by rw [ht]; decide)).1
  | dropOther hp hc ht => exact hnull

/-- The receive task leaves the calls and their registrations as they are, and
each call's connection live, with its sequence number and message id. -/
theorem Micro.call_frame {s t : Core} (h : Own s) (hm : Micro env msg s t) :
    t.calls = s.calls ∧ t.idr = s.idr ∧ ∀ k a c, InFlight s k a → s.heap a = some c →
      ∃ c', t.heap a = some c' ∧ c'.seq = c.seq ∧ c'.msgId = c.msgId := by
  have keep : ∀ {b c₀ c₁}, s.heap b = some c₀ → ∀ a c, s.heap a = some c →
      (c₁.seq = c₀.seq ∧ c₁.msgId = c₀.msgId) →
      ∃ c', Function.update s.heap b (some c₁) a = some c' ∧ c'.seq = c.seq ∧ c'.msgId = c.msgId := by
    intro b c₀ c₁ hb a c hc hk
    by_cases e : a = b
    · subst e
      rw [hb, Option.some.injEq] at hc
      exact ⟨c₁, Function.update_self .., hc ▸ hk⟩
    · exact ⟨c, by rw [Function.update_of_ne e, hc], rfl, rfl⟩
  have drop : ∀ {b}, (∀ k, ¬ InFlight s k b) → ∀ k a c, InFlight s k a → s.heap a = some c →
      ∃ c', Function.update s.heap b none a = some c' ∧ c'.seq = c.seq ∧ c'.msgId = c.msgId := by
    intro b hb k a c hk hc
    have e : a ≠ b := fun e => hb k (e ▸ hk)
    exact ⟨c, by rw [Function.update_of_ne e, hc], rfl, rfl⟩
  have same : ∀ a c, s.heap a = some c → ∃ c', s.heap a = some c' ∧ c'.seq = c.seq ∧ c'.msgId = c.msgId :=
    fun a c hc => ⟨c, hc, rfl, rfl⟩
  cases hm with
  | fault f => exact ⟨rfl, rfl, fun _ a c _ => same a c⟩
  | abortReply hp hc ht =>
    refine ⟨rfl, rfl, fun _ a c _ h' => keep hc a c h' ?_⟩
    exact ⟨rfl, rfl⟩
  | abortOther hp hc ht => exact ⟨rfl, rfl, drop (h.notif _ _ hp hc ht).1⟩
  | startNotif hp ht hi =>
    refine ⟨rfl, rfl, fun k a c hk hc => ⟨c, ?_, rfl, rfl⟩⟩
    rw [set_heap, Function.update_of_ne (Nat.ne_of_lt (h.callLt k a hk)), hc]
  | startReply hp ht hq hc hs hm hi hr =>
    refine ⟨rfl, rfl, fun _ a c _ h' => keep hc a c h' ?_⟩
    exact ⟨(init_keeps hi).1, (init_keeps hi).2.1⟩
  | failReply hp ht hq hc hi hr =>
    refine ⟨rfl, rfl, fun _ a c _ h' => keep hc a c h' ?_⟩
    exact ⟨(init_keeps hi).1, (init_keeps hi).2.1⟩
  | dropReply e hp => exact ⟨rfl, rfl, fun _ a c _ => same a c⟩
  | append hp hc hr hf hb =>
    refine ⟨rfl, rfl, fun _ a c _ h' => keep hc a c h' ?_⟩
    exact ⟨rfl, rfl⟩
  | badAppend hp hc hr hf => exact ⟨rfl, rfl, fun _ a c _ => same a c⟩
  | completeReply hp hc hr ht =>
    refine ⟨rfl, rfl, fun _ a c _ h' => keep hc a c h' ?_⟩
    exact ⟨rfl, rfl⟩
  | completeNotif hp hc hr ht => exact ⟨rfl, rfl, fun _ a c _ => same a c⟩
  | dropNotif hp hc ht => exact ⟨rfl, rfl, drop (h.notif _ _ hp hc (by rw [ht]; decide)).1⟩
  | dropOther hp hc ht => exact ⟨rfl, rfl, fun _ a c _ => same a c⟩

/-- `call_frame` over a turn. -/
theorem Turn.call_frame {s t : Core} (h : Own s) (ht : Turn env msg s t) :
    Own t ∧ t.calls = s.calls ∧ t.idr = s.idr ∧ ∀ k a c, InFlight s k a → s.heap a = some c →
      ∃ c', t.heap a = some c' ∧ c'.seq = c.seq ∧ c'.msgId = c.msgId := by
  induction ht with
  | refl => exact ⟨h, rfl, rfl, fun _ a c _ hc => ⟨c, hc, rfl, rfl⟩⟩
  | @tail u t _ hm ih =>
    obtain ⟨hu, hcalls, hidr, hheap⟩ := ih
    obtain ⟨hcalls', hidr', hheap'⟩ := hm.call_frame hu
    refine ⟨hm.own hu, hcalls'.trans hcalls, hidr'.trans hidr, fun k a c hk hc => ?_⟩
    obtain ⟨c₁, h₁, hs₁, hm₁⟩ := hheap k a c hk hc
    obtain ⟨c₂, h₂, hs₂, hm₂⟩ := hheap' k a c₁ (by rw [InFlight, hcalls]; exact hk) h₁
    exact ⟨c₂, h₂, hs₂.trans hs₁, hm₂.trans hm₁⟩

theorem own_step {s t : Core} {act : Act} (hs : s.task = none → Settled s) (h : Own s)
    (hd : Does s act t) : Own t := by
  cases hd with
  | refuse r hr hk => exact h.setCall fun a => ⟨by simp, by simp⟩
  | alloc hr hk he hq =>
    refine h.alloc _ _ fun q a ha => ?_
    rcases of_update ha with ⟨-, e⟩ | ⟨-, ha⟩
    · exact .inl (Option.some.inj e).symm
    · exact .inr ha
  | noId hr hk he hq => exact h.alloc _ _ fun q a ha => .inr ha
  | sendFail hk hr => exact h.ret (.inl hk) _
  | sendOk hk hr => exact h.wait hk
  | finish hk hc hd =>
    refine Own.ret (s := { s with idr := Function.update s.idr _ none }) ?_ (.inr hk) _
    refine h.unregister fun q a ha => ?_
    rcases of_update ha with ⟨-, e⟩ | ⟨-, ha⟩
    · cases e
    · exact ha
  | recv ht hl => exact (Turn.call_frame h (recvTask_turn (hs ht))).1
  | work ha => exact (h.free (h.works _ ha).1).erase _

end GH.Proof.Rm
