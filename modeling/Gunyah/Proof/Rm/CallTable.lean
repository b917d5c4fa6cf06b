import Gunyah.Proof.Rm.Assembly

/-!
# The table of calls

What `gh_rm_call_idr` should hold: the sequence numbers of the calls in
flight, each with its own connection (`TableInv`). It does in every state of
a run exactly when no call goes on without a sequence number and no send
fails (`tableInv_iff`): `gh_rm_call` does not check the result of
`idr_alloc_cyclic`, and leaves the number registered when it frees the
connection of a request that was not sent.
-/

namespace GH.Proof.Rm

open GH.Impl GH.Impl.Rm

/-- Call `k` is in flight, with the live connection at `a`, whose sequence
number is `q`. -/
def HasSeq (s : Core) (k : Nat) (a : Addr) (q : BitVec 16) : Prop :=
  InFlight s k a ∧ ∃ c, s.heap a = some c ∧ c.seq = q

/-- The table has the sequence numbers of the calls in flight, each of which
maps to its call's own live connection, and no two calls share one. -/
structure TableInv (s : Core) : Prop where
  live : ∀ k a, InFlight s k a → ∃ c, s.heap a = some c
  ids : ∀ q, (∃ a, s.idr q = some a) ↔ ∃ k a, HasSeq s k a q
  maps : ∀ k a q, HasSeq s k a q → s.idr q = some a
  distinct : ∀ k k' a a' q, HasSeq s k a q → HasSeq s k' a' q → k = k'

/-- The entries of the table are the connections of the calls in flight. -/
def Registered (s : Core) : Prop := ∀ q a, s.idr q = some a ↔ ∃ k, HasSeq s k a q

theorem registered_iff {s : Core} (ho : Own s) : TableInv s ↔ Registered s := by
  constructor
  · intro h q a
    constructor
    · intro hq
      obtain ⟨k, b, hk⟩ := (h.ids q).mp ⟨a, hq⟩
      have hb := h.maps k b q hk
      rw [hq, Option.some.injEq] at hb
      exact ⟨k, hb ▸ hk⟩
    · rintro ⟨k, hk⟩
      exact h.maps k a q hk
  · intro h
    refine ⟨ho.callLive, fun q => ?_, fun k a q hk => (h q a).mpr ⟨k, hk⟩, fun k k' a a' q hk hk' => ?_⟩
    · constructor
      · rintro ⟨a, hq⟩
        obtain ⟨k, hk⟩ := (h q a).mp hq
        exact ⟨k, a, hk⟩
      · rintro ⟨k, a, hk⟩
        exact ⟨a, (h q a).mpr ⟨k, hk⟩⟩
    · have h₁ := (h q a).mpr ⟨k, hk⟩
      have h₂ := (h q a').mpr ⟨k', hk'⟩
      rw [h₁, Option.some.injEq] at h₂
      exact ho.callInj k k' a hk.1 (h₂ ▸ hk'.1)

/-! ## Steps -/

/-- The same table and the same calls in flight. -/
theorem Registered.congr {s t : Core} (h : Registered s) (hi : t.idr = s.idr)
    (hf : ∀ k a q, HasSeq t k a q ↔ HasSeq s k a q) : Registered t := by
  intro q a
  rw [hi, h q a]
  exact exists_congr fun k => (hf k a q).symm

theorem hasSeq_setCall {s : Core} {k k' : Nat} {x : CallState} {a : Addr} {q : BitVec 16} (e : k' ≠ k) :
    HasSeq (s.setCall k x) k' a q ↔ HasSeq s k' a q := by
  simp only [HasSeq, InFlight, setCall_calls, setCall_heap, Function.update_of_ne e]

theorem not_hasSeq_returned {s : Core} {k : Nat} {r : CallRet} {a : Addr} {q : BitVec 16} :
    ¬ HasSeq (s.setCall k (.returned r)) k a q := by
  simp [HasSeq, InFlight]

/-- A call that returns takes its own entry out of the calls in flight. -/
theorem hasSeq_ret {s : Core} {k k' : Nat} {a b : Addr} {q : BitVec 16} {r : CallRet} (ho : Own s)
    (hk : InFlight s k a) :
    HasSeq ((s.free a).setCall k (.returned r)) k' b q ↔ k' ≠ k ∧ HasSeq s k' b q := by
  by_cases e : k' = k
  · subst e
    simp only [not_hasSeq_returned, ne_eq, not_true_eq_false, false_and]
  · rw [hasSeq_setCall e]
    refine Iff.trans ?_ (and_iff_right e).symm
    refine and_congr_right fun hb => ?_
    have hab : b ≠ a := fun hab => e (ho.callInj k' k a (hab ▸ hb) hk)
    rw [free_heap, Function.update_of_ne hab]

/-- A connection allocated for a call. -/
theorem hasSeq_alloc {s : Core} {k k' : Nat} {a : Addr} {q : BitVec 16} {c : Connection}
    {idr : BitVec 16 → Option Addr} (ho : Own s) (hk : s.calls k = .idle) :
    HasSeq ({ s.set s.next c with next := s.next + 1, idr := idr }.setCall k (.sending s.next)) k' a q ↔
      (k' = k ∧ a = s.next ∧ q = c.seq) ∨ HasSeq s k' a q := by
  by_cases e : k' = k
  · subst e
    have hn : ¬ HasSeq s k' a q := by simp [HasSeq, InFlight, hk]
    simp only [hn, or_false, true_and]
    constructor
    · rintro ⟨hf, d, hd, rfl⟩
      have ha : a = s.next := by
        rcases hf with hf | hf <;>
          simp only [setCall_calls, Function.update_self, reduceCtorEq, CallState.sending.injEq] at hf
        exact hf.symm
      subst ha
      rw [setCall_heap, set_heap, Function.update_self, Option.some.injEq] at hd
      exact ⟨rfl, by rw [hd]⟩
    · rintro ⟨rfl, rfl⟩
      exact ⟨.inl (Function.update_self ..), c, Function.update_self .., rfl⟩
  · rw [hasSeq_setCall e]
    simp only [e, false_and, false_or]
    refine and_congr_right fun hf => ?_
    have ha : a ≠ s.next := Nat.ne_of_lt (ho.callLt k' a hf)
    rw [set_heap, Function.update_of_ne ha]

theorem registered_alloc {s : Core} {k : Nat} {q : BitVec 16} {c : Connection} (ho : Own s)
    (hk : s.calls k = .idle) (hq : s.idr q = none) (hc : c.seq = q) (h : Registered s) :
    Registered ({ s.set s.next c with
      next := s.next + 1, idr := Function.update s.idr q (some s.next) }.setCall k (.sending s.next)) := by
  intro p a
  simp only [hasSeq_alloc ho hk, hc]
  by_cases e : p = q
  · subst e
    have hno : ∀ k', ¬ HasSeq s k' a p := fun k' hk' => by
      have := (h p a).mpr ⟨k', hk'⟩
      rw [hq] at this
      cases this
    simp only [setCall_idr, Function.update_self, Option.some.injEq, hno, or_false, and_true,
      exists_eq_left]
    exact eq_comm
  · simp only [setCall_idr, Function.update_of_ne e, e, and_false, false_or]
    exact h p a

/-- A call without a sequence number is in no table. -/
theorem not_registered_noId {s : Core} {k : Nat} {c : Connection} (ho : Own s) (hk : s.calls k = .idle) :
    ¬ Registered ({ s.set s.next c with next := s.next + 1 }.setCall k (.sending s.next)) := by
  intro h
  have hreg := (h c.seq s.next).mpr ⟨k, (hasSeq_alloc ho hk).mpr (.inl ⟨rfl, rfl, rfl⟩)⟩
  exact Nat.lt_irrefl _ (ho.idrLt _ _ hreg)

/-- A failed send leaves the number of its call registered. -/
theorem not_registered_sendFail {s : Core} {k : Nat} {a : Addr} {r : CallRet} (ho : Own s)
    (hk : InFlight s k a) (h : Registered s) : ¬ Registered ((s.free a).setCall k (.returned r)) := by
  intro h'
  obtain ⟨c, hc⟩ := ho.callLive k a hk
  have hq : s.idr c.seq = some a := (h c.seq a).mpr ⟨k, hk, c, hc, rfl⟩
  obtain ⟨k', hk'⟩ := (h' c.seq a).mp hq
  obtain ⟨hne, hs⟩ := (hasSeq_ret ho hk).mp hk'
  exact hne (ho.callInj k' k a hs.1 hk)

theorem registered_finish {s : Core} {k : Nat} {a : Addr} {c : Connection} (ho : Own s)
    (hk : InFlight s k a) (hc : s.heap a = some c) (h : Registered s) : Registered (ghRmCallFinish s k a c) := by
  have hown : s.idr c.seq = some a := (h c.seq a).mpr ⟨k, hk, c, hc, rfl⟩
  have hf : ∀ k' b q, HasSeq (ghRmCallFinish s k a c) k' b q ↔ k' ≠ k ∧ HasSeq s k' b q :=
    fun k' b q => (hasSeq_ret ho hk : HasSeq ((s.free a).setCall k (.returned c.callRet)) k' b q ↔ _)
  intro q b
  simp only [hf]
  by_cases e : q = c.seq
  · subst e
    simp only [ghRmCallFinish, setCall_idr, free_idr, Function.update_self, reduceCtorEq, false_iff]
    rintro ⟨k', hne, hk'⟩
    have hb := (h c.seq b).mpr ⟨k', hk'⟩
    rw [hown, Option.some.injEq] at hb
    exact hne (ho.callInj k' k a (hb ▸ hk'.1) hk)
  · simp only [ghRmCallFinish, setCall_idr, free_idr, Function.update_of_ne e, h q b]
    refine exists_congr fun k' => (and_iff_right_of_imp ?_).symm
    rintro ⟨hf', d, hd, rfl⟩ rfl
    have hb : b = a := by
      rcases hf' with h₁ | h₁ <;> rcases hk with h₂ | h₂ <;> rw [h₁] at h₂ <;> cases h₂ <;> rfl
    rw [hb, hc, Option.some.injEq] at hd
    exact e (by rw [hd])

theorem hasSeq_turn {s t : Core} {env : RecvEnv} {msg : List Byte} (ho : Own s) (ht : Turn env msg s t)
    (k : Nat) (a : Addr) (q : BitVec 16) : HasSeq t k a q ↔ HasSeq s k a q := by
  obtain ⟨-, hcalls, -, hheap⟩ := ht.call_frame ho
  have hf : InFlight t k a ↔ InFlight s k a := by simp only [InFlight, hcalls]
  simp only [HasSeq, hf]
  refine and_congr_right fun hk => ?_
  obtain ⟨c, hc⟩ := ho.callLive k a hk
  obtain ⟨c', hc', hs, -⟩ := hheap k a c hk hc
  simp only [hc, hc', Option.some.injEq, exists_eq_left', hs]

/-! ## Over a run -/

/-- A call that comes to allocate a sequence number gets one, and sends succeed. -/
def MeetsTable : Act → Prop
  | .call _ args env => ReachesIdr args env → ∃ q, env.idr = .id q
  | .send _ ret => 0 ≤ ret
  | _ => True

theorem registered_step {s t : Core} {act : Act} (hi : Inv (fun _ => True) s) (h : Registered s)
    (hs : step s act = some t) : Registered t ↔ MeetsTable act := by
  have ho := hi.own
  cases step_does hs with
  | @refuse k _ _ r hr hk =>
    refine iff_of_true (h.congr rfl fun k' a q => ?_) fun hg => absurd hg hr
    by_cases e : k' = k
    · subst e
      exact iff_of_false not_hasSeq_returned (by simp [HasSeq, InFlight, hk])
    · exact hasSeq_setCall e
  | alloc hr hk he hq => exact iff_of_true (registered_alloc ho hk hq rfl h) fun _ => ⟨_, he⟩
  | noId hr hk he hq =>
    refine iff_of_false (not_registered_noId ho hk) fun hm => ?_
    obtain ⟨q, hq⟩ := hm hr
    rw [he] at hq
    cases hq
  | sendFail hk hr => exact iff_of_false (not_registered_sendFail ho (.inl hk) h) (Int.not_le.mpr hr)
  | @sendOk k ret a hk hr =>
    refine iff_of_true (h.congr rfl fun k' b q => ?_) hr
    by_cases e : k' = k
    · subst e
      simp [HasSeq, InFlight, hk]
    · exact hasSeq_setCall e
  | finish hk hc hd => exact iff_of_true (registered_finish ho (.inr hk) hc h) trivial
  | @recv msg env ht hl =>
    have hturn : Turn env msg s (outcome (ghRmRecvTask env s msg)) := recvTask_turn (hi.settled ht)
    exact iff_of_true (h.congr (hturn.call_frame ho).2.2.1 (hasSeq_turn ho hturn)) trivial
  | @work a ha =>
    refine iff_of_true (h.congr rfl fun k b q => ?_) trivial
    refine and_congr_right fun hb => ?_
    have hab : b ≠ a := fun e => (ho.works a ha).1 k (e ▸ hb)
    simp only [free_heap, Function.update_of_ne hab]

/-- The table is right in every state of a run exactly when every call that
comes to allocate a sequence number gets one, and every send succeeds. -/
theorem tableInv_iff (as : List Act) :
    Always step TableInv Core.init as ↔ Each step (fun _ act _ => MeetsTable act) Core.init as := by
  have hreg : Registered Core.init := fun q a => by simp [Core.init, HasSeq, InFlight]
  have hstep : ∀ s act t, Inv (fun _ => True) s ∧ Registered s → step s act = some t →
      (TableInv t ↔ MeetsTable act) := by
    intro s act t h hs
    rw [registered_iff (inv_step_any s act t h.1 hs).own]
    exact registered_step h.1 h.2 hs
  refine always_iff (fun s act t h hs hm => ⟨inv_step_any s act t h.1 hs, ?_⟩) hstep ⟨Inv.init, hreg⟩
    ((registered_iff Own.init).mpr hreg)
  exact (registered_step h.1 h.2 hs).mpr hm

/-- A call whose send fails. -/
theorem not_tableInv_send_fails :
    ¬ Always step TableInv Core.init
      [.call 0 { messageId := 0x56000004, reqBuff := some [1] } { idr := .id 0 }, .send 0 (-ENOMEM)] := by
  intro h
  have htab := h _ [] _ (List.append_nil _).symm rfl
  obtain ⟨k, a, hf, -⟩ := (htab.ids 0).mp ⟨0, rfl⟩
  cases k with
  | zero => rcases hf with hf | hf <;> cases hf
  | succ k => rcases hf with hf | hf <;> cases hf

end GH.Proof.Rm
