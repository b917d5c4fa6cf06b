import Gunyah.Impl.Msgq.Queue
import Gunyah.Framework.Run
import Gunyah.Framework.Wakeup

/-!
# No wakeup is lost

In each direction a message queue is a cached flag with its interrupt
(`Queue.cached`): the queue is ready when a send or a receive would not have
to wait. Every step of the queue is a step of the cached flag, or none
(`cached_step`), so that `Cached.Inv` gives `noLostWakeup`.
-/

namespace GH.Proof.Msgq

open GH.Impl GH.Impl.Msgq

variable {depth : Nat} {s t : Queue} {d d' : Direction} {k : Nat}

/-! ## Small facts -/

@[simp] theorem setBlocked_self (e : CapTable) (b : Bool) : (e.setBlocked b d).blocked d = b := by
  cases d <;> rfl

theorem setBlocked_other (e : CapTable) (b : Bool) (h : d' ≠ d) : (e.setBlocked b d).blocked d' = e.blocked d' := by
  cases d <;> cases d' <;> first | rfl | exact absurd rfl h

/-- What an answer makes of the flag. -/
def answerFlag (d : Direction) (r : Resp) : Option Bool :=
  if r.ghRet = GH_ERROR_OK then some (!r.ready) else if r.ghRet = d.busy then some true else none

theorem answer_blocked (e : CapTable) (r : Resp) :
    (ghMsgqAnswer d e r).1.blocked d = (answerFlag d r).getD (e.blocked d) := by
  unfold ghMsgqAnswer answerFlag
  split
  · simp
  split
  · simp
  · rfl

theorem answer_other (e : CapTable) (r : Resp) (h : d' ≠ d) :
    (ghMsgqAnswer d e r).1.blocked d' = e.blocked d' := by
  unfold ghMsgqAnswer
  split
  · exact setBlocked_other e _ h
  split
  · exact setBlocked_other e _ h
  · rfl

/-! ## The cached flag of a direction -/

/-- The answer that thread `k` is about to store. -/
def storing (s : Queue) (d : Direction) : Option (Option Bool) :=
  match s.lock d with
  | none => none
  | some k =>
    match s.users d k with
    | some ⟨_, .store r⟩ => some (answerFlag d r)
    | _ => some none

/-- A direction of a queue as a resource whose state is stored in `tx_full` or `rx_empty`. -/
def cached (depth : Nat) (s : Queue) (d : Direction) : Cached where
  ready := d.Ready depth (s.count d)
  blocked := s.entry.blocked d
  pending := s.pending d
  storing := storing s d

/-- The holder of a lock is about to store an answer. -/
def LockOk (s : Queue) : Prop :=
  ∀ d k, s.lock d = some k → ∃ args r, s.users d k = some ⟨args, .store r⟩

theorem storing_free (h : s.lock d = none) : storing s d = none := by
  rw [storing, h]

theorem storing_held {args : XferArgs} {r : Resp} (h : s.lock d = some k)
    (hu : s.users d k = some ⟨args, .store r⟩) : storing s d = some (answerFlag d r) := by
  simp only [storing, h, hu]

variable (depth) in
/-- The step of a thread that is not about to store an answer. -/
theorem setPc_ok {u : User} {pc : XferPc} (h : LockOk s)
    (hu : ∀ args r, s.users d k ≠ some ⟨args, .store r⟩) :
    LockOk (s.setPc d k u pc) ∧ ∀ d', cached depth (s.setPc d k u pc) d' = cached depth s d' := by
  have hkeep : ∀ d' k', s.lock d' = some k' → (s.setPc d k u pc).users d' k' = s.users d' k' := by
    intro d' k' hl
    obtain ⟨args, r, hst⟩ := h d' k' hl
    by_cases e : d' = d
    · subst e
      have ek : k' ≠ k := by
        rintro rfl
        exact hu args r hst
      simp only [Queue.setPc, Function.update_self, Function.update_of_ne ek]
    · simp only [Queue.setPc, Function.update_of_ne e]
  refine ⟨fun d' k' hl => ?_, fun d' => ?_⟩
  · rw [hkeep d' k' hl]
    exact h d' k' hl
  · have hst : storing (s.setPc d k u pc) d' = storing s d' := by
      cases hl : s.lock d' with
      | none => rw [storing_free hl, storing_free (show (s.setPc d k u pc).lock d' = none from hl)]
      | some k' =>
        obtain ⟨args, r, hst⟩ := h d' k' hl
        rw [storing_held hl hst, storing_held (show (s.setPc d k u pc).lock d' = some k' from hl)
          ((hkeep d' k' hl).trans hst)]
    simp only [cached, hst]
    rfl

/-! ## Steps -/

/-- What a step does to the cached flags. -/
def Follows (depth : Nat) (s t : Queue) : Prop :=
  LockOk t ∧ ∀ d, cached depth t d = cached depth s d ∨ (cached depth s d).Step (cached depth t d)

/-- A step in one direction leaves the other alone. -/
theorem Follows.of_dir (h : LockOk s)
    (hother : ∀ d', d' ≠ d → t.count d' = s.count d' ∧ t.entry.blocked d' = s.entry.blocked d' ∧
      t.pending d' = s.pending d' ∧ t.lock d' = s.lock d' ∧ t.users d' = s.users d')
    (hlock : ∀ k, t.lock d = some k → ∃ args r, t.users d k = some ⟨args, .store r⟩)
    (hstep : (cached depth s d).Step (cached depth t d)) : Follows depth s t := by
  refine ⟨fun d' k hl => ?_, fun d' => ?_⟩
  · by_cases e : d' = d
    · subst e
      exact hlock k hl
    · obtain ⟨-, -, -, hl', hu⟩ := hother d' e
      rw [hu]
      exact h d' k (hl' ▸ hl)
  · by_cases e : d' = d
    · subst e
      exact .inr hstep
    · obtain ⟨hc, hb, hp, hl, hu⟩ := hother d' e
      simp only [cached, storing, hc, hb, hp, hl, hu, true_or]

/-- What an answer says about the queue. -/
theorem hypercall_spec {n : Nat} {err : Option Int} (he : ∀ e ∈ err, e ≠ GH_ERROR_OK ∧ e ≠ d.busy) :
    (answerFlag d (hypercall depth d n err).1 = some true → ¬ d.Ready depth (hypercall depth d n err).2) ∧
      (answerFlag d (hypercall depth d n err).1 = none →
        d.Ready depth (hypercall depth d n err).2 → d.Ready depth n) := by
  cases err with
  | some e =>
    obtain ⟨h₁, h₂⟩ := he e rfl
    simp [hypercall, answerFlag, h₁, h₂]
  | none =>
    by_cases hr : d.Ready depth n
    · simp [hypercall, hr, answerFlag]
    · simp [hypercall, hr, answerFlag]

section

variable (h : LockOk s)
include h

theorem hcall_follows {u : User} {r : Resp} {n : Nat} (hl : s.lock d = none)
    (hv : answerFlag d r = some true → ¬ d.Ready depth n)
    (hn : answerFlag d r = none → d.Ready depth n → d.Ready depth (s.count d))
    (he : t.entry = s.entry) (hc : t.count = Function.update s.count d n) (hp : t.pending = s.pending)
    (hl' : t.lock = Function.update s.lock d (some k)) (hu : t.users = (s.setPc d k u (.store r)).users) :
    Follows depth s t := by
  have hlock : t.lock d = some k := by rw [hl', Function.update_self]
  have husers : t.users d k = some ⟨u.args, .store r⟩ := by
    rw [hu]
    simp only [Queue.setPc, Function.update_self]
  refine .of_dir (d := d) h (fun d' e => ?_) (fun k' hk' => ?_) ?_
  · rw [he, hc, hp, hl', hu]
    exact ⟨Function.update_of_ne e .., rfl, rfl, Function.update_of_ne e .., Function.update_of_ne e ..⟩
  · rw [hlock, Option.some.injEq] at hk'
    exact ⟨u.args, r, hk' ▸ husers⟩
  · have hstep := Cached.Step.call (c := cached depth s d) (d.Ready depth n) (answerFlag d r) (storing_free hl) hv hn
    have ht : cached depth t d = { cached depth s d with
        ready := d.Ready depth n, storing := some (answerFlag d r) } := by
      simp only [cached, storing_held hlock husers, he, hc, hp, Function.update_self]
    rw [ht]
    exact hstep

theorem store_follows {args : XferArgs} {r : Resp} {pc : XferPc} (hl : s.lock d = some k)
    (hst : s.users d k = some ⟨args, .store r⟩) (he : t.entry = (ghMsgqAnswer d s.entry r).1)
    (hc : t.count = s.count) (hp : t.pending = s.pending) (hl' : t.lock = Function.update s.lock d none)
    (hu : t.users = (s.setPc d k ⟨args, .store r⟩ pc).users) : Follows depth s t := by
  have hlock : t.lock d = none := by rw [hl', Function.update_self]
  refine .of_dir (d := d) h (fun d' e => ?_) (fun k' hk' => ?_) ?_
  · rw [he, hc, hp, hl', hu]
    exact ⟨rfl, answer_other _ _ e, rfl, Function.update_of_ne e .., Function.update_of_ne e ..⟩
  · rw [hlock] at hk'
    cases hk'
  · have hstep := Cached.Step.store (c := cached depth s d) (answerFlag d r) (storing_held hl hst)
    have ht : cached depth t d = { cached depth s d with
        blocked := (answerFlag d r).getD (s.entry.blocked d), storing := none } := by
      simp only [cached, storing_free hlock, he, hc, hp, answer_blocked]
    rw [ht]
    exact hstep

theorem isr_follows (hl : s.lock d = none) :
    Follows depth s { s with entry := ghMsgqIsr d s.entry, pending := Function.update s.pending d false } := by
  refine .of_dir (d := d) h (fun d' e => ⟨rfl, setBlocked_other _ _ e, Function.update_of_ne e .., rfl, rfl⟩)
    (fun k' hk' => h d k' hk') ?_
  have hstep := Cached.Step.isr (c := cached depth s d) (storing_free hl)
  have ht : cached depth { s with entry := ghMsgqIsr d s.entry, pending := Function.update s.pending d false } d =
      { cached depth s d with blocked := false, pending := false } := by
    simp only [cached, ghMsgqIsr, setBlocked_self, Function.update_self]
    rfl
  rw [ht]
  exact hstep

theorem peer_follows {n : Nat} {raise : Bool} (he : t.entry = s.entry) (hc : t.count = Function.update s.count d n)
    (hp : t.pending = Function.update s.pending d
      (s.pending d || raise || (!d.Ready depth (s.count d) && d.Ready depth n)))
    (hl : t.lock = s.lock) (hu : t.users = s.users) : Follows depth s t := by
  refine .of_dir (d := d) h (fun d' e => ?_) (fun k' hk' => ?_) ?_
  · rw [he, hc, hp, hl, hu]
    exact ⟨Function.update_of_ne e .., rfl, Function.update_of_ne e .., rfl, rfl⟩
  · rw [hu]
    exact h d k' (hl ▸ hk')
  · have hstep := Cached.Step.peer (c := cached depth s d) (d.Ready depth n) (t.pending d)
      (fun hp' => ?_) (fun hr => ?_)
    · have ht : cached depth t d = { cached depth s d with ready := d.Ready depth n, pending := t.pending d } := by
        simp only [cached, storing, he, hc, hl, hu, Function.update_self]
      rw [ht]
      exact hstep
    · have hp₀ : s.pending d = true := hp'
      rw [hp, Function.update_self, hp₀, Bool.true_or, Bool.true_or]
    · by_cases hr' : d.Ready depth (s.count d)
      · exact .inl hr'
      · right
        rw [hp, Function.update_self]
        simp [hr, hr']

end

/-- Every step follows the cached flags. -/
theorem cached_step {act : QueueAct} (h : LockOk s) (hs : queueStep depth s act = some t) : Follows depth s t := by
  cases act with
  | start d k args =>
    simp only [queueStep] at hs
    split at hs
    · rename_i hu
      cases hs
      have hns : ∀ args r, s.users d k ≠ some ⟨args, .store r⟩ := by simp [hu]
      obtain ⟨h₁, h₂⟩ := setPc_ok depth h hns
      exact ⟨h₁, fun d' => .inl (h₂ d')⟩
    · rename_i hu
      cases hs
      have hns : ∀ args r, s.users d k ≠ some ⟨args, .store r⟩ := by simp [hu]
      obtain ⟨h₁, h₂⟩ := setPc_ok depth h hns
      exact ⟨h₁, fun d' => .inl (h₂ d')⟩
    · cases hs
  | run d k signal =>
    simp only [queueStep] at hs
    split at hs
    · rename_i u hu
      obtain ⟨pc, hpc, rfl⟩ := Option.map_eq_some_iff.mp hs
      have hns : ∀ args r, s.users d k ≠ some ⟨args, .store r⟩ := by
        intro args r e
        rw [hu, Option.some.injEq] at e
        rw [e] at hpc
        cases hpc
      obtain ⟨h₁, h₂⟩ := setPc_ok depth h hns
      exact ⟨h₁, fun d' => .inl (h₂ d')⟩
    · cases hs
  | hcall d k err =>
    simp only [queueStep] at hs
    split at hs
    · rename_i u hu
      split at hs
      · rename_i hc
        cases hs
        obtain ⟨hv, hn⟩ := hypercall_spec hc.2.2
        exact hcall_follows h hc.2.1 hv hn rfl rfl rfl rfl rfl
      · cases hs
    · cases hs
  | store d k =>
    simp only [queueStep] at hs
    split at hs
    · rename_i args r hu
      split at hs
      · rename_i hl
        cases hs
        exact store_follows h hl hu rfl rfl rfl rfl rfl
      · cases hs
    · cases hs
  | isr d =>
    simp only [queueStep] at hs
    split at hs
    · rename_i hl
      cases hs
      exact isr_follows h hl.2
    · cases hs
  | peer d raise =>
    obtain ⟨n, hn, rfl⟩ := Option.map_eq_some_iff.mp hs
    exact peer_follows h rfl rfl rfl rfl rfl

/-! ## Over a run -/

/-- With the locks free, nobody waits in vain: if the RX queue is not empty,
`rx_empty` is clear or an RX interrupt is pending, and if the TX queue is not
full, `tx_full` is clear or a TX interrupt is pending. -/
def NoLostWakeup (depth : Nat) (s : Queue) : Prop :=
  (s.lock .rx = none → 0 < s.count .rx → s.entry.rxEmpty = false ∨ s.pending .rx = true) ∧
    (s.lock .tx = none → s.count .tx < depth → s.entry.txFull = false ∨ s.pending .tx = true)

/-- No wakeup is lost in any run of senders, receivers, interrupt handlers and
the peer. -/
theorem noLostWakeup (depth : Nat) (label : Int) (clientDesc : Addr) (txCapId rxCapId : BitVec 64)
    (txIrq rxIrq : Int) (as : List QueueAct) :
    Always (queueStep depth) (NoLostWakeup depth) (Queue.init label clientDesc txCapId rxCapId txIrq rxIrq) as := by
  intro bs cs t _ ht
  have hinv : LockOk t ∧ ∀ d, (cached depth t d).Inv := by
    refine inv_exec (I := fun s => LockOk s ∧ ∀ d, (cached depth s d).Inv) (fun s act t h hs => ?_) ⟨?_, ?_⟩ ht
    · obtain ⟨hl, hd⟩ := cached_step h.1 hs
      refine ⟨hl, fun d => ?_⟩
      rcases hd d with e | hstep
      · rw [e]
        exact h.2 d
      · exact (h.2 d).step hstep
    · intro d k hl
      cases hl
    · intro d hr
      cases d with
      | tx => exact .inl rfl
      | rx => exact absurd hr (Nat.lt_irrefl 0)
  exact ⟨fun hl hr => (hinv.2 .rx).blocked (storing_free hl) hr,
    fun hl hr => (hinv.2 .tx).blocked (storing_free hl) hr⟩

end GH.Proof.Msgq
