import Gunyah.Proof.Rm.Own

/-!
# The receive task over a run

In every reachable state the pending connection, every connection a fragment
was appended to and every connection that was completed holds the messages
of a series, each of them appended to that connection (`Inv`, `inv_step`).
A turn on a message appends it to at most one connection, `appendsTo`
(`step_appended`), so that a property of all appends of a run is one of its
steps (`appended_iff`).
-/

namespace GH.Proof.Rm

open GH.Impl GH.Impl.Rm GH.Spec.Rm

variable {G : List Byte → Prop}

/-- The connection holds a series, whose start message satisfies `G` and
whose fragments were appended to it. -/
def Holds (G : List Byte → Prop) (s : Core) (c : Connection) : Prop :=
  ∃ start conts, Assembles c start conts ∧ G start ∧ ∀ m ∈ conts, ∃ c',
    (c', m) ∈ s.appended ∧ c'.msgId = c.msgId ∧ c'.type = c.type ∧ c'.seq = c.seq

theorem Holds.mono {s t : Core} {c : Connection} (h : Holds G s c)
    (ha : ∀ e ∈ s.appended, e ∈ t.appended) : Holds G t c := by
  obtain ⟨start, conts, has, hg, hc⟩ := h
  refine ⟨start, conts, has, hg, fun m hm => ?_⟩
  obtain ⟨c', h₁, h₂⟩ := hc m hm
  exact ⟨c', ha _ h₁, h₂⟩

/-- What the pending connection and the history hold. -/
structure Assembly (G : List Byte → Prop) (s : Core) : Prop where
  pend : ∀ a c, s.pending = .obj a → s.heap a = some c → Holds G s c
  appended : ∀ e ∈ s.appended, (∃ start conts, Assembles e.1 start conts) ∧
    e.1.fragmentsReceived ≠ e.1.numFragments ∧ HDR_SIZE < e.2.length ∧
    e.2.length ≤ GH_MSGQ_MAX_MSG_SIZE_BYTES
  completed : ∀ c ∈ s.completed, Holds G s c ∧ c.fragmentsReceived = c.numFragments

theorem Assembly.init : Assembly G Core.init := by
  refine ⟨?_, ?_, ?_⟩ <;> simp [Core.init]

/-- With the same history, only the pending connection counts. -/
theorem Assembly.of_eq {s t : Core} (h : Assembly G s) (ha : t.appended = s.appended)
    (hc : t.completed = s.completed)
    (hp : ∀ a c, t.pending = .obj a → t.heap a = some c → Holds G t c) : Assembly G t := by
  refine ⟨hp, fun e he => h.appended e (ha ▸ he), fun c hm => ?_⟩
  have := h.completed c (hc ▸ hm)
  exact ⟨this.1.mono (by rw [ha]; exact fun _ h => h), this.2⟩

theorem Assembly.of_null {s t : Core} (h : Assembly G s) (ha : t.appended = s.appended)
    (hc : t.completed = s.completed) (hp : ∀ a, t.pending ≠ .obj a) : Assembly G t :=
  h.of_eq ha hc fun a _ h₁ => absurd h₁ (hp a)

/-- A completed connection goes from pending into the history. -/
theorem Assembly.complete {s t : Core} {a : Addr} {c : Connection} (h : Assembly G s)
    (hp : s.pending = .obj a) (hc : s.heap a = some c) (hr : c.fragmentsReceived = c.numFragments)
    (ha : t.appended = s.appended) (hcs : t.completed = s.completed ++ [c]) (hn : t.pending = .null) :
    Assembly G t := by
  have hm : ∀ e ∈ s.appended, e ∈ t.appended := by rw [ha]; exact fun _ h => h
  refine ⟨by simp [hn], fun e he => h.appended e (ha ▸ he), fun d hd => ?_⟩
  rw [hcs] at hd
  rcases List.mem_append.mp hd with hd | hd
  · exact ⟨(h.completed d hd).1.mono hm, (h.completed d hd).2⟩
  · rw [List.mem_singleton.mp hd]
    exact ⟨(h.pend a c hp hc).mono hm, hr⟩

variable {env : RecvEnv} {msg : List Byte}

theorem startHdr_notif (ht : (rpcHdr msg).type = GH_RM_RPC_TYPE_NOTIF) : startHdr msg = HDR_SIZE := by
  rw [startHdr, ht]
  rfl

theorem startHdr_rply (ht : (rpcHdr msg).type = GH_RM_RPC_TYPE_RPLY) : startHdr msg = REPLY_HDR_SIZE := by
  rw [startHdr, ht]
  rfl

/-- A reply that is set up has a whole header. -/
theorem reply_len {c c' : Connection} {ret : Int} (hr : 0 ≤ ret)
    (hi : ghRmInitConnectionBuff env c msg REPLY_HDR_SIZE (sizeSub msg.length REPLY_HDR_SIZE) = (ret, c')) :
    REPLY_HDR_SIZE ≤ msg.length := by
  by_contra hn
  have hs : (ghRmInitConnectionBuff env c msg REPLY_HDR_SIZE (sizeSub msg.length REPLY_HDR_SIZE)).1 < 0 :=
    init_short (Nat.lt_of_not_le hn)
  rw [hi] at hs
  exact absurd hr (Int.not_le.mpr hs)

/-- A message that starts a series, with a whole header. -/
def IsStart (m : List Byte) : Prop :=
  HDR_SIZE < m.length ∧ ((rpcHdr m).type = GH_RM_RPC_TYPE_RPLY ∨ (rpcHdr m).type = GH_RM_RPC_TYPE_NOTIF) ∧
    startHdr m ≤ m.length

instance (m : List Byte) : Decidable (IsStart m) := inferInstanceAs (Decidable (_ ∧ _ ∧ _))

theorem Micro.assembly {s t : Core} (h : Assembly G s) (hl : HDR_SIZE < msg.length)
    (hl' : msg.length ≤ GH_MSGQ_MAX_MSG_SIZE_BYTES) (hg : IsStart msg → G msg)
    (hm : Micro env msg s t) : Assembly G t := by
  cases hm with
  | fault f => exact h.of_eq rfl rfl h.pend
  | abortReply hp hc ht => exact h.of_null rfl rfl (by simp)
  | abortOther hp hc ht => exact h.of_null rfl rfl (by simp)
  | @startNotif c hp ht hi =>
    refine h.of_eq rfl rfl fun a d ha hd => ?_
    cases ha
    rw [set_heap, Function.update_self, Option.some.injEq] at hd
    have hle : startHdr msg ≤ msg.length := by
      rw [startHdr_notif ht]
      exact Nat.le_of_lt hl
    rw [← startHdr_notif ht] at hi
    rw [← hd]
    exact ⟨msg, [], .start hle hl' (.inr ht) rfl (by rw [ht]; exact fun h => absurd h (by decide)) hi
      (Int.le_refl 0), hg ⟨hl, .inr ht, hle⟩, by simp⟩
  | @startReply b c c' ret hp ht hq hc hs hm hi hr =>
    refine h.of_eq rfl rfl fun a d ha hd => ?_
    cases ha
    rw [set_heap, Function.update_self, Option.some.injEq] at hd
    have hle := reply_len hr hi
    rw [sizeSub_eq hle, ← startHdr_rply ht] at hi
    rw [← startHdr_rply ht] at hle
    have has := Assembles.start hle hl' (.inl ht) hm (fun _ => hs) hi hr
    rw [← hd]
    exact ⟨msg, [], has.withError _, hg ⟨hl, .inl ht, hle⟩, by simp⟩
  | failReply hp ht hq hc hi hr => exact h.of_null rfl rfl (by simp)
  | dropReply e hp => exact h.of_null rfl rfl (by simp)
  | @append b c buf hp hc hr hf hb =>
    obtain ⟨start, conts, has, hst, horig⟩ := h.pend b c hp hc
    have hsub : ∀ e ∈ s.appended, e ∈ s.appended ++ [(c, msg)] := fun e he => List.mem_append_left _ he
    refine ⟨fun a d ha hd => ?_, fun e he => ?_, fun d hd => ?_⟩
    · have hab : a = b := by
        have : Ptr.obj a = Ptr.obj b := ha.symm.trans hp
        simpa using this
      subst hab
      rw [set_heap, Function.update_self, Option.some.injEq] at hd
      rw [← hd]
      refine ⟨start, conts ++ [msg], has.append hr hl' hb, hst, fun m hm => ?_⟩
      rcases List.mem_append.mp hm with hm | hm
      · obtain ⟨c', h₁, h₂⟩ := horig m hm
        exact ⟨c', hsub _ h₁, h₂⟩
      · rw [List.mem_singleton.mp hm]
        exact ⟨c, List.mem_append_right _ (List.mem_singleton_self _), rfl, rfl, rfl⟩
    · rcases List.mem_append.mp he with he | he
      · exact h.appended e he
      · rw [List.mem_singleton.mp he]
        exact ⟨⟨start, conts, has⟩, hr, hl, hl'⟩
    · exact ⟨(h.completed d hd).1.mono hsub, (h.completed d hd).2⟩
  | @badAppend b c hp hc hr hf =>
    obtain ⟨start, conts, has, -⟩ := h.pend b c hp hc
    have hsub : ∀ e ∈ s.appended, e ∈ s.appended ++ [(c, msg)] := fun e he => List.mem_append_left _ he
    refine ⟨fun a d ha hd => (h.pend a d ha hd).mono hsub, fun e he => ?_, fun d hd =>
      ⟨(h.completed d hd).1.mono hsub, (h.completed d hd).2⟩⟩
    rcases List.mem_append.mp he with he | he
    · exact h.appended e he
    · rw [List.mem_singleton.mp he]
      exact ⟨⟨start, conts, has⟩, hr, hl, hl'⟩
  | completeReply hp hc hr ht => exact h.complete hp hc hr rfl rfl rfl
  | completeNotif hp hc hr ht => exact h.complete hp hc hr rfl rfl rfl
  | dropNotif hp hc ht => exact h.of_null rfl rfl (by simp)
  | dropOther hp hc ht => exact h.of_null rfl rfl (by simp)

/-! ## Over a run -/

/-- The invariant of the machine. -/
structure Inv (G : List Byte → Prop) (s : Core) : Prop where
  own : Own s
  settled : s.task = none → Settled s
  assembly : Assembly G s

theorem Inv.init : Inv G Core.init := ⟨.init, fun _ => .of_null rfl, .init⟩

/-- A call's step touches the pending connection only by freeing it. -/
theorem Inv.of_call {s t : Core} (h : Inv G s) (ho : Own t) (hp : t.pending = s.pending)
    (ht : t.task = s.task) (ha : t.appended = s.appended) (hc : t.completed = s.completed)
    (hh : ∀ a c, a < s.next → t.heap a = some c → s.heap a = some c) : Inv G t := by
  have hh' : ∀ a c, t.pending = .obj a → t.heap a = some c → s.pending = .obj a ∧ s.heap a = some c :=
    fun a c h₁ h₂ => ⟨hp ▸ h₁, hh a c (h.own.pendingLt a (hp ▸ h₁)) h₂⟩
  refine ⟨ho, fun htask => ⟨?_, fun a c h₁ h₂ => ?_⟩, h.assembly.of_eq ha hc fun a c h₁ h₂ => ?_⟩
  · rw [hp]
    exact (h.settled (ht ▸ htask)).noErr
  · obtain ⟨h₁, h₂⟩ := hh' a c h₁ h₂
    exact (h.settled (ht ▸ htask)).waits a c h₁ h₂
  · obtain ⟨h₁, h₂⟩ := hh' a c h₁ h₂
    exact (h.assembly.pend a c h₁ h₂).mono (by rw [ha]; exact fun _ h => h)

theorem recvTask_short {s : Core} (hl : msg.length ≤ HDR_SIZE) : ghRmRecvTask env s msg = .ok s := by
  rw [ghRmRecvTask, if_pos hl]

theorem Inv.recv {s : Core} (h : Inv G s) (ht : s.task = none) (hl : msg.length ≤ GH_MSGQ_MAX_MSG_SIZE_BYTES)
    (hg : IsStart msg → G msg) : Inv G (outcome (ghRmRecvTask env s msg)) := by
  have hs := h.settled ht
  have hturn : Turn env msg s (outcome (ghRmRecvTask env s msg)) := recvTask_turn hs
  refine ⟨(Turn.call_frame h.own hturn).1, outcome_settled hs, ?_⟩
  by_cases hshort : msg.length ≤ HDR_SIZE
  · rw [recvTask_short hshort]
    exact h.assembly
  · exact hturn.inv (fun s t ha hm => hm.assembly ha (Nat.lt_of_not_le hshort) hl hg) h.assembly

/-- A start message the step receives satisfies `G`. -/
def StartMeets (G : List Byte → Prop) : Act → Prop
  | .recv msg _ => IsStart msg → G msg
  | _ => True

instance [DecidablePred G] : (act : Act) → Decidable (StartMeets G act)
  | .recv msg _ => inferInstanceAs (Decidable (IsStart msg → G msg))
  | .call .. | .send .. | .finish .. | .notifWork .. => isTrue trivial

theorem inv_does {s t : Core} {act : Act} (h : Inv G s) (hg : StartMeets G act) (hd : Does s act t) :
    Inv G t := by
  have ho := own_step h.settled h.own hd
  cases hd with
  | refuse r hr hk => exact h.of_call ho rfl rfl rfl rfl fun a c _ hc => hc
  | alloc hr hk he hq =>
    refine h.of_call ho rfl rfl rfl rfl fun a c hlt hc => ?_
    rcases of_update hc with ⟨e, -⟩ | ⟨-, hc⟩
    · exact absurd e (Nat.ne_of_lt hlt)
    · exact hc
  | noId hr hk he hq =>
    refine h.of_call ho rfl rfl rfl rfl fun a c hlt hc => ?_
    rcases of_update hc with ⟨e, -⟩ | ⟨-, hc⟩
    · exact absurd e (Nat.ne_of_lt hlt)
    · exact hc
  | sendFail hk hr =>
    refine h.of_call ho rfl rfl rfl rfl fun a c _ hc => ?_
    rcases of_update hc with ⟨-, e⟩ | ⟨-, hc⟩
    · cases e
    · exact hc
  | sendOk hk hr => exact h.of_call ho rfl rfl rfl rfl fun a c _ hc => hc
  | finish hk hc hd =>
    refine h.of_call ho rfl rfl rfl rfl fun a c _ hc => ?_
    rcases of_update hc with ⟨-, e⟩ | ⟨-, hc⟩
    · cases e
    · exact hc
  | recv ht hl => exact h.recv ht hl hg
  | work ha =>
    refine h.of_call ho rfl rfl rfl rfl fun a c _ hc => ?_
    rcases of_update hc with ⟨-, e⟩ | ⟨-, hc⟩
    · cases e
    · exact hc

theorem inv_step (s : Core) (act : Act) (t : Core) (h : Inv G s) (hs : step s act = some t)
    (hg : StartMeets G act) : Inv G t :=
  inv_does h hg (step_does hs)

/-- Without a condition on the start messages. -/
theorem inv_step_any (s : Core) (act : Act) (t : Core) (h : Inv (fun _ => True) s)
    (hs : step s act = some t) : Inv (fun _ => True) t :=
  inv_step s act t h hs (by cases act <;> simp [StartMeets])

/-! ## Appends -/

/-- The connection `gh_rm_process_cont` appends the message to. -/
def appendsTo (s : Core) (msg : List Byte) : Option Connection :=
  if HDR_SIZE < msg.length ∧ (rpcHdr msg).type = GH_RM_RPC_TYPE_CONT then
    match s.pending with
    | .obj a => (s.heap a).filter fun c => c.numFragments = (rpcHdr msg).fragments.toNat
    | _ => none
  else none

theorem complete_log (env : RecvEnv) (s : Core) : (outcome (complete env s)).appended = s.appended := by
  have h := complete_cases env s
  generalize complete env s = r at h ⊢
  cases h <;> rfl

theorem abortPending_log (s : Core) : (outcome (abortPending s)).appended = s.appended := by
  have h := abortPending_cases s
  generalize abortPending s = r at h ⊢
  cases h <;> rfl

theorem processNotif_log (s : Core) : (outcome (assign (ghRmProcessNotif env s msg))).appended = s.appended := by
  unfold ghRmProcessNotif
  simp only
  split
  · split <;> rfl
  · rfl

theorem processRply_log (s : Core) : (outcome (assign (ghRmProcessRply env s msg))).appended = s.appended := by
  have h := processRply_cases env msg s
  generalize ghRmProcessRply env s msg = r at h ⊢
  cases h <;> rfl

/-- A sequence of two, the second of which leaves the history as it is. -/
theorem outcome_bind_log {x : Res Core} {f : Core → Res Core}
    (hf : ∀ t, (outcome (f t)).appended = t.appended) :
    (outcome (x >>= f)).appended = (outcome x).appended := by
  cases x with
  | error e => rfl
  | ok t => exact hf t

theorem appendsTo_of_type {s : Core} (ht : (rpcHdr msg).type ≠ GH_RM_RPC_TYPE_CONT) :
    appendsTo s msg = none := by
  rw [appendsTo, if_neg fun h => ht h.2]

theorem appendsTo_pending {s : Core} {a : Addr} {c : Connection} (hl : HDR_SIZE < msg.length)
    (ht : (rpcHdr msg).type = GH_RM_RPC_TYPE_CONT) (hp : s.pending = .obj a) (hc : s.heap a = some c) :
    appendsTo s msg = if c.numFragments = (rpcHdr msg).fragments.toNat then some c else none := by
  rw [appendsTo, if_pos ⟨hl, ht⟩]
  simp only [hp, hc, Option.filter_some, decide_eq_true_eq]

theorem processCont_log {s : Core} (hl : HDR_SIZE < msg.length) (ht : (rpcHdr msg).type = GH_RM_RPC_TYPE_CONT)
    (hn : s.pending ≠ .null) :
    (outcome (ghRmProcessCont s s.pending msg >>= fun r => .ok r.2)).appended =
      s.appended ++ ((appendsTo s msg).map (·, msg)).toList := by
  have h := processCont_cases msg hn
  generalize ghRmProcessCont s s.pending msg = r at h ⊢
  cases h with
  | bad hp =>
    have hnone : appendsTo s msg = none := by
      rw [appendsTo, if_pos ⟨hl, ht⟩]
      cases hp' : s.pending with
      | obj a =>
        have hfree : s.heap a = none := Option.eq_none_iff_forall_ne_some.mpr fun c => hp a c hp'
        simp only [hfree, Option.filter_none]
      | _ => rfl
    rw [hnone]
    exact (List.append_nil _).symm
  | mismatch hp hc hf =>
    rw [appendsTo_pending hl ht hp hc, if_neg hf]
    exact (List.append_nil _).symm
  | noRoom hp hc hf hb =>
    rw [appendsTo_pending hl ht hp hc, if_pos hf]
    rfl
  | ok hp hc hf hb =>
    rw [appendsTo_pending hl ht hp hc, if_pos hf]
    rfl

theorem dispatch_log {s : Core} (hl : HDR_SIZE < msg.length) :
    (outcome (ghRmRecvDispatch env s msg)).appended = s.appended ++ ((appendsTo s msg).map (·, msg)).toList := by
  unfold ghRmRecvDispatch
  simp only
  split
  · rename_i ht
    rw [appendsTo_of_type (by rw [ht]; decide), outcome_bind_log processNotif_log, abortPending_log]
    exact (List.append_nil _).symm
  split
  · rename_i ht
    rw [appendsTo_of_type (by rw [ht]; decide), outcome_bind_log processRply_log, abortPending_log]
    exact (List.append_nil _).symm
  split
  · rename_i ht
    split
    · rename_i hp
      rw [appendsTo, hp]
      simp [outcome]
    · rename_i hp
      exact processCont_log hl ht hp
  · rename_i ht
    rw [appendsTo_of_type ht]
    exact (List.append_nil _).symm

theorem recvTask_log {s : Core} : (outcome (ghRmRecvTask env s msg)).appended =
    s.appended ++ ((appendsTo s msg).map (·, msg)).toList := by
  by_cases hl : msg.length ≤ HDR_SIZE
  · rw [recvTask_short hl, appendsTo, if_neg fun h => Nat.not_lt.mpr hl h.1]
    exact (List.append_nil _).symm
  · rw [ghRmRecvTask, if_neg hl]
    rw [outcome_bind_log (complete_log env), dispatch_log (Nat.lt_of_not_le hl)]

/-- The history of appends after a step. -/
theorem step_appended {s t : Core} {act : Act} (h : step s act = some t) :
    (∃ msg env, act = .recv msg env ∧ t.appended = s.appended ++ ((appendsTo s msg).map (·, msg)).toList) ∨
      ((∀ msg env, act ≠ .recv msg env) ∧ t.appended = s.appended) := by
  cases step_does h with
  | recv ht hl => exact .inl ⟨_, _, rfl, recvTask_log⟩
  | _ => exact .inr ⟨fun _ _ => by simp, rfl⟩

/-- The append of a step, if it makes one, satisfies `E`. -/
def AppendMeets (E : Connection → List Byte → Prop) (s : Core) : Act → Prop
  | .recv msg _ => ∀ c, appendsTo s msg = some c → E c msg
  | _ => True

instance (E : Connection → List Byte → Prop) [∀ c msg, Decidable (E c msg)] (s : Core) :
    (act : Act) → Decidable (AppendMeets E s act)
  | .recv msg _ => inferInstanceAs (Decidable (∀ c ∈ appendsTo s msg, E c msg))
  | .call .. | .send .. | .finish .. | .notifWork .. => isTrue trivial

/-- All appends of a run satisfy `E` exactly when each step's does. -/
theorem appended_iff (E : Connection → List Byte → Prop) (as : List Act) :
    Always step (fun s => ∀ e ∈ s.appended, E e.1 e.2) Core.init as ↔
      Each step (fun s act _ => AppendMeets E s act) Core.init as := by
  have hstep : ∀ s act t, (∀ e ∈ s.appended, E e.1 e.2) → step s act = some t →
      ((∀ e ∈ t.appended, E e.1 e.2) ↔ AppendMeets E s act) := by
    intro s act t hs h
    rcases step_appended h with ⟨msg, env, rfl, ht⟩ | ⟨hne, ht⟩
    · rw [ht]
      simp only [List.forall_mem_append, AppendMeets]
      cases appendsTo s msg with
      | none => simpa using hs
      | some c => simpa using fun _ => hs
    · rw [ht]
      cases act with
      | recv msg env => exact absurd rfl (hne msg env)
      | _ => exact ⟨fun _ => trivial, fun _ => hs⟩
  exact always_iff (fun s act t hs h hc => (hstep s act t hs h).mpr hc) hstep (by simp [Core.init])
    (by simp [Core.init])

end GH.Proof.Rm
