import Gunyah.Proof.Rm.Assembly

/-!
# What the receive task makes of arbitrary messages

Three properties of the receive task, whatever messages it gets: it follows
no error value and no pointer to a freed connection, no fragment runs over
the end of the buffer, and no series has fragments of another. Each holds in
a run exactly when every step meets a condition that the code does not check
(`taskOk_iff`, `inBounds_iff`, `unspliced_iff`): that a reply is for a
waiting call and whole, that a series that goes on began with a payload, and
that a continuation message carries the ids of the pending series.
-/

namespace GH.Proof.Rm

open GH.Impl GH.Impl.Rm GH.Spec.Rm

/-! ## Pointers -/

/-- The pending connection is none, or a live one. -/
def PendingLive (s : Core) : Prop :=
  s.pending = .null ∨ ∃ a c, s.pending = .obj a ∧ s.heap a = some c

/-- The task has not followed the pending pointer to anything but a live
connection, and will not with the next message. -/
structure TaskOk (s : Core) : Prop where
  noBadPtr : ∀ f p, s.task = some (.badPtr f p) →
    f ≠ .processCont ∧ f ≠ .completeConnection ∧ f ≠ .abortConnection
  live : s.task = none → PendingLive s

/-- The reply is for the live connection registered under its sequence number,
has a whole header, and its buffer can be had. -/
def GoodReply (env : RecvEnv) (s : Core) (msg : List Byte) : Prop :=
  env.signal = false ∧ REPLY_HDR_SIZE ≤ msg.length ∧ (msg.length ≠ REPLY_HDR_SIZE → env.payload) ∧
    ∃ a c, s.idr (rpcHdr msg).seq = some a ∧ s.heap a = some c ∧ c.seq = (rpcHdr msg).seq ∧
      c.msgId = (rpcHdr msg).msgId

/-- The receive task takes the message for a reply. -/
def IsReply (msg : List Byte) : Prop := HDR_SIZE < msg.length ∧ (rpcHdr msg).type = GH_RM_RPC_TYPE_RPLY

/-- A step leaves the task as it should be, and drops a reply that is no good. -/
def TaskSafe (s : Core) (act : Act) (t : Core) : Prop :=
  TaskOk t ∧ ∀ msg env, act = .recv msg env → IsReply msg → ¬ GoodReply env s msg →
    t.task = none ∧ t.pending = .null

/-- Replies are good, and no call frees the pending connection. -/
def MeetsTask (s : Core) : Act → Prop
  | .recv msg env => IsReply msg → GoodReply env s msg
  | .send k ret => ret < 0 → s.task = none → ∀ a, s.calls k = .sending a → s.pending ≠ .obj a
  | .finish k => s.task = none → ∀ a, s.calls k = .waiting a → s.pending ≠ .obj a
  | _ => True

/-- A result that leaves the task as it should be. -/
def Fine : Res Core → Prop
  | .ok t => t.task = none ∧ PendingLive t
  | .error (f, _) => ∀ g p, f = .badPtr g p → g ≠ .processCont ∧ g ≠ .completeConnection ∧ g ≠ .abortConnection

theorem Fine.taskOk {r : Res Core} (h : Fine r) : TaskOk (outcome r) := by
  cases r with
  | ok t =>
    refine ⟨fun f p hf => ?_, fun _ => h.2⟩
    rw [outcome, h.1] at hf
    cases hf
  | error e => exact ⟨fun f p hf => h f p (Option.some.inj hf), fun hn => by cases hn⟩

theorem Fine.bind {x : Res Core} {f : Core → Res Core} (hx : Fine x)
    (hf : ∀ t, x = .ok t → t.task = none → PendingLive t → Fine (f t)) : Fine (x >>= f) := by
  cases x with
  | error e => exact hx
  | ok t => exact hf t rfl hx.1 hx.2

section

variable {env : RecvEnv} {msg : List Byte} {s : Core}

theorem PendingLive.of_set {a : Addr} (c : Connection) : PendingLive { s.set a c with pending := .obj a } :=
  .inr ⟨a, c, rfl, Function.update_self ..⟩

theorem PendingLive.not_bad (h : PendingLive s) (hn : s.pending ≠ .null)
    (hp : ∀ a c, s.pending = .obj a → s.heap a ≠ some c) : False := by
  rcases h with hnull | ⟨a, c, ha, hc⟩
  · exact hn hnull
  · exact hp a c ha hc

theorem abortPending_fine (ht : s.task = none) (h : PendingLive s) : Fine (abortPending s) := by
  have hcases := abortPending_cases s
  generalize abortPending s = r at hcases ⊢
  cases hcases with
  | null hp => exact ⟨ht, .inl hp⟩
  | bad hn hp => exact (h.not_bad hn hp).elim
  | reply hp hc hty => exact ⟨ht, .inl rfl⟩
  | other hp hc hty => exact ⟨ht, .inl rfl⟩

theorem complete_fine (ht : s.task = none) (h : PendingLive s) : Fine (complete env s) := by
  have hcases := complete_cases env s
  generalize complete env s = r at hcases ⊢
  cases hcases with
  | bad hn hp => exact (h.not_bad hn hp).elim
  | part hp hc hr => exact ⟨ht, h⟩
  | null hp => exact ⟨ht, h⟩
  | _ => exact ⟨ht, .inl rfl⟩

theorem processNotif_fine (ht : s.task = none) : Fine (assign (ghRmProcessNotif env s msg)) := by
  unfold ghRmProcessNotif
  simp only
  split
  · split
    · exact ⟨ht, .inr ⟨_, _, rfl, Function.update_self ..⟩⟩
    · exact ⟨ht, .inl rfl⟩
  · rintro g p ⟨⟩
    exact ⟨by simp, by simp, by simp⟩

theorem processCont_fine (ht : s.task = none) (h : PendingLive s) (hp : s.pending ≠ .null) :
    Fine (ghRmProcessCont s s.pending msg >>= fun r => .ok r.2) := by
  have hcases := processCont_cases msg hp
  generalize ghRmProcessCont s s.pending msg = r at hcases ⊢
  cases hcases with
  | bad hbad => exact (h.not_bad hp hbad).elim
  | mismatch hp hc hf => exact ⟨ht, h⟩
  | noRoom hp hc hf hb => rintro g p ⟨⟩
  | @ok a c buf hp hc hf hb => exact ⟨ht, .inr ⟨a, _, hp, Function.update_self ..⟩⟩

/-- Setting up a reply succeeds exactly where its header is whole and its
buffer can be had. -/
theorem init_reply {c : Connection} (hl : msg.length ≤ GH_MSGQ_MAX_MSG_SIZE_BYTES) :
    (ghRmInitConnectionBuff env c msg REPLY_HDR_SIZE (sizeSub msg.length REPLY_HDR_SIZE)).1 < 0 ↔
      ¬(REPLY_HDR_SIZE ≤ msg.length ∧ (msg.length ≠ REPLY_HDR_SIZE → env.payload)) := by
  by_cases hle : REPLY_HDR_SIZE ≤ msg.length
  · rw [sizeSub_eq hle, init_eq hle hl]
    by_cases he : msg.length = REPLY_HDR_SIZE
    · simp [he]
    · cases hpay : env.payload
      · simp [he, hle, ENOMEM]
      · simp [he, hle]
  · have hneg : (ghRmInitConnectionBuff env c msg REPLY_HDR_SIZE (sizeSub msg.length REPLY_HDR_SIZE)).1 < 0 :=
      init_short (Nat.lt_of_not_le hle)
    simp [hneg, hle]

theorem processRply_good (ht : s.task = none) (hl : msg.length ≤ GH_MSGQ_MAX_MSG_SIZE_BYTES)
    (h : GoodReply env s msg) : Fine (assign (ghRmProcessRply env s msg)) := by
  obtain ⟨hsig, hle, hpay, a, c, hq, hc, hs, hm⟩ := h
  rw [processRply_match hsig hq hc (by simp [hs, hm]) rfl, if_neg]
  · exact ⟨ht, .of_set _⟩
  · rw [init_reply hl, not_not]
    exact ⟨hle, hpay⟩

/-- A reply that is no good is followed into the ground. -/
theorem processRply_bad (hl : msg.length ≤ GH_MSGQ_MAX_MSG_SIZE_BYTES) (h : ¬ GoodReply env s msg) :
    (outcome (assign (ghRmProcessRply env s msg) >>= complete env)).task ≠ none := by
  have hcases := processRply_cases env msg s
  generalize ghRmProcessRply env s msg = r at hcases ⊢
  cases hcases with
  | drop e => exact fun h => by cases h
  | freed hq hc => exact fun h => by cases h
  | fail hq hc hi hr => exact fun h => by cases h
  | @start a c c' ret hsig hq hc hs hm hi hr =>
    have hwhole : REPLY_HDR_SIZE ≤ msg.length ∧ (msg.length ≠ REPLY_HDR_SIZE → env.payload) := by
      by_contra hn
      have hneg := (init_reply (c := c) hl).mpr hn
      rw [hi] at hneg
      exact Int.not_lt.mpr hr hneg
    exact absurd ⟨hsig, hwhole.1, hwhole.2, a, c, hq, hc, hs, hm⟩ h

/-- Aborting the pending series makes no difference to a reply. -/
theorem goodReply_abort {t : Core} (ho : Own s) (h : abortPending s = .ok t) :
    GoodReply env t msg ↔ GoodReply env s msg := by
  have key : t.idr = s.idr ∧ ∀ q a, s.idr q = some a →
      ((∃ c, t.heap a = some c ∧ c.seq = (rpcHdr msg).seq ∧ c.msgId = (rpcHdr msg).msgId) ↔
        ∃ c, s.heap a = some c ∧ c.seq = (rpcHdr msg).seq ∧ c.msgId = (rpcHdr msg).msgId) := by
    have hcases := abortPending_cases s
    rw [h] at hcases
    cases hcases with
    | null hp => exact ⟨rfl, fun q a _ => Iff.rfl⟩
    | @reply b c hp hc hty =>
      refine ⟨rfl, fun q a _ => ?_⟩
      by_cases e : a = b
      · subst e
        simp [hc]
      · simp [Function.update_of_ne e]
    | @other b c hp hc hty =>
      refine ⟨rfl, fun q a hq => ?_⟩
      have e : a ≠ b := fun e => (ho.notif b c hp hc hty).2 q (e ▸ hq)
      simp [Function.update_of_ne e]
  obtain ⟨hi, hk⟩ := key
  simp only [GoodReply, hi]
  refine and_congr_right fun _ => and_congr_right fun _ => and_congr_right fun _ => exists_congr fun a => ?_
  constructor
  · rintro ⟨c, hq, hc⟩
    obtain ⟨c', hc'⟩ := (hk _ a hq).mp ⟨c, hc⟩
    exact ⟨c', hq, hc'⟩
  · rintro ⟨c, hq, hc⟩
    obtain ⟨c', hc'⟩ := (hk _ a hq).mpr ⟨c, hc⟩
    exact ⟨c', hq, hc'⟩

/-- A turn on a message that is no reply, or a good one. -/
theorem recvTask_fine (ho : Own s) (ht : s.task = none) (h : PendingLive s)
    (hl : msg.length ≤ GH_MSGQ_MAX_MSG_SIZE_BYTES) (hg : IsReply msg → GoodReply env s msg) :
    Fine (ghRmRecvTask env s msg) := by
  unfold ghRmRecvTask
  split
  · exact ⟨ht, h⟩
  rename_i hlen
  refine Fine.bind ?_ fun t _ ht hp => complete_fine ht hp
  unfold ghRmRecvDispatch
  simp only
  split
  · exact (abortPending_fine ht h).bind fun t _ ht _ => processNotif_fine ht
  split
  · rename_i hty
    refine (abortPending_fine ht h).bind fun t hab ht _ => processRply_good ht hl ?_
    exact (goodReply_abort ho hab).mpr (hg ⟨Nat.lt_of_not_le hlen, hty⟩)
  split
  · split
    · exact ⟨ht, h⟩
    · rename_i hp
      exact processCont_fine ht h hp
  · exact ⟨ht, h⟩

/-- A turn on a reply that is no good. -/
theorem recvTask_bad (ho : Own s) (ht : s.task = none) (h : PendingLive s)
    (hl : msg.length ≤ GH_MSGQ_MAX_MSG_SIZE_BYTES) (hr : IsReply msg) (hg : ¬ GoodReply env s msg) :
    (outcome (ghRmRecvTask env s msg)).task ≠ none := by
  have hfine := abortPending_fine ht h
  rw [ghRmRecvTask, if_neg (Nat.not_le.mpr hr.1), ghRmRecvDispatch]
  simp only [hr.2]
  rw [if_neg (by decide), if_pos trivial]
  cases hab : abortPending s with
  | error e => exact fun hn => by cases hn
  | ok t => exact processRply_bad hl fun hgood => hg ((goodReply_abort ho hab).mp hgood)

end

/-! ### Over a run -/

theorem TaskOk.of_call {s t : Core} (h : TaskOk s) (htask : t.task = s.task) (hp : t.pending = s.pending)
    (hh : s.task = none → ∀ a c, s.pending = .obj a → s.heap a = some c → ∃ c', t.heap a = some c') :
    TaskOk t := by
  refine ⟨by rw [htask]; exact h.noBadPtr, fun hn => ?_⟩
  rw [htask] at hn
  rcases h.live hn with hnull | ⟨a, c, ha, hc⟩
  · exact .inl (hp.trans hnull)
  · obtain ⟨c', hc'⟩ := hh hn a c ha hc
    exact .inr ⟨a, c', hp.trans ha, hc'⟩

/-- A call that frees its connection leaves the task as it should be exactly
when the connection is not pending. -/
theorem taskOk_free {s t : Core} {a : Addr} (h : TaskOk s) (htask : t.task = s.task)
    (hp : t.pending = s.pending) (hh : t.heap = Function.update s.heap a none) :
    TaskOk t ↔ (s.task = none → s.pending ≠ .obj a) := by
  constructor
  · intro ht hn e
    rcases ht.live (htask.trans hn) with hnull | ⟨b, c, hb, hc⟩
    · rw [hp, e] at hnull
      cases hnull
    · rw [hp, e] at hb
      cases hb
      rw [hh, Function.update_self] at hc
      cases hc
  · intro hne
    refine h.of_call htask hp fun hn b c hb hc => ⟨c, ?_⟩
    have e : b ≠ a := fun e => hne hn (e ▸ hb)
    rw [hh, Function.update_of_ne e, hc]

theorem taskOk_alloc {s t : Core} {c : Connection} (ho : Own s) (h : TaskOk s) (htask : t.task = s.task)
    (hp : t.pending = s.pending) (hh : t.heap = Function.update s.heap s.next (some c)) : TaskOk t := by
  refine h.of_call htask hp fun _ a d ha hd => ⟨d, ?_⟩
  rw [hh, Function.update_of_ne (Nat.ne_of_lt (ho.pendingLt a ha)), hd]

theorem taskSafe_step {s t : Core} {act : Act} (ho : Own s) (h : TaskOk s) (hs : step s act = some t) :
    TaskSafe s act t ↔ MeetsTask s act := by
  have other : (∀ msg env, act ≠ .recv msg env) → (TaskSafe s act t ↔ TaskOk t) := fun hne =>
    and_iff_left fun msg env e => absurd e (hne msg env)
  cases step_does hs with
  | refuse r hr hk =>
    rw [other (by simp)]
    exact iff_of_true (h.of_call rfl rfl fun _ a c _ hc => ⟨c, hc⟩) trivial
  | alloc hr hk he hq =>
    rw [other (by simp)]
    exact iff_of_true (taskOk_alloc ho h rfl rfl rfl) trivial
  | noId hr hk he hq =>
    rw [other (by simp)]
    exact iff_of_true (taskOk_alloc ho h rfl rfl rfl) trivial
  | @sendFail k ret a hk hr =>
    rw [other (by simp)]
    refine Iff.trans (taskOk_free h rfl rfl rfl) ?_
    simp only [MeetsTask, hk, CallState.sending.injEq, forall_eq', hr, true_imp_iff]
  | @sendOk k ret a hk hr =>
    rw [other (by simp)]
    exact iff_of_true (h.of_call rfl rfl fun _ a c _ hc => ⟨c, hc⟩) fun hn => absurd hr (Int.not_le.mpr hn)
  | @finish k a c hk hc hd =>
    rw [other (by simp)]
    refine Iff.trans (taskOk_free h rfl rfl rfl) ?_
    simp only [MeetsTask, hk, CallState.waiting.injEq, forall_eq']
  | @recv msg env ht hl =>
    constructor
    · intro hsafe hr
      by_contra hbad
      exact recvTask_bad ho ht (h.live ht) hl hr hbad (hsafe.2 msg env rfl hr hbad).1
    · intro hg
      refine ⟨(recvTask_fine ho ht (h.live ht) hl hg).taskOk, fun msg' env' e hr hbad => ?_⟩
      cases e
      exact absurd (hg hr) hbad
  | @work a ha =>
    rw [other (by simp)]
    refine Iff.trans (taskOk_free h rfl rfl rfl) ?_
    exact iff_of_true (fun _ => (ho.works a ha).2.2) trivial

/-- In a run, the receive task follows only pointers to live connections and
drops every reply that is no good exactly when no such reply is received and
no call that fails or returns frees the pending connection. -/
theorem taskOk_iff (as : List Act) :
    Each step TaskSafe Core.init as ↔ Each step (fun s act _ => MeetsTask s act) Core.init as := by
  have hstep : ∀ s act t, Inv (fun _ => True) s ∧ TaskOk s → step s act = some t →
      (TaskSafe s act t ↔ MeetsTask s act) :=
    fun s act t h hs => taskSafe_step h.1.own h.2 hs
  refine each_iff (fun s act t h hs hm => ?_) hstep ⟨Inv.init, ⟨by simp [Core.init], fun _ => .inl rfl⟩⟩
  exact ⟨inv_step_any s act t h.1 hs, ((hstep s act t h hs).mpr hm).1⟩

/-- A reply under a sequence number that no call has. -/
theorem not_taskSafe_unknown_seq :
    ¬ Each step TaskSafe Core.init [.recv (message GH_RM_RPC_TYPE_RPLY 0 7 0x56000004 [0, 0, 0, 0]) {}] := by
  intro h
  have hsafe := h [] _ [] Core.init _ rfl rfl rfl
  have hbad := hsafe.1.noBadPtr .completeConnection (.err (-EINVAL)) rfl
  exact hbad.2.1 rfl

/-! ## The bounds of the buffer -/

/-- The message's payload fits behind what the connection holds, in the
bytes allocated for the series. -/
def InBounds (c : Connection) (msg : List Byte) : Prop := c.size + (msg.length - HDR_SIZE) ≤ c.alloc

instance (c : Connection) (msg : List Byte) : Decidable (InBounds c msg) :=
  inferInstanceAs (Decidable (_ ≤ _))

/-- The series the connection holds began with a payload. -/
def BeganWithPayload (c : Connection) : Prop := ∃ m ∈ c.series.head?, startPayload m ≠ []

theorem Assembles.inBounds {c : Connection} {start msg : List Byte} {conts : List (List Byte)}
    (h : Assembles c start conts) (hr : c.fragmentsReceived ≠ c.numFragments) (hl : HDR_SIZE < msg.length)
    (hl' : msg.length ≤ GH_MSGQ_MAX_MSG_SIZE_BYTES) : InBounds c msg ↔ BeganWithPayload c := by
  have hle := h.le
  rw [h.received] at hr
  simp only [BeganWithPayload, h.series, List.head?_cons, Option.mem_some_iff, exists_eq_left']
  constructor
  · intro hb he
    rw [InBounds, h.empty he] at hb
    omega
  · intro hp
    have := h.room hp (n := 1) (by omega)
    simp only [InBounds, HDR_SIZE, GH_RM_MAX_MSG_SIZE_BYTES, GH_MSGQ_MAX_MSG_SIZE_BYTES] at *
    omega

/-- What the connection a step appends to holds. -/
theorem appendsTo_spec {G : List Byte → Prop} {s : Core} {msg : List Byte} {c : Connection} (h : Inv G s)
    (ht : s.task = none) (ha : appendsTo s msg = some c) :
    Holds G s c ∧ c.fragmentsReceived ≠ c.numFragments ∧ HDR_SIZE < msg.length := by
  unfold appendsTo at ha
  split at ha
  · rename_i hm
    split at ha
    · rename_i a hp
      have hc := (Option.filter_eq_some_iff.mp ha).1
      exact ⟨h.assembly.pend a c hp hc, (h.settled ht).waits a c hp hc, hm.1⟩
    · cases ha
  · cases ha

/-- Two properties of appends that agree on what the machine appends to. -/
theorem appendMeets_iff {G : List Byte → Prop} {E F : Connection → List Byte → Prop}
    (hEF : ∀ s c msg, Holds G s c → c.fragmentsReceived ≠ c.numFragments → HDR_SIZE < msg.length →
      msg.length ≤ GH_MSGQ_MAX_MSG_SIZE_BYTES → (E c msg ↔ F c msg))
    {s t : Core} {act : Act} (h : Inv G s) (hs : step s act = some t) :
    AppendMeets E s act ↔ AppendMeets F s act := by
  cases step_does hs with
  | @recv msg env ht hl =>
    have hc : ∀ c, appendsTo s msg = some c → (E c msg ↔ F c msg) := by
      intro c ha
      obtain ⟨hh, hr, hlt⟩ := appendsTo_spec h ht ha
      exact hEF s c msg hh hr hlt hl
    exact ⟨fun he c ha => (hc c ha).mp (he c ha), fun hf c ha => (hc c ha).mpr (hf c ha)⟩
  | _ => exact Iff.rfl

/-- Every append of a run is within the bytes allocated for its series exactly
when no fragment is received for a series that began without a payload. -/
theorem inBounds_iff (as : List Act) :
    Always step (fun s => ∀ e ∈ s.appended, InBounds e.1 e.2) Core.init as ↔
      Each step (fun s act _ => AppendMeets (fun c _ => BeganWithPayload c) s act) Core.init as := by
  rw [appended_iff]
  refine each_iff (I := Inv fun _ => True) (fun s act t h hs _ => inv_step_any s act t h hs)
    (fun s act t h hs => ?_) Inv.init
  exact appendMeets_iff (fun s c msg ⟨_, _, hc, _⟩ hr hl hl' => hc.inBounds hr hl hl') h hs

/-- A reply without a payload that announces a fragment, and the fragment. -/
theorem not_inBounds_empty_start :
    ¬ Always step (fun s => ∀ e ∈ s.appended, InBounds e.1 e.2) Core.init
      [.call 0 { messageId := 0x56000004, reqBuff := some [1] } { idr := .id 0 }, .send 0 0,
        .recv (message GH_RM_RPC_TYPE_RPLY 1 0 0x56000004 [0, 0, 0, 0]) {},
        .recv (message GH_RM_RPC_TYPE_CONT 1 0 0x56000004 [7]) {}] := by
  decide

/-! ## Splicing -/

/-- The message carries the ids of the connection. -/
def Carries (c : Connection) (msg : List Byte) : Prop :=
  (rpcHdr msg).msgId = c.msgId ∧ (c.type = GH_RM_RPC_TYPE_RPLY → (rpcHdr msg).seq = c.seq)

instance (c : Connection) (msg : List Byte) : Decidable (Carries c msg) :=
  inferInstanceAs (Decidable (_ ∧ (_ → _)))

/-- The message carries the ids of the start message of the connection's series. -/
def OfSeries (c : Connection) (msg : List Byte) : Prop := ∃ start ∈ c.series.head?, SameIds start msg

instance (c : Connection) (msg : List Byte) : Decidable (OfSeries c msg) :=
  inferInstanceAs (Decidable (∃ start ∈ c.series.head?, SameIds start msg))

/-- The connection's payload is that of a series of messages with the ids of
its start message. -/
def Unspliced (c : Connection) : Prop :=
  ∃ start conts, c.series = start :: conts ∧
    c.payload.map (·.take c.size) = some (seriesPayload (start :: conts)) ∧ ∀ m ∈ conts, SameIds start m

instance (c : Connection) : Decidable (Unspliced c) :=
  match h : c.series with
  | [] => isFalse fun ⟨_, _, e, _⟩ => by rw [h] at e; cases e
  | start :: conts =>
    decidable_of_iff (c.payload.map (·.take c.size) = some (seriesPayload (start :: conts)) ∧
      ∀ m ∈ conts, SameIds start m) (by simp [Unspliced, h, and_assoc])

theorem Assembles.ofSeries_iff {c : Connection} {start msg : List Byte} {conts : List (List Byte)}
    (h : Assembles c start conts) : OfSeries c msg ↔ Carries c msg := by
  simp only [OfSeries, Carries, SameIds, h.series, List.head?_cons, Option.mem_some_iff, exists_eq_left',
    h.msgId, ← h.type]
  exact and_congr_right fun _ => ⟨fun hs ht => (hs ht).trans (h.seq ht).symm,
    fun hs ht => (hs ht).trans (h.seq ht)⟩

/-- What was completed is not spliced, if no append was. -/
theorem unspliced_completed {s : Core} (h : Inv (startPayload · ≠ []) s)
    (ha : ∀ e ∈ s.appended, OfSeries e.1 e.2) : ∀ c ∈ s.completed, Unspliced c := by
  intro c hc
  obtain ⟨⟨start, conts, has, hne, horig⟩, -⟩ := h.assembly.completed c hc
  obtain ⟨buf, hb, -, htake⟩ := has.payload hne
  refine ⟨start, conts, has.series, by rw [hb, Option.map_some, htake], fun m hm => ?_⟩
  obtain ⟨c', hm', hid, hty, hsq⟩ := horig m hm
  obtain ⟨⟨_, _, has'⟩, -⟩ := h.assembly.appended _ hm'
  obtain ⟨h₁, h₂⟩ := has'.ofSeries_iff.mp (ha _ hm')
  refine ⟨by rw [← has.msgId, ← hid]; exact h₁, fun ht => ?_⟩
  rw [← has.type] at ht
  rw [← has.seq ht, ← hsq]
  exact h₂ (hty.trans ht)

/-- With non-empty first payloads, no fragment of another series is appended
and every completed connection is put together from one series exactly when
every continuation message appended carries the ids of the pending connection. -/
theorem unspliced_iff {as : List Act}
    (hne : Each step (fun _ act _ => StartMeets (startPayload · ≠ []) act) Core.init as) :
    Always step (fun s => (∀ e ∈ s.appended, OfSeries e.1 e.2) ∧ ∀ c ∈ s.completed, Unspliced c)
        Core.init as ↔
      Each step (fun s act _ => AppendMeets Carries s act) Core.init as := by
  have hinv : Always step (Inv (startPayload · ≠ [])) Core.init as :=
    inv_each (fun s act t h hs hg => inv_step s act t h hs hg) Inv.init hne
  have happ : Always step (fun s => ∀ e ∈ s.appended, OfSeries e.1 e.2) Core.init as ↔
      Each step (fun s act _ => AppendMeets Carries s act) Core.init as := by
    rw [appended_iff]
    refine each_iff (I := Inv fun _ => True) (fun s act t h hs _ => inv_step_any s act t h hs)
      (fun s act t h hs => ?_) Inv.init
    exact appendMeets_iff (fun s c msg ⟨_, _, hc, _⟩ _ _ _ => hc.ofSeries_iff) h hs
  rw [← happ]
  constructor
  · exact fun h bs cs t e ht => (h bs cs t e ht).1
  · exact fun h bs cs t e ht => ⟨h bs cs t e ht, unspliced_completed (hinv bs cs t e ht) (h bs cs t e ht)⟩

/-- A notification whose fragment has the message id of another is completed. -/
theorem spliced_other_msgId :
    Each step (fun _ act _ => StartMeets (startPayload · ≠ []) act) Core.init
        [.recv (message GH_RM_RPC_TYPE_NOTIF 1 0 0x56100001 [1]) {},
          .recv (message GH_RM_RPC_TYPE_CONT 1 0 0x56100002 [2]) {}] ∧
      ¬ Always step (fun s => (∀ e ∈ s.appended, OfSeries e.1 e.2) ∧ ∀ c ∈ s.completed, Unspliced c)
        Core.init
        [.recv (message GH_RM_RPC_TYPE_NOTIF 1 0 0x56100001 [1]) {},
          .recv (message GH_RM_RPC_TYPE_CONT 1 0 0x56100002 [2]) {}] := by
  decide +kernel

/-- A notification with a fragment of its own. -/
theorem unspliced_own_fragment :
    Always step (fun s => (∀ e ∈ s.appended, OfSeries e.1 e.2) ∧ ∀ c ∈ s.completed, Unspliced c) Core.init
      [.recv (message GH_RM_RPC_TYPE_NOTIF 1 0 0x56100001 [1]) {},
        .recv (message GH_RM_RPC_TYPE_CONT 1 0 0x56100001 [2]) {}] :=
  (unspliced_iff (by decide +kernel)).mpr (by decide +kernel)

end GH.Proof.Rm
