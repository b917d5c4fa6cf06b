import Mathlib.Data.List.Basic
import Mathlib.Data.List.Nodup
import Gunyah.Proof.Rm.Deliver
import Gunyah.Spec.Rm.Notif

/-!
# The way of a notification

Each notification that is received gets a work item of its own, with its own
payload, and the work item calls the notifier chain with it (`CalledOnce`, in
every state of every run: `notifications_called_once`). Nothing keeps the work
items in order: the chain is called in the order in which they run.

The receive task is between two notifications, or within one (`Place`); the
work items, those that have run and those that are queued, are the ones of the
notifications that are done (`Progress`).
-/

namespace GH.Proof.Rm.Notif

open GH.Impl GH.Impl.Rm GH.Spec.Rm

/-- The messages of a series. -/
abbrev msgs (x : List Byte × List (List Byte)) : List (List Byte) := x.1 :: x.2

/-- The work items that have run or are queued are those of the notifications
`done`. -/
structure Progress (s : NotifState) (done : List (List Byte × List (List Byte))) : Prop where
  perm : (s.called ++ s.queued).Perm (done.filterMap seriesNotification)
  order : s.inOrder = true → s.called ++ s.queued = done.filterMap seriesNotification

/-- Where the receive task is in what the RM has sent. -/
inductive Place (s : NotifState) (done : List (List Byte × List (List Byte))) : Prop where
  /-- Between two notifications. There are messages left of one for which there
  was no memory. -/
  | between (past later : List (List Byte × List (List Byte))) (rest : List (List Byte))
      (sent : s.sent = past ++ later) (rxq : s.rxq = rest ++ later.flatMap msgs) (pending : s.core.pending = .null)
      (skip : ∀ m ∈ rest, (rpcHdr m).type = GH_RM_RPC_TYPE_CONT) (sub : done.Sublist past)
      (full : s.noFail = true → rest = [] ∧ done = past)
  /-- Within the notification `x`, of which it has got the start and `got`. -/
  | within (past later : List (List Byte × List (List Byte))) (x : List Byte × List (List Byte))
      (got rest : List (List Byte)) (a : Addr) (c : Connection)
      (sent : s.sent = past ++ x :: later) (rxq : s.rxq = rest ++ later.flatMap msgs) (split : x.2 = got ++ rest)
      (more : rest ≠ []) (pending : s.core.pending = .obj a) (heap : s.core.heap a = some c)
      (holds : Assembles c x.1 got) (sub : done.Sublist past) (full : s.noFail = true → done = past)

/-- The notifications of a prefix of the stream have been received, and the rest of it is on its way. -/
structure NotifInv (s : NotifState) : Prop where
  core : Inv (fun _ => True) s.core
  nodup : s.core.works.Nodup
  valid : ∀ x ∈ s.sent, IsNotification x.1 x.2
  fault : s.core.task ≠ none → s.noFail = false
  stream : ∃ done, done.Sublist s.sent ∧ Progress s done ∧ (s.core.task = none → Place s done)

theorem NotifInv.init : NotifInv NotifState.init where
  core := .init
  nodup := List.nodup_nil
  valid x hx := absurd hx List.not_mem_nil
  fault h := absurd rfl h
  stream := ⟨[], List.Sublist.refl _, ⟨List.Perm.refl _, fun _ => rfl⟩, fun _ =>
    .between [] [] [] rfl rfl rfl (by simp) (List.Sublist.refl _) fun _ => ⟨rfl, rfl⟩⟩

/-- Everything is received when no message is left. -/
theorem Place.all {s : NotifState} {done : List (List Byte × List (List Byte))} (h : Place s done)
    (hf : s.noFail = true) (hq : s.rxq = []) : done = s.sent := by
  cases h with
  | between past later rest hs hr hp hk hd hfull =>
    rw [hq, eq_comm, List.append_eq_nil_iff, List.flatMap_eq_nil_iff] at hr
    have hl : later = [] := List.eq_nil_iff_forall_not_mem.mpr fun x hx => by simpa using hr.2 x hx
    rw [hs, hl, List.append_nil, (hfull hf).2]
  | within past later x got rest a c hs hr hx hm =>
    rw [hq, eq_comm, List.append_eq_nil_iff] at hr
    exact absurd hr.1 hm

theorem NotifInv.calledOnce {s : NotifState} (h : NotifInv s) : CalledOnce s := by
  obtain ⟨done, hsub, hprog, hstream⟩ := h.stream
  refine ⟨⟨_, hsub.filterMap _, hprog.perm⟩, fun ho => ?_, fun hf hq => ?_⟩
  · rw [hprog.order ho]
    exact hsub.filterMap _
  · have ht : s.core.task = none := by
      by_contra hne
      rw [h.fault hne] at hf
      cases hf
    rw [← (hstream ht).all hf hq]
    exact hprog.perm

/-! ## What the receive task does with a message -/

theorem startPayload_ne {x : List Byte × List (List Byte)} (hx : IsNotification x.1 x.2) : startPayload x.1 ≠ [] := by
  have hlen := length_startPayload x.1
  rw [startHdr_notif hx.2.1] at hlen
  have hlong := hx.1.long
  intro h
  rw [h, List.length_nil] at hlen
  omega

/-- The connection of a whole notification. -/
theorem notification_eq {x : List Byte × List (List Byte)} {c : Connection} (hx : IsNotification x.1 x.2)
    (hc : Assembles c x.1 x.2) : c.notification = seriesNotification x := by
  obtain ⟨buf, hbuf, -, htake⟩ := hc.payload (startPayload_ne hx)
  rw [Connection.notification, hbuf, Option.getD_some, htake, hc.msgId]
  rfl

/-- The receive task has taken a message of the notification `x`, up to its
completion. -/
structure Took (s : NotifState) (v : Core) (a : Addr) (x : List Byte × List (List Byte))
    (got : List (List Byte)) : Prop where
  task : v.task = none
  pending : v.pending = .obj a
  new : a ∉ s.core.works
  works : v.works = s.core.works
  heap : ∀ b ∈ s.core.works, v.heap b = s.core.heap b
  holds : ∃ c, v.heap a = some c ∧ Assembles c x.1 got

/-- The work items and their connections are as they were. -/
structure Same (s t : Core) : Prop where
  works : t.works = s.works
  heap : ∀ b ∈ s.works, t.heap b = s.heap b

/-- A work item is added for a connection that makes the call `n`. -/
structure Adds (s t : Core) (a : Addr) (n : Option Notification) : Prop where
  new : a ∉ s.works
  works : t.works = s.works ++ [a]
  heap : ∀ b ∈ s.works, t.heap b = s.heap b
  call : (t.heap a).bind Connection.notification = n

variable {env : RecvEnv} {s : NotifState} {v : Core} {a : Addr} {x : List Byte × List (List Byte)}
  {got rest : List (List Byte)}

variable (env) in
theorem Took.more (h : Took s v a x got) (hx : IsNotification x.1 x.2) (hsplit : x.2 = got ++ rest)
    (hm : rest ≠ []) : complete env v = .ok v := by
  obtain ⟨c, hc, has⟩ := h.holds
  exact complete_more h.pending hc has (hsplit ▸ hx.1) hm

variable (env) in
/-- The last message of a notification. -/
theorem Took.last (h : Took s v a x x.2) (hx : IsNotification x.1 x.2) :
    ∃ t, complete env v = .ok t ∧ t.task = none ∧ t.pending = .null ∧
      (env.work = true ∧ Adds s.core t a (seriesNotification x) ∨ env.work = false ∧ Same s.core t) := by
  obtain ⟨c, hc, has⟩ := h.holds
  have hnum : c.fragmentsReceived = c.numFragments := by rw [has.received, has.num, hx.1.num]
  rw [complete_notif h.pending hc hnum (has.type.trans hx.2.1)]
  cases hw : env.work with
  | true =>
    refine ⟨_, rfl, h.task, rfl, .inl ⟨rfl, h.new, ?_, h.heap, ?_⟩⟩
    · exact congrArg (· ++ [a]) h.works
    · exact (congrArg (Option.bind · Connection.notification) hc).trans (notification_eq hx has)
  | false =>
    refine ⟨_, rfl, h.task, rfl, .inr ⟨rfl, h.works, fun b hb => ?_⟩⟩
    have hne : b ≠ a := fun e => h.new (e ▸ hb)
    exact (Function.update_of_ne hne ..).trans (h.heap b hb)

theorem queued_same {t : Core} (h : Same s.core t) {q : List (List Byte)} {b : Bool} :
    NotifState.queued { s with core := t, rxq := q, noFail := b } = s.queued := by
  rw [NotifState.queued, h.works]
  exact List.filterMap_congr fun b hb => by rw [h.heap b hb]

theorem queued_adds {t : Core} {n : Notification} (h : Adds s.core t a n) {q : List (List Byte)} {b : Bool} :
    NotifState.queued { s with core := t, rxq := q, noFail := b } = s.queued ++ [n] := by
  rw [NotifState.queued, h.works, List.filterMap_append]
  congr 1
  · exact List.filterMap_congr fun b hb => by rw [h.heap b hb]
  · simp [h.call]

/-! ## Steps -/

/-- A message that leaves the work items as they are. -/
theorem NotifInv.recv_same {t : Core} {q : List (List Byte)} {done : List (List Byte × List (List Byte))}
    (h : NotifInv s) (hc : Inv (fun _ => True) t) (hsame : Same s.core t) (hsub : done.Sublist s.sent)
    (hprog : Progress s done) {b : Bool} (hfault : t.task ≠ none → b = false)
    (hplace : t.task = none → Place { s with core := t, rxq := q, noFail := b } done) :
    NotifInv { s with core := t, rxq := q, noFail := b } := by
  refine ⟨hc, ?_, h.valid, hfault, done, hsub, ⟨?_, ?_⟩, hplace⟩
  · exact hsame.works ▸ h.nodup
  · rw [queued_same hsame]
    exact hprog.perm
  · rw [queued_same hsame]
    exact hprog.order

/-- The last message of the notification `x`, with a work item for it. -/
theorem NotifInv.recv_adds {t : Core} {n : Notification} {past later done : List (List Byte × List (List Byte))}
    (h : NotifInv s) (hc : Inv (fun _ => True) t) (hadds : Adds s.core t a n) (hn : seriesNotification x = some n)
    (ht : t.task = none) (hp : t.pending = .null) (hs : s.sent = past ++ x :: later) (hd : done.Sublist past)
    (hprog : Progress s done) {b : Bool} (hfull : b = true → done = past) :
    NotifInv { s with core := t, rxq := later.flatMap msgs, noFail := b } := by
  have hfm : (done ++ [x]).filterMap seriesNotification = done.filterMap seriesNotification ++ [n] := by
    rw [List.filterMap_append, List.filterMap_cons_some hn, List.filterMap_nil]
  have hsub : (done ++ [x]).Sublist (past ++ [x]) := hd.append (List.Sublist.refl _)
  refine ⟨hc, ?_, h.valid, fun hne => absurd ht hne, done ++ [x], ?_, ⟨?_, fun ho => ?_⟩, fun _ => ?_⟩
  · show t.works.Nodup
    rw [hadds.works]
    exact List.nodup_append.mpr ⟨h.nodup, List.nodup_singleton a, fun b hb c hc e =>
      hadds.new (List.mem_singleton.mp hc ▸ e ▸ hb)⟩
  · show (done ++ [x]).Sublist s.sent
    rw [hs, show past ++ x :: later = past ++ [x] ++ later by simp]
    exact hsub.trans (List.sublist_append_left _ _)
  · rw [queued_adds hadds, hfm, ← List.append_assoc]
    exact hprog.perm.append_right _
  · rw [queued_adds hadds, hfm, ← List.append_assoc]
    exact congrArg (· ++ [n]) (hprog.order ho)
  · exact .between (past ++ [x]) later [] (hs.trans (by simp)) rfl hp (by simp) hsub
      fun hb => ⟨rfl, by rw [hfull hb]⟩

/-- The receive task takes a message only while it runs, and a turn that ends in
`u` is the step to `u`. -/
theorem step_recv {c core : Core} {m : List Byte} (h : step c (.recv m env) = some core) :
    c.task = none ∧ m.length ≤ GH_MSGQ_MAX_MSG_SIZE_BYTES ∧ ∀ u, ghRmRecvTask env c m = .ok u → core = u := by
  have hg : c.task = none ∧ m.length ≤ GH_MSGQ_MAX_MSG_SIZE_BYTES := by
    by_contra hn
    rw [step, if_neg hn] at h
    cases h
  exact ⟨hg.1, hg.2, fun u hu => Option.some.inj (h.symm.trans (recv_step hg.1 hg.2 hu))⟩

section

variable {core : Core} {m : List Byte} {past later done : List (List Byte × List (List Byte))} (h : NotifInv s)
  (hinv : Inv (fun _ => True) core) (hcore : step s.core (.recv m env) = some core) (hprog : Progress s done)
  (hd : done.Sublist past)
include h hinv hcore hprog hd

/-- After a message of the notification `x`, the series goes on or is done. -/
theorem NotifInv.took (hturn : ghRmRecvTask env s.core m = complete env v) (htook : Took s v a x got)
    (hs : s.sent = past ++ x :: later) (hsplit : x.2 = got ++ rest) (hfull : s.noFail = true → done = past) :
    NotifInv { s with core := core, rxq := rest ++ later.flatMap msgs,
                      noFail := s.noFail && env.connection && env.payload && env.work } := by
  have hx : IsNotification x.1 x.2 := h.valid x (by simp [hs])
  have hsub : done.Sublist s.sent := hs ▸ hd.trans (List.sublist_append_left _ _)
  have hok := (step_recv hcore).2.2
  have hfull' : (s.noFail && env.connection && env.payload && env.work) = true → done = past := by
    intro hf
    simp only [Bool.and_eq_true] at hf
    exact hfull hf.1.1.1
  by_cases hm : rest = []
  · subst hm
    rw [List.append_nil] at hsplit
    subst hsplit
    obtain ⟨u, hu, htask, hpend, ⟨hw, hadds⟩ | ⟨hw, hsame⟩⟩ := htook.last env hx
    · cases hok u (hturn.trans hu)
      obtain ⟨n, hn⟩ := Option.ne_none_iff_exists'.mp hx.2.2
      rw [hn] at hadds
      exact h.recv_adds hinv hadds hn htask hpend hs hd hprog hfull'
    · cases hok u (hturn.trans hu)
      refine h.recv_same hinv hsame hsub hprog (fun hne => absurd htask hne) fun _ => ?_
      exact .between (past ++ [x]) later [] (hs.trans (by simp)) rfl hpend (by simp)
        (hd.trans (List.sublist_append_left _ _)) (by simp [hw])
  · cases hok v (hturn.trans (htook.more env hx hsplit hm))
    obtain ⟨c, hcv, has⟩ := htook.holds
    refine h.recv_same hinv ⟨htook.works, htook.heap⟩ hsub hprog (fun hne => absurd htook.task hne) fun _ => ?_
    exact .within past later x got rest a c hs rfl hsplit hm htook.pending hcv has hd hfull'

/-- A message of a notification for which there was no memory. -/
theorem NotifInv.recv_skip (hs : s.sent = past ++ later) (hp : s.core.pending = .null)
    (hskip : ∀ m' ∈ m :: rest, (rpcHdr m').type = GH_RM_RPC_TYPE_CONT) (hfail : s.noFail = false) :
    NotifInv { s with core := core, rxq := rest ++ later.flatMap msgs,
                      noFail := s.noFail && env.connection && env.payload && env.work } := by
  obtain ⟨htask, -, hok⟩ := step_recv hcore
  cases hok _ (recvTask_cont_null hp (hskip m List.mem_cons_self))
  refine h.recv_same hinv ⟨rfl, fun _ _ => rfl⟩ (hs ▸ hd.trans (List.sublist_append_left _ _)) hprog
    (fun hne => absurd htask hne) fun _ => ?_
  exact .between past later rest hs rfl hp (fun m' hm => hskip m' (List.mem_cons_of_mem _ hm)) hd (by simp [hfail])

/-- The start of the notification `x`. -/
theorem NotifInv.recv_start (hm : m = x.1) (hs : s.sent = past ++ x :: later) (hp : s.core.pending = .null)
    (hfull : s.noFail = true → done = past) :
    NotifInv { s with core := core, rxq := x.2 ++ later.flatMap msgs,
                      noFail := s.noFail && env.connection && env.payload && env.work } := by
  subst hm
  have hx : IsNotification x.1 x.2 := h.valid x (by simp [hs])
  have hsub : done.Sublist s.sent := hs ▸ hd.trans (List.sublist_append_left _ _)
  obtain ⟨htask, hlen, hok⟩ := step_recv hcore
  have hturn : ghRmRecvTask env s.core x.1 = _ := recvTask_notif hx.1 hx.2.1 hp
  by_cases hconn : env.connection = true
  · by_cases hpay : env.payload = true
    · rw [if_pos hconn, if_pos hpay] at hturn
      have hnew : s.core.next ∉ s.core.works := fun hm => Nat.lt_irrefl _ (h.core.own.worksLt _ hm)
      refine h.took hinv hcore hprog hd hturn (x := x) ⟨htask, rfl, hnew, rfl, fun b hb => ?_, ?_⟩ hs
        (List.nil_append _).symm hfull
      · have hne : b ≠ s.core.next := fun e => hnew (e ▸ hb)
        exact Function.update_of_ne hne ..
      · exact ⟨_, Function.update_self .., notified_assembles hx.1 hx.2.1⟩
    · rw [if_pos hconn, if_neg hpay] at hturn
      cases hok _ hturn
      refine h.recv_same hinv ⟨rfl, fun _ _ => rfl⟩ hsub hprog (fun hne => absurd htask hne) fun _ => ?_
      exact .between (past ++ [x]) later x.2 (hs.trans (by simp)) rfl hp
        (fun m hm => (hx.1.cont m hm).1) (hd.trans (List.sublist_append_left _ _)) (by simp [hpay])
  · rw [if_neg hconn] at hturn
    have hu : core = { s.core with task := some (.badPtr .initConnectionBuff (.err (-ENOMEM))) } := by
      simp only [step, htask, hlen, hturn, and_self, if_true, Option.some.injEq] at hcore
      exact hcore.symm
    subst hu
    exact h.recv_same hinv ⟨rfl, fun _ _ => rfl⟩ hsub hprog (by simp [hconn]) (fun hn => by cases hn)

/-- A continuation message of the notification `x`. -/
theorem NotifInv.recv_cont {c : Connection} (hs : s.sent = past ++ x :: later) (hsplit : x.2 = got ++ m :: rest)
    (hp : s.core.pending = .obj a) (hc : s.core.heap a = some c) (has : Assembles c x.1 got)
    (hfull : s.noFail = true → done = past) :
    NotifInv { s with core := core, rxq := rest ++ later.flatMap msgs,
                      noFail := s.noFail && env.connection && env.payload && env.work } := by
  have hx : IsNotification x.1 x.2 := h.valid x (by simp [hs])
  obtain ⟨htask, -, -⟩ := step_recv hcore
  have hlt : got.length < c.numFragments := by
    rw [has.num, hx.1.num, hsplit, List.length_append, List.length_cons]
    omega
  have hm : IsCont x.1 m := hx.1.cont m (by simp [hsplit])
  obtain ⟨c', has', -, -, hturn⟩ := recvTask_cont env hp hc has (startPayload_ne hx) hlt hm
  have hnew : a ∉ s.core.works := fun ha => (h.core.own.works a ha).2.2 hp
  refine h.took hinv hcore hprog hd hturn
    (show Took s _ a x (got ++ [m]) from ⟨htask, hp, hnew, rfl, fun b hb => ?_, ?_⟩) hs (by simp [hsplit]) hfull
  · have hne : b ≠ a := fun e => hnew (e ▸ hb)
    exact Function.update_of_ne hne ..
  · exact ⟨c', Function.update_self .., has'⟩

end

theorem NotifInv.recv {t : NotifState} (h : NotifInv s) (hst : notifStep s (.recv env) = some t) : NotifInv t := by
  rw [notifStep] at hst
  split at hst
  · rename_i m q hq
    obtain ⟨core, hcore, rfl⟩ := Option.map_eq_some_iff.mp hst
    have hinv := inv_step_any s.core _ core h.core hcore
    obtain ⟨done, -, hprog, hplace⟩ := h.stream
    cases hplace (step_recv hcore).1 with
    | between past later rest hs hr hp hskip hd hfull =>
      cases rest with
      | cons m' rest =>
        rw [hq, List.cons_append, List.cons.injEq] at hr
        obtain ⟨rfl, rfl⟩ := hr
        have hfail : s.noFail = false := by
          by_contra hf
          simpa using (hfull (by simpa using hf)).1
        exact h.recv_skip hinv hcore hprog hd hs hp hskip hfail
      | nil =>
        cases later with
        | nil =>
          rw [hq] at hr
          cases hr
        | cons x later =>
          rw [hq, List.nil_append, List.flatMap_cons, List.cons_append, List.cons.injEq] at hr
          obtain ⟨hm, rfl⟩ := hr
          exact h.recv_start hinv hcore hprog hd hm hs hp fun hf => (hfull hf).2
    | within past later x got rest a c hs hr hsplit hm hp hc has hd hfull =>
      cases rest with
      | nil => exact absurd rfl hm
      | cons m' rest =>
        rw [hq, List.cons_append, List.cons.injEq] at hr
        obtain ⟨rfl, rfl⟩ := hr
        exact h.recv_cont hinv hcore hprog hd hs hsplit hp hc has hfull
  · cases hst

/-- The RM sends a notification. -/
theorem NotifInv.notif {start : List Byte} {conts : List (List Byte)} (h : NotifInv s)
    (hx : IsNotification start conts) :
    NotifInv { s with rxq := s.rxq ++ start :: conts, sent := s.sent ++ [(start, conts)] } := by
  obtain ⟨done, hsub, hprog, hplace⟩ := h.stream
  refine ⟨h.core, h.nodup, fun x hx' => ?_, h.fault, done, hsub.trans (List.sublist_append_left _ _),
    ⟨hprog.perm, hprog.order⟩, fun ht => ?_⟩
  · rcases List.mem_append.mp hx' with hx' | hx'
    · exact h.valid x hx'
    · rw [List.mem_singleton.mp hx']
      exact hx
  · cases hplace ht with
    | between past later rest hs hr hp hskip hd hfull =>
      exact .between past (later ++ [(start, conts)]) rest (by simp [hs]) (by simp [hr]) hp hskip hd hfull
    | within past later x got rest a c hs hr hsplit hm hp hc has hd hfull =>
      exact .within past (later ++ [(start, conts)]) x got rest a c (by simp [hs]) (by simp [hr]) hsplit hm hp hc
        has hd hfull

/-- The call that a work item makes is no longer queued. -/
theorem queued_erase {f : Addr → Option Notification} {g : Addr → Option Notification} {l : List Addr}
    (hn : l.Nodup) (ha : a ∈ l) (hg : ∀ b ∈ l, b ≠ a → g b = f b) :
    ((f a).toList ++ (l.erase a).filterMap g).Perm (l.filterMap f) ∧
      (l.head? = some a → (f a).toList ++ (l.erase a).filterMap g = l.filterMap f) := by
  have hfm : (l.erase a).filterMap g = (l.erase a).filterMap f := List.filterMap_congr fun b hb =>
    hg b (List.mem_of_mem_erase hb) fun e => (hn.not_mem_erase) (e ▸ hb)
  have hcons : ∀ l', (a :: l').filterMap f = (f a).toList ++ l'.filterMap f := by
    intro l'
    cases hfa : f a with
    | none => simp [hfa]
    | some n => simp [hfa]
  rw [hfm, ← hcons]
  refine ⟨(List.perm_cons_erase ha).symm.filterMap f, fun hh => ?_⟩
  obtain ⟨l', rfl⟩ := List.head?_eq_some_iff.mp hh
  rw [List.erase_cons_head]

/-- A work item runs. -/
theorem NotifInv.work {t : NotifState} (h : NotifInv s) (hst : notifStep s (.work a) = some t) : NotifInv t := by
  obtain ⟨core, hcore, rfl⟩ := Option.map_eq_some_iff.mp hst
  have hinv := inv_step_any s.core _ core h.core hcore
  cases step_does hcore with
  | work ha =>
    obtain ⟨done, hsub, hprog, hplace⟩ := h.stream
    obtain ⟨hperm, hhead⟩ := queued_erase (f := fun b => (s.core.heap b).bind Connection.notification)
      (g := fun b => (Function.update s.core.heap a none b).bind Connection.notification) h.nodup ha
      fun b _ hb => by rw [Function.update_of_ne hb]
    have hpend := (h.core.own.works a ha).2.2
    refine ⟨hinv, h.nodup.erase a, h.valid, h.fault, done, hsub, ⟨?_, fun ho => ?_⟩, fun ht => ?_⟩
    · rw [List.append_assoc]
      exact (hperm.append_left s.called).trans hprog.perm
    · simp only [Bool.and_eq_true, beq_iff_eq] at ho
      rw [List.append_assoc]
      exact (congrArg (s.called ++ ·) (hhead ho.2)).trans (hprog.order ho.1)
    · cases hplace ht with
      | between past later rest hs hr hp hskip hd hfull =>
        exact .between past later rest hs hr hp hskip hd hfull
      | within past later x got rest b c hs hr hsplit hm hp hc has hd hfull =>
        have hne : b ≠ a := fun e => hpend (e ▸ hp)
        exact .within past later x got rest b c hs hr hsplit hm hp ((Function.update_of_ne hne ..).trans hc) has
          hd hfull

theorem NotifInv.step {t : NotifState} {act : NotifAct} (h : NotifInv s) (hst : notifStep s act = some t) :
    NotifInv t := by
  cases act with
  | notif start conts =>
    rw [notifStep] at hst
    split at hst
    · cases hst
      exact h.notif (by assumption)
    · cases hst
  | recv env => exact h.recv hst
  | work a => exact h.work hst

/-- In every state of every run, each notification that got a work item has been
passed to the notifier chain once, or is going to be, in the order in which the
work items run. -/
theorem notifications_called_once (as : List NotifAct) : Always notifStep CalledOnce .init as := by
  intro bs cs s _ he
  exact (inv_exec (fun _ _ _ h hst => h.step hst) NotifInv.init he).calledOnce

/-- A `VM_SHUTDOWN` notification in one message, with a stop reason. -/
def shutdownNotif (reason : BitVec 8) : List Byte :=
  message GH_RM_RPC_TYPE_NOTIF 0 0 GH_RM_NOTIF_VM_SHUTDOWN [reason, 0, 0, 0]

/-- Two notifications are received, and the work item of the second one runs
first. -/
theorem second_called_first :
    ¬ Always notifStep CalledInOrder .init
      [.notif (shutdownNotif 0) [], .notif (shutdownNotif 1) [], .recv {}, .recv {}, .work 1, .work 0] := by
  intro h
  have hsub : List.Sublist _ _ := h _ [] _ (List.append_nil _).symm rfl
  exact absurd hsub (by decide)

end GH.Proof.Rm.Notif
