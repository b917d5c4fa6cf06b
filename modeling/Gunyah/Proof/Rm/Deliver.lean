import Gunyah.Proof.Rm.Assembly

/-!
# A well-formed series in the receive task

What a turn of the receive task does with a message of a well-formed series:
the start of a reply to a live call (`recvTask_reply`), the start of a
notification (`recvTask_notif`), and a continuation message of the pending
series (`recvTask_cont`). After the start and `j` of the continuation
messages, the pending connection holds these (`exec_notif_part`), and with
the last one it is completed (`exec_notif`).
-/

namespace GH.Proof.Rm

open GH.Impl GH.Impl.Rm GH.Spec.Rm

variable {env : RecvEnv} {s : Core} {a : Addr} {c : Connection} {start : List Byte} {conts : List (List Byte)}

/-- What a series leaves of a connection as it was. -/
structure Keeps (c c' : Connection) : Prop where
  seq : c'.seq = c.seq
  msgId : c'.msgId = c.msgId
  ret : c'.ret = c.ret
  seqDone : c'.seqDone = c.seqDone

theorem recvTask_of_dispatch {m : List Byte} {t : Core} (hl : HDR_SIZE < m.length)
    (h : ghRmRecvDispatch env s m = .ok t) : ghRmRecvTask env s m = complete env t := by
  rw [ghRmRecvTask, if_neg (Nat.not_le.mpr hl), h]
  rfl

theorem abortPending_null (hp : s.pending = .null) : abortPending s = .ok s := by
  rw [abortPending, if_pos hp]

theorem dispatch_rply {m : List Byte} (ht : (rpcHdr m).type = GH_RM_RPC_TYPE_RPLY) (hp : s.pending = .null) :
    ghRmRecvDispatch env s m = assign (ghRmProcessRply env s m) := by
  rw [ghRmRecvDispatch]
  simp only [ht]
  rw [if_neg (by decide), if_pos trivial, abortPending_null hp]
  rfl

theorem dispatch_notif {m : List Byte} (ht : (rpcHdr m).type = GH_RM_RPC_TYPE_NOTIF) (hp : s.pending = .null) :
    ghRmRecvDispatch env s m = assign (ghRmProcessNotif env s m) := by
  rw [ghRmRecvDispatch]
  simp only [ht]
  rw [if_pos trivial, abortPending_null hp]
  rfl

theorem dispatch_cont {m : List Byte} (ht : (rpcHdr m).type = GH_RM_RPC_TYPE_CONT) (hp : s.pending = .obj a) :
    ghRmRecvDispatch env s m = ghRmProcessCont s (.obj a) m >>= fun r => .ok r.2 := by
  rw [ghRmRecvDispatch]
  simp only [ht, hp]
  rw [if_neg (by decide), if_neg (by decide), if_pos trivial, if_neg (by simp)]

variable (env) in
/-- A continuation message of the pending series. -/
theorem recvTask_cont {m : List Byte} (hp : s.pending = .obj a) (hc : s.heap a = some c)
    (has : Assembles c start conts) (hne : startPayload start ≠ []) (hlt : conts.length < c.numFragments)
    (hm : IsCont start m) :
    ∃ c', Assembles c' start (conts ++ [m]) ∧ Keeps c c' ∧ c'.rmError = c.rmError ∧
      ghRmRecvTask env s m = complete env ({ s with appended := s.appended ++ [(c, m)] }.set a c') := by
  obtain ⟨hty, hfr, hlong, hlen⟩ := hm
  have hroom := has.room hne (n := 1) hlt
  obtain ⟨buf, hbuf, hbl, -⟩ := has.payload hne
  have hcopy : ∃ b, (c.payload.bind fun buf => memcpy buf c.size (m.drop HDR_SIZE)) = some b := by
    rw [hbuf, Option.bind_some, memcpy, if_pos]
    · exact ⟨_, rfl⟩
    · rw [List.length_drop]
      simp only [HDR_SIZE, GH_RM_MAX_MSG_SIZE_BYTES, GH_MSGQ_MAX_MSG_SIZE_BYTES] at *
      omega
  obtain ⟨b, hb⟩ := hcopy
  have hrecv : c.fragmentsReceived ≠ c.numFragments := by
    rw [has.received]
    exact Nat.ne_of_lt hlt
  have hnum : c.numFragments = (rpcHdr m).fragments.toNat := by rw [has.num, hfr]
  refine ⟨_, has.append hrecv hlen hb, ⟨rfl, rfl, rfl, rfl⟩, rfl, recvTask_of_dispatch hlong ?_⟩
  rw [dispatch_cont hty hp, processCont_ok hc hnum hb]
  rfl

/-- A continuation message when no series is pending is ignored. -/
theorem recvTask_cont_null {m : List Byte} (hp : s.pending = .null)
    (ht : (rpcHdr m).type = GH_RM_RPC_TYPE_CONT) : ghRmRecvTask env s m = .ok s := by
  by_cases hl : HDR_SIZE < m.length
  · refine (recvTask_of_dispatch hl ?_).trans (complete_null hp)
    rw [ghRmRecvDispatch]
    simp only [ht, hp]
    rw [if_neg (by decide), if_neg (by decide), if_pos trivial, if_pos trivial]
  · exact recvTask_short (Nat.le_of_not_lt hl)

variable (env) in
/-- The start of a reply to a live connection sets it up, or stops the task. -/
theorem recvTask_reply {conts : List (List Byte)} (hw : WellFormed start conts)
    (ht : (rpcHdr start).type = GH_RM_RPC_TYPE_RPLY) (hp : s.pending = .null)
    (hq : s.idr (rpcHdr start).seq = some a) (hc : s.heap a = some c) (hs : c.seq = (rpcHdr start).seq)
    (hm : c.msgId = (rpcHdr start).msgId) :
    ∃ c', Keeps c c' ∧
      ((∃ e t, ghRmRecvTask env s start = .error (e, t) ∧ t.calls = s.calls ∧ t.idr = s.idr ∧
        (t.heap = s.heap ∨ t.heap = Function.update s.heap a (some c'))) ∨
      (Assembles c' start [] ∧ c'.rmError = errCode start ∧
        (startPayload start = [] → c'.payload = c.payload ∧ c'.size = c.size) ∧
        ghRmRecvTask env s start = complete env { s.set a c' with pending := .obj a })) := by
  have hdisp : ∀ {p t}, ghRmProcessRply env s start = .ok (p, t) →
      ghRmRecvTask env s start = complete env { t with pending := p } := fun h =>
    recvTask_of_dispatch hw.long (by rw [dispatch_rply ht hp, h]; rfl)
  cases hsig : env.signal with
  | true =>
    have htask := hdisp (by rw [ghRmProcessRply, if_pos hsig])
    exact ⟨c, ⟨rfl, rfl, rfl, rfl⟩, .inl ⟨_, _, htask, rfl, rfl, .inl rfl⟩⟩
  | false =>
    have hle : startHdr start ≤ start.length := hw.hdr
    have hinit : ghRmInitConnectionBuff env c start REPLY_HDR_SIZE (sizeSub start.length REPLY_HDR_SIZE) =
        if start.length = REPLY_HDR_SIZE then (0, started c start)
        else if env.payload then (0, filled c start REPLY_HDR_SIZE)
        else (-ENOMEM, { started c start with payload := none }) := by
      rw [startHdr_rply ht] at hle
      rw [sizeSub_eq hle, init_eq hle hw.len]
    have hmatch : ¬(c.seq ≠ (rpcHdr start).seq ∨ c.msgId ≠ (rpcHdr start).msgId) := by simp [hs, hm]
    have hrply := processRply_match hsig hq hc hmatch hinit
    have hstart : ∀ {c'}, ghRmInitConnectionBuff env c start REPLY_HDR_SIZE
        (sizeSub start.length REPLY_HDR_SIZE) = (0, c') → Assembles c' start [] := by
      intro c' hi
      rw [← startHdr_rply ht, sizeSub_eq hle] at hi
      exact .start hle hw.len (.inl ht) hm (fun _ => hs) hi (Int.le_refl 0)
    by_cases he : start.length = REPLY_HDR_SIZE
    · rw [if_pos he] at hrply hinit
      refine ⟨{ started c start with rmError := errCode start }, ⟨rfl, rfl, rfl, rfl⟩,
        .inr ⟨(hstart hinit).withError _, rfl, fun _ => ⟨rfl, rfl⟩, hdisp hrply⟩⟩
    · rw [if_neg he] at hrply hinit
      cases hpay : env.payload with
      | false =>
        rw [hpay] at hrply
        exact ⟨{ started c start with payload := none }, ⟨rfl, rfl, rfl, rfl⟩,
          .inl ⟨_, _, hdisp hrply, rfl, rfl, .inr rfl⟩⟩
      | true =>
        rw [hpay] at hrply hinit
        refine ⟨{ filled c start REPLY_HDR_SIZE with rmError := errCode start }, ⟨rfl, rfl, rfl, rfl⟩,
          .inr ⟨(hstart hinit).withError _, rfl, fun h0 => ?_, hdisp hrply⟩⟩
        have hlen := length_startPayload start
        rw [h0, List.length_nil, startHdr_rply ht] at hlen
        rw [startHdr_rply ht] at hle
        omega

/-- The connection of a notification, with its first payload. -/
abbrev notified (start : List Byte) : Connection := filled { msgId := (rpcHdr start).msgId } start HDR_SIZE

theorem notified_assembles (hw : WellFormed start conts) (ht : (rpcHdr start).type = GH_RM_RPC_TYPE_NOTIF) :
    Assembles (notified start) start [] := by
  have hi : ghRmInitConnectionBuff {} { msgId := (rpcHdr start).msgId } start (startHdr start)
      (start.length - startHdr start) = (0, notified start) := by
    rw [init_eq hw.hdr hw.len, startHdr_notif ht, if_neg (Nat.ne_of_gt hw.long), if_pos rfl]
  have hs : (rpcHdr start).type = GH_RM_RPC_TYPE_RPLY → (0 : BitVec 16) = (rpcHdr start).seq := by
    rw [ht]
    exact fun h => absurd h (by decide)
  exact .start hw.hdr hw.len (.inr ht) rfl hs hi (Int.le_refl 0)

/-- The start of a notification. -/
theorem recvTask_notif (hw : WellFormed start conts) (ht : (rpcHdr start).type = GH_RM_RPC_TYPE_NOTIF)
    (hp : s.pending = .null) :
    ghRmRecvTask env s start =
      if env.connection then
        if env.payload then
          complete env { s.set s.next (notified start) with next := s.next + 1, pending := .obj s.next }
        else .ok s
      else .error (.badPtr .initConnectionBuff (.err (-ENOMEM)), s) := by
  have hinit : ghRmInitConnectionBuff env { msgId := (rpcHdr start).msgId } start HDR_SIZE
      (start.length - HDR_SIZE) = _ := init_eq (Nat.le_of_lt hw.long) hw.len
  rw [if_neg (Nat.ne_of_gt hw.long)] at hinit
  cases hconn : env.connection with
  | false =>
    rw [ghRmRecvTask, if_neg (Nat.not_le.mpr hw.long), dispatch_notif ht hp, ghRmProcessNotif]
    simp only [hconn]
    rfl
  | true =>
    cases hpay : env.payload with
    | false =>
      rw [hpay] at hinit
      refine (recvTask_of_dispatch hw.long ?_).trans (complete_null hp)
      rw [dispatch_notif ht hp, ghRmProcessNotif]
      simp only [hconn, hinit, if_true]
      show Except.ok { s with pending := Ptr.null } = _
      rw [← hp]
    | true =>
      rw [hpay] at hinit
      refine recvTask_of_dispatch hw.long ?_
      rw [dispatch_notif ht hp, ghRmProcessNotif]
      simp only [hconn, hinit, if_true]
      rfl

/-- After a message of a series, with more to come, nothing is completed. -/
theorem complete_more {got rest : List (List Byte)} (hp : s.pending = .obj a) (hc : s.heap a = some c)
    (has : Assembles c start got) (hw : WellFormed start (got ++ rest)) (hr : rest ≠ []) :
    complete env s = .ok s := by
  have hnum := hw.num
  have hpos := List.length_pos_iff.mpr hr
  rw [List.length_append] at hnum
  exact complete_part hp hc (by rw [has.received, has.num]; omega)

/-- The last message of a reply completes the call. -/
theorem complete_last_reply (hp : s.pending = .obj a) (hc : s.heap a = some c)
    (has : Assembles c start conts) (hw : WellFormed start conts)
    (ht : (rpcHdr start).type = GH_RM_RPC_TYPE_RPLY) :
    complete env s = .ok { s.set a { c with seqDone := c.seqDone + 1 } with
      completed := s.completed ++ [c], pending := .null } :=
  complete_reply hp hc (by rw [has.received, has.num, hw.num]) (has.type.trans ht)

/-- The last message of a notification. -/
theorem complete_last_notif (hp : s.pending = .obj a) (hc : s.heap a = some c)
    (has : Assembles c start conts) (hw : WellFormed start conts)
    (ht : (rpcHdr start).type = GH_RM_RPC_TYPE_NOTIF) :
    ∃ t, complete env s = .ok t ∧ t.calls = s.calls ∧ t.pending = .null ∧ ∀ b, b ≠ a → t.heap b = s.heap b := by
  rw [complete_notif hp hc (by rw [has.received, has.num, hw.num]) (has.type.trans ht)]
  cases env.work
  · exact ⟨_, rfl, rfl, rfl, fun b hb => Function.update_of_ne hb ..⟩
  · exact ⟨_, rfl, rfl, rfl, fun b hb => rfl⟩

/-! ## A whole notification -/

/-- `recv` steps of messages for which every allocation succeeds. -/
abbrev recvAll (ms : List (List Byte)) : List Act := ms.map (.recv · {})

/-- The task has received the start of a notification and `conts`, and has
completed nothing. -/
structure Partway (s t : Core) (start : List Byte) (conts : List (List Byte)) : Prop where
  task : t.task = none
  pending : t.pending = .obj s.next
  holds : ∃ c, t.heap s.next = some c ∧ Assembles c start conts
  works : t.works = s.works
  completed : t.completed = s.completed

/-- The task has received a whole notification and completed its connection. -/
structure Done (s t : Core) (start : List Byte) (conts : List (List Byte)) : Prop where
  task : t.task = none
  pending : t.pending = .null
  holds : ∃ c, t.heap s.next = some c ∧ Assembles c start conts ∧ t.completed = s.completed ++ [c]
  works : t.works = s.works ++ [s.next]

theorem recv_step {m : List Byte} {t : Core} (ht : s.task = none) (hl : m.length ≤ GH_MSGQ_MAX_MSG_SIZE_BYTES)
    (h : ghRmRecvTask env s m = .ok t) : step s (.recv m env) = some t := by
  simp only [step, ht, hl, h, and_self, if_true]

/-- Completing what was received goes on to the next message, or finishes. -/
theorem Partway.complete {t : Core} (h : Partway s t start conts)
    (ht : (rpcHdr start).type = GH_RM_RPC_TYPE_NOTIF) :
    ∃ u, complete {} t = .ok u ∧
      if conts.length = (rpcHdr start).fragments.toNat then Done s u start conts
      else Partway s u start conts := by
  obtain ⟨c, hc, has⟩ := h.holds
  have hnum := has.num
  have hrec := has.received
  by_cases he : conts.length = (rpcHdr start).fragments.toNat
  · rw [complete_notif h.pending hc (by omega) (has.type.trans ht), if_pos rfl]
    refine ⟨_, rfl, ?_⟩
    rw [if_pos he]
    exact ⟨h.task, rfl, ⟨c, hc, has, by rw [h.completed]⟩, by rw [h.works]⟩
  · rw [complete_part h.pending hc (by omega)]
    refine ⟨_, rfl, ?_⟩
    rw [if_neg he]
    exact h

theorem recv_start (hw : WellFormed start conts) (ht : (rpcHdr start).type = GH_RM_RPC_TYPE_NOTIF)
    (htask : s.task = none) (hp : s.pending = .null) :
    ∃ u, step s (.recv start {}) = some u ∧
      if conts.length = 0 then Done s u start [] else Partway s u start [] := by
  have hpart : Partway s { s.set s.next (notified start) with next := s.next + 1, pending := .obj s.next }
      start [] :=
    ⟨htask, rfl, ⟨_, Function.update_self .., notified_assembles hw ht⟩, rfl, rfl⟩
  obtain ⟨u, hu, hout⟩ := hpart.complete ht
  refine ⟨u, recv_step htask hw.len ?_, ?_⟩
  · rw [recvTask_notif hw ht hp, if_pos rfl, if_pos rfl]
    exact hu
  · rw [hw.num, List.length_nil] at hout
    simpa only [eq_comm] using hout

theorem Partway.cont {t : Core} {m : List Byte} (h : Partway s t start conts)
    (ht : (rpcHdr start).type = GH_RM_RPC_TYPE_NOTIF) (hne : startPayload start ≠ [])
    (hlt : conts.length < (rpcHdr start).fragments.toNat) (hm : IsCont start m) :
    ∃ u, step t (.recv m {}) = some u ∧
      if conts.length + 1 = (rpcHdr start).fragments.toNat then Done s u start (conts ++ [m])
      else Partway s u start (conts ++ [m]) := by
  obtain ⟨c, hc, has⟩ := h.holds
  obtain ⟨c', has', -, -, htask⟩ := recvTask_cont {} h.pending hc has hne (by rw [has.num]; exact hlt) hm
  have hpart : Partway s ({ t with appended := t.appended ++ [(c, m)] }.set s.next c') start (conts ++ [m]) :=
    ⟨h.task, h.pending, ⟨c', Function.update_self .., has'⟩, h.works, h.completed⟩
  obtain ⟨u, hu, hout⟩ := hpart.complete ht
  rw [List.length_append, List.length_singleton] at hout
  exact ⟨u, recv_step h.task hm.2.2.2 (htask.trans hu), hout⟩

/-- With `j` continuation messages, but not all, nothing is completed yet. -/
theorem exec_notif_part (hw : WellFormed start conts) (ht : (rpcHdr start).type = GH_RM_RPC_TYPE_NOTIF)
    (htask : s.task = none) (hp : s.pending = .null) {j : Nat} (hj : j < conts.length) :
    ∃ t, exec step s (recvAll (start :: conts.take j)) = some t ∧ Partway s t start (conts.take j) := by
  induction j with
  | zero =>
    obtain ⟨u, hu, hout⟩ := recv_start hw ht htask hp
    rw [if_neg (by omega)] at hout
    exact ⟨u, exec_cons_some.mpr ⟨u, hu, rfl⟩, hout⟩
  | succ j ih =>
    obtain ⟨t, he, hpart⟩ := ih (by omega)
    have hlen : (conts.take j).length = j := List.length_take_of_le (by omega)
    have hne : startPayload start ≠ [] := hw.first (List.length_pos_iff.mp (by omega))
    obtain ⟨u, hu, hout⟩ := hpart.cont ht hne (by rw [hw.num]; omega) (hw.cont conts[j] (List.getElem_mem _))
    rw [if_neg (by rw [hw.num]; omega), List.take_append_getElem] at hout
    refine ⟨u, ?_, hout⟩
    rw [← List.take_append_getElem (by omega), ← List.cons_append, recvAll, List.map_append]
    exact exec_append_some.mpr ⟨t, he, exec_cons_some.mpr ⟨u, hu, rfl⟩⟩

/-- A whole notification. -/
theorem exec_notif (hw : WellFormed start conts) (ht : (rpcHdr start).type = GH_RM_RPC_TYPE_NOTIF)
    (htask : s.task = none) (hp : s.pending = .null) :
    ∃ t, exec step s (recvAll (start :: conts)) = some t ∧ Done s t start conts := by
  rcases List.eq_nil_or_concat conts with rfl | ⟨cs, m, rfl⟩
  · obtain ⟨u, hu, hout⟩ := recv_start hw ht htask hp
    exact ⟨u, exec_cons_some.mpr ⟨u, hu, rfl⟩, hout⟩
  · rw [List.concat_eq_append] at *
    obtain ⟨t, he, hpart⟩ := exec_notif_part hw ht htask hp (j := cs.length) (by simp)
    rw [List.take_left] at he hpart
    have hnum := hw.num
    rw [List.length_append, List.length_singleton] at hnum
    obtain ⟨u, hu, hout⟩ := hpart.cont ht (hw.first (by simp)) (by omega) (hw.cont m (by simp))
    rw [if_pos hnum.symm] at hout
    refine ⟨u, ?_, hout⟩
    rw [← List.cons_append, recvAll, List.map_append]
    exact exec_append_some.mpr ⟨t, he, exec_cons_some.mpr ⟨u, hu, rfl⟩⟩

end GH.Proof.Rm
