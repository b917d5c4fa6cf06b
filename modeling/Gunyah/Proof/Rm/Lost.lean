import Gunyah.Proof.Rm.Assembly
import Gunyah.Spec.Rm.Lost
import Gunyah.Spec.Rm.Series

/-!
# The receive task without some connections

A connection that the receive task is not led to, by its pending pointer or by the sequence number of a
reply, might as well not be there. Each function of the task does the same without it, so a turn does
(`recvTask_without`). The updates of a turn lead the task to no further connection of a call (`spares_micro`),
so it does the same however many messages it gets (`run_without`, `received_without`): what becomes of the
replies to some calls does not depend on the others, nor on how far any call has got.
-/

namespace GH.Proof.Rm

open GH.Impl GH.Impl.Rm GH.Spec.Rm

/-- What a function gives there. -/
def resWithout {α β : Type} (lost : Addr → Bool) (calls : Nat → CallState) (f : α → β) : Res α → Res β
  | .ok x => .ok (f x)
  | .error (e, t) => .error (e, without lost calls t)

variable {lost : Addr → Bool} {calls : Nat → CallState} {s : Core} {a : Addr} {p : Ptr} {env : RecvEnv} {msg : List Byte}
  {msgs : List (List Byte)}

theorem without_set {c : Connection} (ha : lost a = false) :
    (without lost calls s).set a c = without lost calls (s.set a c) := by
  simp only [without, Core.set, Core.mk.injEq, and_true]
  funext x
  by_cases e : x = a
  · subst e
    simp [ha]
  · simp [Function.update_of_ne e]

theorem without_free : (without lost calls s).free a = without lost calls (s.free a) := by
  simp only [without, Core.free, Core.mk.injEq, and_true]
  funext x
  by_cases e : x = a
  · subst e
    simp
  · simp [Function.update_of_ne e]

theorem without_heap {c : Connection} (hc : s.heap a = some c) (ha : lost a = false) :
    (without lost calls s).heap a = some c := by
  simp [without, ha, hc]

theorem without_heap_none (hc : s.heap a = none) : (without lost calls s).heap a = none := by
  simp [without, hc]

theorem resWithout_bind {α β α' β' : Type} {x : Res α} {k : α → Res β} {k' : α' → Res β'} {g : α → α'} {f : β → β'}
    (h : ∀ y, x = .ok y → k' (g y) = resWithout lost calls f (k y)) :
    resWithout lost calls g x >>= k' = resWithout lost calls f (x >>= k) := by
  cases x with
  | error e => rfl
  | ok y => exact h y rfl

/-! ## The functions -/

theorem without_abortPending (hp : Remains lost s.pending) :
    abortPending (without lost calls s) = resWithout lost calls (without lost calls) (abortPending s) := by
  have hpend : (without lost calls s).pending = s.pending := rfl
  unfold abortPending
  rw [hpend]
  cases h : s.pending with
  | null => rfl
  | err e => rfl
  | obj a =>
    have ha := hp a h
    rw [if_neg nofun, if_neg nofun]
    cases hc : s.heap a with
    | none =>
      rw [ghRmAbortConnection, ghRmAbortConnection, deref_freed hc, deref_freed (without_heap_none hc)]
      rfl
    | some c =>
      by_cases ht : c.type = GH_RM_RPC_TYPE_RPLY
      · rw [abort_reply hc ht, abort_reply (without_heap hc ha) ht, without_set ha]
        rfl
      · rw [abort_other hc ht, abort_other (without_heap hc ha) ht, without_free]
        rfl

theorem without_processNotif (hn : lost s.next = false) :
    ghRmProcessNotif env (without lost calls s) msg =
      resWithout lost calls (fun r => (r.1, without lost calls r.2)) (ghRmProcessNotif env s msg) := by
  unfold ghRmProcessNotif
  cases env.connection with
  | false => rfl
  | true =>
    rw [if_pos rfl, if_pos rfl]
    split
    · rw [show (without lost calls s).next = s.next from rfl, without_set hn]
      rfl
    · rfl

theorem without_processRply (hi : ∀ a, s.idr (rpcHdr msg).seq = some a → lost a = false) :
    ghRmProcessRply env (without lost calls s) msg =
      resWithout lost calls (fun r => (r.1, without lost calls r.2)) (ghRmProcessRply env s msg) := by
  have hidr : (without lost calls s).idr = s.idr := rfl
  cases hsig : env.signal with
  | true => simp only [ghRmProcessRply, hsig, if_pos]; rfl
  | false =>
    cases hq : s.idr (rpcHdr msg).seq with
    | none =>
      simp only [ghRmProcessRply, hsig, hidr, hq, Bool.false_eq_true, ite_false]
      rfl
    | some a =>
      have ha := hi a hq
      cases hc : s.heap a with
      | none =>
        simp only [ghRmProcessRply, hsig, hidr, hq, deref_freed hc, deref_freed (without_heap_none hc), Bool.false_eq_true,
          ite_false]
        rfl
      | some c =>
        have hc' := @without_heap lost calls _ _ _ hc ha
        have hq' : (without lost calls s).idr (rpcHdr msg).seq = some a := hq
        by_cases hm : c.seq ≠ (rpcHdr msg).seq ∨ c.msgId ≠ (rpcHdr msg).msgId
        · rw [processRply_mismatch hsig hq hc hm, processRply_mismatch hsig hq' hc' hm]
          rfl
        · rw [processRply_match hsig hq hc hm rfl, processRply_match hsig hq' hc' hm rfl]
          split
          · rw [without_set ha]
            rfl
          · rw [without_set ha]
            rfl

theorem without_processCont (hp : Remains lost s.pending) :
    ghRmProcessCont (without lost calls s) s.pending msg =
      resWithout lost calls (fun r => (r.1, without lost calls r.2)) (ghRmProcessCont s s.pending msg) := by
  cases h : s.pending with
  | null => rfl
  | err e => rfl
  | obj a =>
    have ha := hp a h
    cases hc : s.heap a with
    | none =>
      simp only [ghRmProcessCont, reduceCtorEq, ite_false, deref_freed hc, deref_freed (without_heap_none hc)]
      rfl
    | some c =>
      have hc' := @without_heap lost calls _ _ _ hc ha
      by_cases hf : c.numFragments = (rpcHdr msg).fragments.toNat
      · cases hb : c.payload.bind fun buf => memcpy buf c.size (msg.drop HDR_SIZE) with
        | none =>
          rw [processCont_bad hc hf hb, processCont_bad hc' hf hb]
          rfl
        | some buf =>
          rw [processCont_ok hc hf hb, processCont_ok hc' hf hb]
          refine congrArg (fun t => Except.ok ((0 : Int), t)) ?_
          exact without_set (s := { s with appended := s.appended ++ [(c, msg)] }) ha
      · rw [processCont_mismatch hc hf, processCont_mismatch hc' hf]
        rfl

theorem without_complete (hp : Remains lost s.pending) :
    complete env (without lost calls s) = resWithout lost calls (without lost calls) (complete env s) := by
  have hpend : (without lost calls s).pending = s.pending := rfl
  cases h : s.pending with
  | null => rw [complete_null h, complete_null (hpend.trans h)]; rfl
  | err e => rw [complete_err h, complete_err (hpend.trans h)]; rfl
  | obj a =>
    have ha := hp a h
    have h' := hpend.trans h
    cases hc : s.heap a with
    | none => rw [complete_freed h hc, complete_freed h' (without_heap_none hc)]; rfl
    | some c =>
      have hc' := @without_heap lost calls _ _ _ hc ha
      by_cases hr : c.fragmentsReceived = c.numFragments
      · by_cases ht : c.type = GH_RM_RPC_TYPE_RPLY
        · rw [complete_reply h hc hr ht, complete_reply h' hc' hr ht, without_set ha]
          rfl
        by_cases hn : c.type = GH_RM_RPC_TYPE_NOTIF
        · rw [complete_notif h hc hr hn, complete_notif h' hc' hr hn, without_free]
          cases env.work <;> rfl
        · rw [complete_other h hc hr ht hn, complete_other h' hc' hr ht hn]
          rfl
      · rw [complete_part h hc hr, complete_part h' hc' hr]
        rfl

/-! ## A turn -/

/-- An update of a turn does not lead the task to anything else. -/
theorem spares_micro {t : Core} (h : Spares lost msgs s) (hm : msg ∈ msgs) (hs : Micro env msg s t) :
    Spares lost msgs t := by
  have hnull : Remains lost .null := nofun
  have herr : ∀ e, Remains lost (.err e) := fun e => nofun
  cases hs with
  | fault | append | badAppend => exact ⟨h.pending, h.new, h.reply⟩
  | startNotif =>
    refine ⟨fun a ha => ?_, fun a ha => h.new a (Nat.le_of_succ_le ha), h.reply⟩
    cases ha
    exact h.new _ (Nat.le_refl _)
  | startReply _ ht hq =>
    refine ⟨fun a ha => ?_, h.new, h.reply⟩
    cases ha
    exact h.reply msg hm ht _ hq
  | failReply | dropReply => exact ⟨herr _, h.new, h.reply⟩
  | abortReply | abortOther | completeReply | completeNotif | dropNotif | dropOther => exact ⟨hnull, h.new, h.reply⟩

theorem spares_turn {t : Core} (h : Spares lost msgs s) (hm : msg ∈ msgs) (ht : Turn env msg s t) :
    Spares lost msgs t :=
  ht.inv (fun _ _ h hs => spares_micro h hm hs) h

theorem spares_turn_ok {x : Res Core} {t : Core} (h : Spares lost msgs s) (hm : msg ∈ msgs)
    (ht : Turn env msg s (outcome x)) (hx : x = .ok t) : Spares lost msgs t := by
  rw [hx] at ht
  exact spares_turn h hm ht

theorem without_dispatch (h : Spares lost msgs s) (hm : msg ∈ msgs) :
    ghRmRecvDispatch env (without lost calls s) msg =
      resWithout lost calls (without lost calls) (ghRmRecvDispatch env s msg) := by
  have hpend : (without lost calls s).pending = s.pending := rfl
  have habort : ∀ t, abortPending s = .ok t → Spares lost msgs t := fun t =>
    spares_turn_ok h hm (abortPending_turn env msg s).1
  unfold ghRmRecvDispatch
  simp only
  split
  · rw [without_abortPending h.pending]
    refine resWithout_bind fun t ht => ?_
    rw [without_processNotif ((habort t ht).new _ (Nat.le_refl _))]
    exact resWithout_bind fun r _ => rfl
  split
  · rename_i hty
    rw [without_abortPending h.pending]
    refine resWithout_bind fun t ht => ?_
    rw [without_processRply ((habort t ht).reply msg hm hty)]
    exact resWithout_bind fun r _ => rfl
  split
  · rw [hpend]
    split
    · rfl
    · rw [without_processCont h.pending]
      exact resWithout_bind fun r _ => rfl
  · rfl

/-- A turn is the same without what it is not led to. -/
theorem recvTask_without (hs : Settled s) (h : Spares lost msgs s) (hm : msg ∈ msgs) :
    ghRmRecvTask env (without lost calls s) msg =
      resWithout lost calls (without lost calls) (ghRmRecvTask env s msg) := by
  unfold ghRmRecvTask
  split
  · rfl
  · rw [without_dispatch h hm]
    exact resWithout_bind fun t ht => without_complete (spares_turn_ok h hm (dispatch_turn hs) ht).pending

/-! ## A run -/

theorem step_recv_without (hs : s.task = none → Settled s) (h : Spares lost msgs s) (hm : msg ∈ msgs) :
    step (without lost calls s) (.recv msg env) = (step s (.recv msg env)).map (without lost calls) := by
  have htask : (without lost calls s).task = s.task := rfl
  simp only [step, htask]
  split
  · rename_i ht
    rw [recvTask_without (hs ht.1) h hm]
    cases ghRmRecvTask env s msg <;> rfl
  · rfl

theorem spares_recv {t : Core} (hs : s.task = none → Settled s) (h : Spares lost msgs s) (hm : msg ∈ msgs)
    (ht : step s (.recv msg env) = some t) : Spares lost msgs t := by
  cases step_does ht with
  | recv hn hl => exact spares_turn h hm (recvTask_turn (hs hn))

theorem settled_recv {t : Core} (hs : s.task = none → Settled s) (ht : step s (.recv msg env) = some t) :
    t.task = none → Settled t := by
  cases step_does ht with
  | recv hn hl => exact outcome_settled (hs hn)

/-- So is a run of the task, on messages that do not lead to what is lost. -/
theorem run_without {ms : List (List Byte × RecvEnv)} (hs : s.task = none → Settled s) (h : Spares lost msgs s)
    (hm : ∀ m ∈ ms, m.1 ∈ msgs) :
    exec step (without lost calls s) (ms.map received) = (exec step s (ms.map received)).map (without lost calls) := by
  induction ms generalizing s with
  | nil => rfl
  | cons m ms ih =>
    have hfirst := hm m List.mem_cons_self
    rw [List.map_cons, exec, exec, received, step_recv_without hs h hfirst]
    cases ht : step s (.recv m.1 m.2) with
    | none => rfl
    | some t => exact ih (settled_recv hs ht) (spares_recv hs h hfirst ht) fun m' hm' => hm m' (List.mem_cons_of_mem _ hm')

/-- In every state that calls and messages lead to, the receive task does the same with messages without the connections
that they do not lead it to, and wherever the calls are, also where it ends in a fault. -/
theorem received_without (acts : List Act) (s : Core) (ms : List (List Byte × RecvEnv)) (lost : Addr → Bool)
    (calls : Nat → CallState) (hrun : exec step Core.init acts = some s) (h : Spares lost (ms.map Prod.fst) s) :
    exec step (without lost calls s) (ms.map received) = (exec step s (ms.map received)).map (without lost calls) := by
  have hinv : Inv (fun _ => True) s := inv_exec inv_step_any Inv.init hrun
  exact run_without hinv.settled h fun m hm => List.mem_map_of_mem hm

/-- Two calls, which have sent their requests. -/
def twoSent : List Act :=
  [.call 0 { messageId := 0x56000004, reqBuff := some [1] } { idr := .id 1 }, .send 0 0,
    .call 1 { messageId := 0x56000005, reqBuff := some [2] } { idr := .id 2 }, .send 1 0]

/-- The reply to the first call, in a message and a fragment. -/
def firstReply : List (List Byte × RecvEnv) :=
  [(message GH_RM_RPC_TYPE_RPLY 1 1 0x56000004 [0, 0, 0, 0, 7], {}), (message GH_RM_RPC_TYPE_CONT 1 1 0x56000004 [8], {})]

set_option maxRecDepth 4000 in
/-- The first call gets its reply also where the second is gone. -/
theorem received_without_second : ∃ s t, exec step Core.init twoSent = some s ∧
    exec step s (firstReply.map received) = some t ∧
    exec step (without (· = 1) (fun _ => .idle) s) (firstReply.map received) =
      some (without (· = 1) (fun _ => .idle) t) ∧
    (t.heap 0).map (fun c => (c.seqDone, c.size)) = some (1, 2) := by
  obtain ⟨s, hs⟩ : ∃ s, exec step Core.init twoSent = some s := ⟨_, rfl⟩
  have hspares : Spares (fun a => decide (a = 1)) (firstReply.map Prod.fst) s := by
    cases hs
    refine ⟨nofun, fun a ha => ?_, fun msg hmsg _ a ha => ?_⟩
    · have h2 : 2 ≤ a := ha
      exact decide_eq_false (Nat.ne_of_gt h2)
    · simp only [firstReply, List.map_cons, List.map_nil, List.mem_cons, List.not_mem_nil, or_false] at hmsg
      rcases hmsg with rfl | rfl <;> cases ha <;> rfl
  have hsame := received_without twoSent s firstReply (fun a => decide (a = 1)) (fun _ => .idle) hs hspares
  obtain ⟨t, ht⟩ : ∃ t, exec step s (firstReply.map received) = some t := by
    cases hs
    exact ⟨_, rfl⟩
  refine ⟨s, t, hs, ht, ?_, ?_⟩
  · rw [hsame, ht]
    rfl
  · cases hs
    cases ht
    rfl

end GH.Proof.Rm
