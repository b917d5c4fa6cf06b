import Gunyah.Proof.Rm.Assembly
import Gunyah.Proof.Rm.Tx
import Gunyah.Spec.Rm.Iface

/-!
# What the requests report

Every call that returns in a run of the machine ends in one of the outcomes of
`Outcome` (`returned_outcome`). The functions that make a call check its result
in three ways, each of which takes some failures for success: one lemma for
each (`uncheckedReply_truthful`, `noPayloadReply_truthful`,
`memReply_truthful`), and `rm_functions_truthful_iff` for the eight functions.
-/

namespace GH.Proof.Rm

open GH.Impl GH.Impl.Rm GH.Spec.Rm

/-! ## The outcomes of a call -/

theorem run_map {α β : Type} (g : α → β) (f : RmCall α) (r : CallRet) : (f.map g).run r = g (f.run r) := by
  cases f with
  | ret a => rfl
  | call args cont => rfl

/-- What a call that has returned, or is waiting, can give. -/
structure OutcomeInv (s : Core) : Prop where
  ret : ∀ a c, s.heap a = some c → c.ret = 0 ∨ c.ret = -EIO_ERR
  returned : ∀ k r, s.calls k = .returned r → ∃ x : Outcome, r = x.callRet

theorem OutcomeInv.init : OutcomeInv Core.init := ⟨by simp [Core.init], by simp [Core.init]⟩

theorem callRet_outcome {c : Connection} (h : c.ret = 0 ∨ c.ret = -EIO_ERR) :
    ∃ x : Outcome, c.callRet = x.callRet := by
  unfold Connection.callRet
  by_cases he : c.rmError = 0
  · rw [if_neg (not_not.mpr he), he]
    rcases h with h | h
    · rw [if_neg (not_not.mpr h)]
      exact ⟨.answered c.payload c.size, rfl⟩
    · rw [if_pos (by rw [h]; decide), h]
      exact ⟨.aborted, rfl⟩
  · rw [if_pos he]
    exact ⟨.refused c.rmError he, rfl⟩

theorem init_ret {env : RecvEnv} {c c' : Connection} {msg : List Byte} {h n : Nat} {ret : Int}
    (hi : ghRmInitConnectionBuff env c msg h n = (ret, c')) : c'.ret = c.ret := by
  unfold ghRmInitConnectionBuff at hi
  simp only at hi
  split at hi
  · cases hi
    rfl
  split at hi
  · cases hi
    rfl
  split at hi <;>
  · cases hi
    rfl

section Changes

variable {s : Core} (h : OutcomeInv s)
include h

theorem OutcomeInv.set {a : Addr} {c : Connection} (hc : c.ret = 0 ∨ c.ret = -EIO_ERR) (b : Addr)
    (d : Connection) (hd : Function.update s.heap a (some c) b = some d) : d.ret = 0 ∨ d.ret = -EIO_ERR := by
  rcases of_update hd with ⟨-, e⟩ | ⟨-, hd⟩
  · cases e
    exact hc
  · exact h.ret b d hd

theorem OutcomeInv.free {a : Addr} (b : Addr) (d : Connection)
    (hd : Function.update s.heap a none b = some d) : d.ret = 0 ∨ d.ret = -EIO_ERR := by
  rcases of_update hd with ⟨-, e⟩ | ⟨-, hd⟩
  · cases e
  · exact h.ret b d hd

theorem OutcomeInv.setCall {k : Nat} {x : CallState} (hx : ∀ r, x = .returned r → ∃ x : Outcome, r = x.callRet)
    (k' : Nat) (r : CallRet) (hr : Function.update s.calls k x k' = .returned r) :
    ∃ x : Outcome, r = x.callRet := by
  by_cases e : k' = k
  · subst e
    rw [Function.update_self] at hr
    exact hx r hr
  · rw [Function.update_of_ne e] at hr
    exact h.returned k' r hr

theorem OutcomeInv.micro {env : RecvEnv} {msg : List Byte} {t : Core} (hm : Micro env msg s t) : OutcomeInv t := by
  cases hm with
  | fault f => exact ⟨h.ret, h.returned⟩
  | abortReply hp hc ht => exact ⟨h.set (.inr rfl), h.returned⟩
  | abortOther hp hc ht => exact ⟨h.free, h.returned⟩
  | startNotif hp ht hi => exact ⟨h.set (.inl (init_ret hi)), h.returned⟩
  | startReply hp ht hq hc hs hm hi hr =>
    have hret := h.ret _ _ hc
    rw [← init_ret hi] at hret
    exact ⟨h.set hret, h.returned⟩
  | failReply hp ht hq hc hi hr =>
    have hret := h.ret _ _ hc
    rw [← init_ret hi] at hret
    exact ⟨h.set hret, h.returned⟩
  | dropReply e hp => exact ⟨h.ret, h.returned⟩
  | append hp hc hr hf hb =>
    have hret := h.ret _ _ hc
    exact ⟨h.set hret, h.returned⟩
  | badAppend hp hc hr hf => exact ⟨h.ret, h.returned⟩
  | completeReply hp hc hr ht =>
    have hret := h.ret _ _ hc
    exact ⟨h.set hret, h.returned⟩
  | completeNotif hp hc hr ht => exact ⟨h.ret, h.returned⟩
  | dropNotif hp hc ht => exact ⟨h.free, h.returned⟩
  | dropOther hp hc ht => exact ⟨h.ret, h.returned⟩

/-- The start of a call, which may return at once. -/
theorem OutcomeInv.call {t : Core} {k : Nat} {args : CallArgs} {env : CallEnv}
    (hs : ghRmCallStart s k args env = some t) : OutcomeInv t := by
  have refuse : ∀ e : Int, e < 0 → OutcomeInv (s.setCall k (.returned { ret := .error e })) :=
    fun e he => ⟨h.ret, h.setCall fun r hr => ⟨.early e he, by cases hr; rfl⟩⟩
  unfold ghRmCallStart at hs
  split at hs
  · cases hs
    exact refuse _ (by decide)
  split at hs
  · cases hs
    exact refuse _ (by decide)
  split at hs
  · cases hs
    exact refuse _ (by decide)
  split at hs
  · cases he : env.idr with
    | id q =>
      rw [he] at hs
      cases hs
      exact ⟨h.set (.inl rfl), h.setCall (by simp)⟩
    | err e =>
      rw [he] at hs
      cases hs
      exact ⟨h.set (.inl rfl), h.setCall (by simp)⟩
  · cases hs

theorem OutcomeInv.step {t : Core} {act : Act} (hs : s.task = none → Settled s) (hst : step s act = some t) :
    OutcomeInv t := by
  cases step_does hst with
  | refuse r hr hk =>
    simp only [Impl.Rm.step, hk] at hst
    exact h.call hst
  | alloc hr hk he hq => exact ⟨h.set (.inl rfl), h.setCall (by simp)⟩
  | noId hr hk he hq => exact ⟨h.set (.inl rfl), h.setCall (by simp)⟩
  | sendFail hk hr => exact ⟨h.free, h.setCall fun r e => ⟨.early _ hr, by cases e; rfl⟩⟩
  | sendOk hk hr => exact ⟨h.ret, h.setCall (by simp)⟩
  | finish hk hc hd =>
    obtain ⟨x, hx⟩ := callRet_outcome (h.ret _ _ hc)
    exact ⟨h.free, h.setCall fun r e => ⟨x, by cases e; exact hx⟩⟩
  | recv ht hl =>
    exact Turn.inv (fun _ _ h hm => OutcomeInv.micro h hm) (recvTask_turn (hs ht)) h
  | work ha => exact ⟨h.free, h.returned⟩

end Changes

/-- In every run, each call that has returned has ended in one of the outcomes. -/
theorem returned_outcome {as : List Act} {s : Core} {k : Nat} {r : CallRet} (h : exec step Core.init as = some s)
    (hr : s.calls k = .returned r) : ∃ x : Outcome, r = x.callRet := by
  have hinv := inv_exec (I := fun s => Inv (fun _ => True) s ∧ OutcomeInv s)
    (fun s act t hs ht => ⟨inv_step_any s act t hs.1 ht, hs.2.step hs.1.settled ht⟩) ⟨.init, .init⟩ h
  exact hinv.2.returned k r hr

/-! ## What the functions report -/

theorem toInt_ne_zero {e : BitVec 32} (h : e ≠ 0) : e.toInt ≠ 0 := by
  intro he
  exact h (BitVec.eq_of_toInt_eq he)

/-- Where the RM has answered, there is nothing to report. -/
theorem truthful_answered (ret : CallRet → Int) (p : Option (List Byte)) (n : Nat) :
    Truthful ret (.answered p n) := fun _ => trivial

/-- Elsewhere, a function is truthful exactly when it does not return 0. -/
theorem truthful_iff_ne {ret : CallRet → Int} {x : Outcome} (hx : ¬ x.Answered) :
    Truthful ret x ↔ ret x.callRet ≠ 0 :=
  ⟨fun h h₀ => hx (h h₀), fun h h₀ => absurd h₀ h⟩

theorem truthful_ret (e : Int) (he : e ≠ 0) (x : Outcome) : Truthful (RmCall.ret e).run x :=
  fun h => absurd h he

variable (x : Outcome) (o : Out)

theorem uncheckedReply_truthful (n : Nat) :
    Truthful (uncheckedReply n) x ↔ ¬(x.NoAnswer ∧ n = 0) := by
  have hsize : (if n ≠ 0 then -EINVAL else 0) ≠ 0 ↔ n ≠ 0 := by
    by_cases hn : n = 0
    · simp [hn]
    · simp [hn, EINVAL]
  cases x with
  | early e he =>
    rw [truthful_iff_ne id, Outcome.NoAnswer, true_and]
    exact hsize
  | aborted =>
    rw [truthful_iff_ne id, Outcome.NoAnswer, true_and]
    exact hsize
  | refused e he =>
    rw [truthful_iff_ne id]
    have hret : uncheckedReply n (Outcome.refused e he).callRet = e.toInt := if_pos he
    rw [hret]
    exact iff_of_true (toInt_ne_zero he) (by simp [Outcome.NoAnswer])
  | answered p n => exact iff_of_true (truthful_answered _ p n) (by simp [Outcome.NoAnswer])

/-- The two functions that check `reply_err_code` and `IS_ERR` return
`reply_err_code`, whatever they found. -/
theorem noPayloadReply_truthful :
    Truthful (fun r => errno (noPayloadReply o r)) x ↔ ¬ x.LeavesZero o.replyErrCode := by
  have hcode : ∀ e : BitVec 32, e.toInt ≠ 0 ↔ e ≠ 0 := fun e =>
    ⟨fun h he => h (by rw [he]; rfl), toInt_ne_zero⟩
  cases x with
  | early e he =>
    rw [truthful_iff_ne id]
    simp only [noPayloadReply, CallRet.out, CallRet.isErr, Outcome.callRet, Option.getD_none, or_true, ite_true,
      errno]
    exact hcode _
  | aborted =>
    rw [truthful_iff_ne id]
    simp [noPayloadReply, CallRet.out, CallRet.isErr, Outcome.callRet, errno, Outcome.LeavesZero]
  | refused e he =>
    rw [truthful_iff_ne id]
    refine iff_of_true ?_ id
    simp only [noPayloadReply, CallRet.out, CallRet.isErr, Outcome.callRet, Option.getD_some, or_true, ite_true,
      errno]
    exact toInt_ne_zero he
  | answered p n => exact iff_of_true (truthful_answered _ p n) id

/-- The memory calls look at `gh_ret` only. -/
theorem memReply_truthful : Truthful (memReply o) x ↔ ¬ x.LeavesZero o.replyErrCode := by
  cases x with
  | early e he =>
    rw [truthful_iff_ne id, Outcome.LeavesZero]
    by_cases h₀ : o.replyErrCode = 0
    · have hret : memReply o (Outcome.early e he).callRet = 0 := if_neg (not_not.mpr h₀)
      simp [hret, h₀]
    · have hret : memReply o (Outcome.early e he).callRet = e := if_pos h₀
      rw [hret]
      exact iff_of_true (Int.ne_of_lt he) h₀
  | aborted =>
    rw [truthful_iff_ne id]
    simp [memReply, CallRet.out, Outcome.callRet, Outcome.LeavesZero]
  | refused e he =>
    have hret : memReply o (Outcome.refused e he).callRet = ghRemapError e.toInt := if_pos he
    rw [truthful_iff_ne id, hret]
    exact iff_of_true (fun h => toInt_ne_zero he (ghRemapError_eq_zero h)) id
  | answered p n => exact iff_of_true (truthful_answered _ p n) id

theorem vmStop_truthful (vmid : VmId) (stopReason : BitVec 32) (flags : BitVec 8) :
    Truthful (ghRmVmStop vmid stopReason flags o).run x ↔
      ¬(stopReason < GH_VM_STOP_MAX ∧ x.LeavesZero o.replyErrCode) := by
  unfold ghRmVmStop
  by_cases h : stopReason < GH_VM_STOP_MAX
  · rw [if_neg (BitVec.not_le.mpr h)]
    simp only [h, true_and]
    exact noPayloadReply_truthful x o
  · rw [if_pos (BitVec.not_lt.mp h)]
    exact iff_of_true (truthful_ret _ (by decide) x) fun hn => h hn.1

theorem vmDealloc_truthful (t : VmTable) (vmid : VmId) :
    Truthful (fun r => ((ghRmVmDeallocVmid t vmid o).run r).2) x ↔ ¬ x.LeavesZero o.replyErrCode := by
  have hret : (fun r => ((ghRmVmDeallocVmid t vmid o).run r).2) = fun r => errno (noPayloadReply o r) := by
    funext r
    simp only [ghRmVmDeallocVmid, RmCall.run]
    cases noPayloadReply o r <;> rfl
  rw [hret]
  exact noPayloadReply_truthful x o

theorem memRelease_truthful (handle : BitVec 32) (flags : BitVec 8) :
    Truthful (ghRmMemRelease handle flags o).run x ↔
      ¬(flags &&& ~~~GH_RM_MEM_RELEASE_VALID_FLAGS = 0 ∧ x.LeavesZero o.replyErrCode) := by
  unfold ghRmMemRelease ghRmMemReleaseHelper
  by_cases h : flags &&& ~~~GH_RM_MEM_RELEASE_VALID_FLAGS = 0
  · rw [if_neg fun hn => hn.2 h, if_neg fun hn => absurd hn.1 (by decide)]
    simp only [h, true_and]
    exact memReply_truthful x o
  · rw [if_pos ⟨rfl, h⟩]
    exact iff_of_true (truthful_ret _ (by decide) x) fun hn => h hn.1

theorem memReclaim_truthful (handle : BitVec 32) (flags : BitVec 8) :
    Truthful (ghRmMemReclaim handle flags o).run x ↔
      ¬(flags &&& ~~~GH_RM_MEM_RECLAIM_VALID_FLAGS = 0 ∧ x.LeavesZero o.replyErrCode) := by
  unfold ghRmMemReclaim ghRmMemReleaseHelper
  rw [if_neg fun hn => absurd hn.1 (by decide)]
  by_cases h : flags &&& ~~~GH_RM_MEM_RECLAIM_VALID_FLAGS = 0
  · rw [if_neg fun hn => hn.2 h]
    simp only [h, true_and]
    exact memReply_truthful x o
  · rw [if_pos ⟨rfl, h⟩]
    exact iff_of_true (truthful_ret _ (by decide) x) fun hn => h hn.1

/-- The request of `gh_rm_mem_notify` is sent. -/
def NotifySends (handle : BitVec 32) (flags : BitVec 8) (memInfoTag : BitVec 32)
    (vmidDesc : Option NotifyVmidDesc) (alloc : Bool) : Prop :=
  notifyInvalid flags vmidDesc = false ∧
    (kzalloc alloc (notifyReq handle flags memInfoTag vmidDesc).length).isSome

theorem memNotify_truthful (handle : BitVec 32) (flags : BitVec 8) (memInfoTag : BitVec 32)
    (vmidDesc : Option NotifyVmidDesc) (alloc : Bool) :
    Truthful (ghRmMemNotify handle flags memInfoTag vmidDesc alloc o).run x ↔
      ¬(NotifySends handle flags memInfoTag vmidDesc alloc ∧ x.LeavesZero o.replyErrCode) := by
  unfold ghRmMemNotify NotifySends
  cases hi : notifyInvalid flags vmidDesc with
  | true =>
    rw [if_pos rfl]
    exact iff_of_true (truthful_ret _ (by decide) x) (by simp)
  | false =>
    rw [if_neg Bool.false_ne_true]
    cases hk : kzalloc alloc (notifyReq handle flags memInfoTag vmidDesc).length with
    | none =>
      simp only [hk]
      exact iff_of_true (truthful_ret _ (by decide) x) (by simp)
    | some b =>
      simp only [hk, Option.isSome_some, true_and]
      exact memReply_truthful x o

/-- When the functions return 0 only for a request the RM has answered with
error code 0, for every outcome of the call and every value their out
variables had. -/
theorem rm_functions_truthful_iff :
    (∀ vmid, Truthful (ghRmVmStart vmid o.respPayloadSize).run x ↔
      ¬(x.NoAnswer ∧ o.respPayloadSize = 0)) ∧
    (∀ vmid stopReason flags, Truthful (ghRmVmStop vmid stopReason flags o).run x ↔
      ¬(stopReason < GH_VM_STOP_MAX ∧ x.LeavesZero o.replyErrCode)) ∧
    (∀ vmid, Truthful (ghRmVmReset vmid o).run x ↔ ¬ x.LeavesZero o.replyErrCode) ∧
    (∀ t vmid, Truthful (fun r => ((ghRmVmDeallocVmid t vmid o).run r).2) x ↔
      ¬ x.LeavesZero o.replyErrCode) ∧
    (∀ handle flags, Truthful (ghRmMemRelease handle flags o).run x ↔
      ¬(flags &&& ~~~GH_RM_MEM_RELEASE_VALID_FLAGS = 0 ∧ x.LeavesZero o.replyErrCode)) ∧
    (∀ handle flags, Truthful (ghRmMemReclaim handle flags o).run x ↔
      ¬(flags &&& ~~~GH_RM_MEM_RECLAIM_VALID_FLAGS = 0 ∧ x.LeavesZero o.replyErrCode)) ∧
    (∀ handle flags tag desc alloc, Truthful (ghRmMemNotify handle flags tag desc alloc o).run x ↔
      ¬(NotifySends handle flags tag desc alloc ∧ x.LeavesZero o.replyErrCode)) ∧
    (∀ vmid ts qtime, Truthful (ghRmVmSetTimeBase vmid ts qtime o.respPayloadSize).run x ↔
      ¬(x.NoAnswer ∧ o.respPayloadSize = 0)) :=
  ⟨fun _ => uncheckedReply_truthful x _, vmStop_truthful x o, fun _ => noPayloadReply_truthful x o,
    vmDealloc_truthful x o, memRelease_truthful x o, memReclaim_truthful x o, memNotify_truthful x o,
    fun _ _ _ => uncheckedReply_truthful x _⟩

/-- A `VM_START` whose send fails returns 0, if `resp_payload_size` was 0. -/
theorem vmStart_reports_failed_send :
    ¬ Truthful (ghRmVmStart 45 0).run (.early (-EAGAIN) (by decide)) := fun h => h rfl

end GH.Proof.Rm
