import Gunyah.Impl.Rm.Tx
import Gunyah.Framework.Run
import Gunyah.Framework.Blocks
import Gunyah.Proof.Rm.Fragments

/-!
# What the threads send

`TxDoes` says once what a step of the threads does. The threads in
`gh_rm_send_request` are writers that take turns (`Framework.Blocks`): the lock
is `gh_rm_send_lock`, the log what the queue has taken, and a thread has written
an item more as soon as the hypervisor has taken its message (`written`), before
the answer is stored. Each step of the threads is a step of the writers, or none
(`sim_step`); the writers' log then gives `txIntegrity`.
-/

namespace GH.Proof.Rm

open GH.Impl GH.Impl.Rm GH.Impl.Msgq

/-- The messages of a request, if all of them are sent. -/
def series (r : Request) : List Tx := (ghRmSendRequest {} (fun _ => 0) r).1

variable {r : Request}

theorem series_range (h : r.numFragments.toNat ≤ GH_RM_MAX_NUM_FRAGMENTS) :
    series r = (List.range (r.numFragments.toNat + 1)).map fun i => (loopAt r i).tx r := by
  rw [series, ghRmSendRequest, if_neg (by simp), if_neg (by omega), if_neg (by simp), if_neg (by simp),
    show SendLoop.init r = loopAt r 0 from rfl, sendFragments_ok]
  simp only [Nat.zero_add]

theorem length_series (h : r.numFragments.toNat ≤ GH_RM_MAX_NUM_FRAGMENTS) :
    (series r).length = r.numFragments.toNat + 1 := by
  rw [series_range h, List.length_map, List.length_range]

/-- The hypercall gets the flags of a message of the series as they are. -/
theorem hvc_tx (v : SendLoop) : (v.tx r).hvc = v.tx r := by
  have hflags : (v.tx r).flags &&& GH_MSGQ_HVC_FLAGS_MASK = (v.tx r).flags := by
    simp only [SendLoop.tx]
    split
    · decide
    · decide
  rw [Tx.hvc, hflags]

theorem getElem_series (h : r.numFragments.toNat ≤ GH_RM_MAX_NUM_FRAGMENTS) {i : Nat}
    (hi : i ≤ r.numFragments.toNat) : (series r)[i]? = some ((loopAt r i).tx r).hvc := by
  rw [series_range h, List.getElem?_map, List.getElem?_range (by omega), hvc_tx, Option.map_some]

/-! ## Answers -/

theorem ghRemapError_eq_zero {e : Int} (h : ghRemapError e = 0) : e = GH_ERROR_OK := by
  unfold ghRemapError at h
  split at h
  · assumption
  · repeat' split at h
    all_goals exact absurd h (by decide)

theorem ghRemapError_ne_eagain (e : Int) : ghRemapError e ≠ -EAGAIN := by
  unfold ghRemapError
  repeat' split
  all_goals decide

/-- The hypervisor has taken the message of the call of `gh_msgq_send`. -/
def taken : XferPc → Bool
  | .store r => r.ghRet = GH_ERROR_OK
  | .done ret => ret = 0
  | _ => false

/-- Before the hypercall nothing is taken: an early return is an error. -/
theorem taken_xfer {args : XferArgs} {e : CapTable} {signal : Bool} {pc pc' : XferPc}
    (h : ghMsgqSend args e signal pc = some pc') : taken pc = false ∧ taken pc' = false := by
  cases pc with
  | hcall => cases h
  | store r => cases h
  | done ret => cases h
  | _ =>
    refine ⟨rfl, ?_⟩
    simp only [ghMsgqSend, ghMsgqXfer] at h
    repeat' split at h
    all_goals first
      | cases h; rfl
      | cases h

/-- A message that was taken is not sent again, and one that was not taken is
not reported as sent. -/
theorem taken_store (e : CapTable) (r : Resp) : taken (ghMsgqXferStore .tx e r).2 = taken (.store r) := by
  simp only [ghMsgqXferStore, ghMsgqAnswer]
  split
  · rename_i hok
    simp [taken, hok, EAGAIN]
  split
  · rename_i hne hfull
    simp [taken, hne]
  · rename_i hne _
    have hz : ghRemapError r.ghRet ≠ 0 := fun h => hne (ghRemapError_eq_zero h)
    rw [if_neg (ghRemapError_ne_eagain _)]
    simp [taken, hne, hz]

/-! ## What a step does -/

variable {reqs : Nat → Request} {s t : TxState} {k : Nat} {pc : TxPc}

/-- What a step does: a thread goes on, which may take or release the lock, or the entry changes. -/
inductive TxDoes (reqs : Nat → Request) (s : TxState) : TxState → Prop
  /-- Every return before the lock is an error. -/
  | refuse {k : Nat} {ret : Int} (hk : s.threads k = .idle) (hret : ret ≠ 0) : TxDoes reqs s (s.setPc k (.ret ret))
  | wait {k : Nat} (hk : s.threads k = .idle) (hnum : (reqs k).numFragments.toNat ≤ GH_RM_MAX_NUM_FRAGMENTS) :
      TxDoes reqs s (s.setPc k .lock)
  | interrupted {k : Nat} (hk : s.threads k = .lock) : TxDoes reqs s (s.setPc k (.ret (-ERESTARTSYS)))
  | take {k : Nat} (hk : s.threads k = .lock) (hfree : s.sendLock = none) :
      TxDoes reqs s { s.setPc k (.turn (.init (reqs k))) with sendLock := some k }
  | call {k : Nat} {v : SendLoop} (hk : s.threads k = .turn v) (hi : v.i ≤ (reqs k).numFragments.toNat) :
      TxDoes reqs s (s.setPc k (.send v .enter))
  | finish {k : Nat} {v : SendLoop} (hk : s.threads k = .turn v) (hi : ¬ v.i ≤ (reqs k).numFragments.toNat) :
      TxDoes reqs s { s.setPc k (.ret 0) with sendLock := none }
  /-- `gh_msgq_send` goes on before its hypercall. -/
  | run {k : Nat} {v : SendLoop} {pc pc' : XferPc} (hk : s.threads k = .send v pc) (h : taken pc = false)
      (h' : taken pc' = false) : TxDoes reqs s (s.setPc k (.send v pc'))
  | hcall {k : Nat} {v : SendLoop} {r : Resp} (hk : s.threads k = .send v .hcall) :
      TxDoes reqs s { s.setPc k (.send v (.store r)) with
        txLock := some k
        accepted := if r.ghRet = GH_ERROR_OK then s.accepted ++ [(v.tx (reqs k)).hvc] else s.accepted }
  /-- The answer is stored, and tells what the hypervisor has taken. -/
  | store {k : Nat} {v : SendLoop} {r : Resp} {pc : XferPc} {e : CapTable} (hk : s.threads k = .send v (.store r))
      (h : taken pc = taken (.store r)) :
      TxDoes reqs s { s.setPc k (.send v pc) with entry := e, txLock := none }
  | giveUp {k : Nat} {v : SendLoop} {ret : Int} (hk : s.threads k = .send v (.done ret)) (hret : ret ≠ 0) :
      TxDoes reqs s { s.setPc k (.ret ret) with sendLock := none }
  | next {k : Nat} {v : SendLoop} (hk : s.threads k = .send v (.done 0)) : TxDoes reqs s (s.setPc k (.turn v.next))
  | other {e : CapTable} {desc : Option Addr} : TxDoes reqs s { s with entry := e, desc := desc }

theorem txStep_does {act : TxAct} (h : txStep reqs s act = some t) : TxDoes reqs s t := by
  cases act with
  | start k msg =>
    simp only [txStep] at h
    split at h
    · rename_i hk
      split at h
      · cases h
        exact .refuse hk (by decide)
      split at h
      · cases h
        exact .refuse hk (by decide)
      rename_i hnum
      split at h
      · cases h
        exact .refuse hk (by decide)
      · cases h
        exact .wait hk (Nat.le_of_not_gt hnum)
    · cases h
  | lock k signal =>
    simp only [txStep] at h
    split at h
    · rename_i hk
      split at h
      · cases h
        exact .interrupted hk
      split at h
      · rename_i hfree
        cases h
        exact .take hk hfree
      · cases h
    · cases h
  | turn k =>
    simp only [txStep] at h
    split at h
    · rename_i v hk
      split at h <;> rename_i hi <;> cases h
      · exact .call hk hi
      · exact .finish hk hi
    · cases h
  | run k signal =>
    simp only [txStep] at h
    split at h
    · rename_i v pc hk
      obtain ⟨pc', hpc, rfl⟩ := Option.map_eq_some_iff.mp h
      exact .run hk (taken_xfer hpc).1 (taken_xfer hpc).2
    · cases h
  | hcall k r =>
    simp only [txStep] at h
    split at h
    · rename_i v hk
      split at h <;> cases h
      exact .hcall hk
    · cases h
  | store k =>
    simp only [txStep] at h
    split at h
    · rename_i v r hk
      cases h
      exact .store hk (taken_store s.entry r)
    · cases h
  | sent k =>
    simp only [txStep] at h
    split at h
    · rename_i v ret hk
      split at h
      · rename_i hret
        cases h
        exact .giveUp hk hret
      · rename_i hret
        obtain rfl := not_not.mp hret
        cases h
        exact .next hk
    · cases h
  | txIsr =>
    simp only [txStep] at h
    split at h <;> cases h
    exact .other
  | other entry desc =>
    cases h
    exact .other

/-! ## The threads as writers -/

/-- How many messages a thread in the loop got through. -/
def written : TxPc → Nat
  | .turn v => v.i
  | .send v pc => if taken pc then v.i + 1 else v.i
  | _ => 0

/-- A thread is in the loop exactly if it holds `gh_rm_send_lock`, and its
variables are the ones of its turn. -/
def ThreadOk (r : Request) (holds : Prop) : TxPc → Prop
  | .idle => ¬ holds
  | .lock => ¬ holds ∧ r.numFragments.toNat ≤ GH_RM_MAX_NUM_FRAGMENTS
  | .turn v => holds ∧ r.numFragments.toNat ≤ GH_RM_MAX_NUM_FRAGMENTS ∧ v = loopAt r v.i ∧
    v.i ≤ r.numFragments.toNat + 1
  | .send v _ => holds ∧ r.numFragments.toNat ≤ GH_RM_MAX_NUM_FRAGMENTS ∧ v = loopAt r v.i ∧
    v.i ≤ r.numFragments.toNat
  | .ret _ => ¬ holds

variable {c c' : Blocks Nat Tx}

/-- The threads are where the writers are. -/
structure Sim (reqs : Nat → Request) (s : TxState) (c : Blocks Nat Tx) : Prop where
  log : c.log = s.accepted
  holder : c.holder = s.sendLock.map fun k => (k, written (s.threads k))
  thread : ∀ k, ThreadOk (reqs k) (s.sendLock = some k) (s.threads k)
  past : ∀ b ∈ c.past, ∃ ret, s.threads b.1 = .ret ret
  whole : ∀ k, s.threads k = .ret 0 → (k, (series (reqs k)).length) ∈ c.past

theorem Sim.init (entry : CapTable) (desc : Option Addr) : Sim reqs (.init entry desc) .init where
  log := rfl
  holder := rfl
  thread := fun _ h => by cases h
  past := fun _ hb => by cases hb
  whole := fun _ h => by cases h

theorem Sim.thread_at (h : Sim reqs s c) (hk : s.threads k = pc) : ThreadOk (reqs k) (s.sendLock = some k) pc :=
  hk ▸ h.thread k

/-- Nothing of a step is seen by the writers. -/
theorem Sim.frame (h : Sim reqs s c) (hthreads : t.threads = s.threads) (hlock : t.sendLock = s.sendLock)
    (hacc : t.accepted = s.accepted) : Sim reqs t c where
  log := by rw [hacc]; exact h.log
  holder := by rw [hthreads, hlock]; exact h.holder
  thread := by rw [hthreads, hlock]; exact h.thread
  past := by rw [hthreads]; exact h.past
  whole := by rw [hthreads]; exact h.whole

/-- Thread `k`, which had not returned, goes to `pc`. -/
structure Moves (s t : TxState) (k : Nat) (pc : TxPc) : Prop where
  threads : t.threads = Function.update s.threads k pc
  others : ∀ k', k' ≠ k → (t.sendLock = some k' ↔ s.sendLock = some k')
  running : ∀ ret, s.threads k ≠ .ret ret

theorem Sim.move (h : Sim reqs s c) (hm : Moves s t k pc) (hlog : c'.log = t.accepted)
    (hholder : c'.holder = t.sendLock.map fun k => (k, written (t.threads k)))
    (hthread : ThreadOk (reqs k) (t.sendLock = some k) pc) (hsub : c.past ⊆ c'.past)
    (hpast : ∀ b ∈ c'.past, b ∈ c.past ∨ b.1 = k ∧ ∃ ret, pc = .ret ret)
    (hwhole : pc = .ret 0 → (k, (series (reqs k)).length) ∈ c'.past) : Sim reqs t c' where
  log := hlog
  holder := hholder
  thread := fun k' => by
    rw [hm.threads]
    by_cases e : k' = k
    · subst e
      rw [Function.update_self]
      exact hthread
    · rw [Function.update_of_ne e, hm.others k' e]
      exact h.thread k'
  past := fun b hb => by
    rw [hm.threads]
    rcases hpast b hb with hb | ⟨rfl, ret, rfl⟩
    · obtain ⟨ret, hret⟩ := h.past b hb
      have e : b.1 ≠ k := by
        rintro rfl
        exact hm.running ret hret
      exact ⟨ret, by rw [Function.update_of_ne e, hret]⟩
    · exact ⟨ret, Function.update_self ..⟩
  whole := fun k' hk' => by
    rw [hm.threads] at hk'
    by_cases e : k' = k
    · subst e
      rw [Function.update_self] at hk'
      exact hwhole hk'
    · rw [Function.update_of_ne e] at hk'
      exact hsub (h.whole k' hk')

/-! ## Steps -/

/-- The writers of the threads' requests. -/
def Writes (reqs : Nat → Request) (c c' : Blocks Nat Tx) : Prop :=
  c' = c ∨ c.Step (fun k => series (reqs k)) c'

section

variable (h : Sim reqs s c)
include h

/-- A step that takes no message and no lock. -/
theorem Sim.quiet (hm : Moves s t k pc) (hlock : t.sendLock = s.sendLock) (hacc : t.accepted = s.accepted)
    (hw : written pc = written (s.threads k)) (hthread : ThreadOk (reqs k) (s.sendLock = some k) pc)
    (hret : pc ≠ .ret 0) : Sim reqs t c := by
  have hsame : ∀ k', written (t.threads k') = written (s.threads k') := by
    intro k'
    rw [hm.threads]
    by_cases e : k' = k
    · subst e
      rw [Function.update_self, hw]
    · rw [Function.update_of_ne e]
  refine h.move hm (by rw [hacc]; exact h.log) ?_ (by rw [hlock]; exact hthread) (List.Subset.refl _)
    (fun b hb => .inl hb) (fun e => absurd e hret)
  simp only [hlock, hsame]
  exact h.holder

theorem Sim.take (hm : Moves s t k (.turn (.init (reqs k)))) (hfree : s.sendLock = none)
    (hlock : t.sendLock = some k) (hacc : t.accepted = s.accepted)
    (hnum : (reqs k).numFragments.toNat ≤ GH_RM_MAX_NUM_FRAGMENTS) :
    ∃ c', Writes reqs c c' ∧ Sim reqs t c' := by
  have hholder : c.holder = none := by rw [h.holder, hfree, Option.map_none]
  have hnew : ∀ b ∈ c.past, b.1 ≠ k := by
    rintro b hb rfl
    obtain ⟨ret, hret⟩ := h.past b hb
    exact hm.running ret hret
  refine ⟨_, .inr (.take k hholder hnew), h.move hm (by rw [hacc]; exact h.log) ?_ ?_ (List.Subset.refl _)
    (fun b hb => .inl hb) (fun e => by cases e)⟩
  · rw [hlock, Option.map_some, hm.threads, Function.update_self]
    rfl
  · exact ⟨hlock, hnum, rfl, Nat.zero_le _⟩

/-- The hypervisor takes the message of thread `k`. -/
theorem Sim.write {v : SendLoop} {r : Resp} (hm : Moves s t k (.send v (.store r)))
    (hk : s.threads k = .send v .hcall) (hok : r.ghRet = GH_ERROR_OK) (hlock : t.sendLock = s.sendLock)
    (hacc : t.accepted = s.accepted ++ [(v.tx (reqs k)).hvc]) : ∃ c', Writes reqs c c' ∧ Sim reqs t c' := by
  obtain ⟨hheld, hnum, hv, hi⟩ := h.thread_at hk
  have hholder : c.holder = some (k, v.i) := by
    rw [h.holder, hheld, Option.map_some, hk]
    rfl
  have hx : (series (reqs k))[v.i]? = some (v.tx (reqs k)).hvc := by rw [getElem_series hnum hi, ← hv]
  have hw : written (.send v (.store r)) = v.i + 1 := by
    rw [written, if_pos]
    simp only [taken, hok, decide_true]
  refine ⟨_, .inr (.write k v.i _ hholder hx), h.move hm ?_ ?_ ?_ (List.Subset.refl _)
    (fun b hb => .inl hb) (fun e => by cases e)⟩
  · rw [hacc, ← h.log]
  · rw [hlock, hheld, Option.map_some, hm.threads, Function.update_self, hw]
  · rw [hlock]
    exact ⟨hheld, hnum, hv, hi⟩

/-- Thread `k` leaves the loop. -/
theorem Sim.release {ret : Int} (hm : Moves s t k (.ret ret)) (hheld : s.sendLock = some k)
    (hfree : t.sendLock = none) (hacc : t.accepted = s.accepted)
    (hw : ret = 0 → written (s.threads k) = (series (reqs k)).length) : ∃ c', Writes reqs c c' ∧ Sim reqs t c' := by
  have hholder : c.holder = some (k, written (s.threads k)) := by rw [h.holder, hheld, Option.map_some]
  refine ⟨_, .inr (.release k _ hholder), h.move hm (by rw [hacc]; exact h.log) ?_ ?_
    (List.subset_append_left ..) (fun b hb => ?_) (fun e => ?_)⟩
  · rw [hfree, Option.map_none]
  · rw [hfree]
    exact fun e => by cases e
  · rcases List.mem_append.mp hb with hb | hb
    · exact .inl hb
    · rw [List.mem_singleton.mp hb]
      exact .inr ⟨rfl, ret, rfl⟩
  · cases e
    rw [← hw rfl]
    exact List.mem_append_right _ (List.mem_singleton_self _)

end

/-- Thread `k` moves and the lock stays where it is. -/
theorem Moves.of_setPc (hthreads : t.threads = (s.setPc k pc).threads) (hlock : t.sendLock = s.sendLock)
    (hrun : ∀ ret, s.threads k ≠ .ret ret) : Moves s t k pc :=
  ⟨hthreads, fun _ _ => by rw [hlock], hrun⟩

/-- Thread `k` releases the lock. -/
theorem Moves.of_release (hthreads : t.threads = (s.setPc k pc).threads) (hheld : s.sendLock = some k)
    (hfree : t.sendLock = none) (hrun : ∀ ret, s.threads k ≠ .ret ret) : Moves s t k pc := by
  refine ⟨hthreads, fun k' e => ?_, hrun⟩
  rw [hheld, hfree, Option.some.injEq]
  constructor
  · intro h
    cases h
  · intro h
    exact absurd h.symm e

/-- Thread `k` goes on, and the writers see nothing of it. -/
theorem Sim.goesOn {pc₀ : TxPc} (h : Sim reqs s c) (pc : TxPc) (hk : s.threads k = pc₀)
    (hrun : ∀ ret, pc₀ ≠ .ret ret) (hthreads : t.threads = (s.setPc k pc).threads) (hlock : t.sendLock = s.sendLock)
    (hacc : t.accepted = s.accepted) (hw : written pc = written pc₀)
    (hthread : ThreadOk (reqs k) (s.sendLock = some k) pc₀ → ThreadOk (reqs k) (s.sendLock = some k) pc)
    (hret : pc ≠ .ret 0) : ∃ c', Writes reqs c c' ∧ Sim reqs t c' :=
  ⟨c, .inl rfl, h.quiet (.of_setPc hthreads hlock (hk ▸ hrun)) hlock hacc (hk ▸ hw) (hthread (h.thread_at hk)) hret⟩

/-- Every step of the threads is a step of the writers, or none. -/
theorem sim_step {act : TxAct} (h : Sim reqs s c) (hs : txStep reqs s act = some t) :
    ∃ c', Writes reqs c c' ∧ Sim reqs t c' := by
  cases txStep_does hs with
  | refuse hk hret => exact h.goesOn (.ret _) hk nofun rfl rfl rfl rfl id (by simpa using hret)
  | wait hk hnum => exact h.goesOn .lock hk nofun rfl rfl rfl rfl (fun hthread => ⟨hthread, hnum⟩) nofun
  | interrupted hk => exact h.goesOn (.ret _) hk nofun rfl rfl rfl rfl And.left (by simp [ERESTARTSYS])
  | @take k hk hfree =>
    refine h.take ⟨rfl, fun k' e => ?_, by simp [hk]⟩ hfree rfl rfl (h.thread_at hk).2
    simp [hfree, e.symm]
  | call hk hi =>
    refine h.goesOn (.send _ .enter) hk nofun rfl rfl rfl rfl (fun hthread => ?_) nofun
    exact ⟨hthread.1, hthread.2.1, hthread.2.2.1, hi⟩
  | @finish k v hk hi =>
    obtain ⟨hheld, hnum, hv, hle⟩ := h.thread_at hk
    refine h.release (.of_release rfl hheld rfl (by simp [hk])) hheld rfl rfl fun _ => ?_
    rw [hk, written, length_series hnum]
    omega
  | run hk hpc hpc' =>
    refine h.goesOn (.send _ _) hk nofun rfl rfl rfl ?_ id nofun
    rw [written, written, hpc, hpc']
  | @hcall k v r hk =>
    by_cases hok : r.ghRet = GH_ERROR_OK
    · exact h.write (.of_setPc rfl rfl (by simp [hk])) hk hok rfl (if_pos hok)
    · have htaken : taken (.store r) = false := by simp [taken, hok]
      refine h.goesOn (.send v (.store r)) hk nofun rfl rfl (if_neg hok) ?_ id nofun
      rw [written, written, htaken]
      rfl
  | store hk htaken =>
    refine h.goesOn (.send _ _) hk nofun rfl rfl rfl ?_ id nofun
    rw [written, written, htaken]
  | giveUp hk hret =>
    obtain ⟨hheld, -⟩ := h.thread_at hk
    exact h.release (.of_release rfl hheld rfl (by simp [hk])) hheld rfl rfl fun e => absurd e hret
  | @next k v hk =>
    refine h.goesOn (.turn v.next) hk nofun rfl rfl rfl rfl (fun hthread => ?_) nofun
    obtain ⟨hheld, hnum, hv, hi⟩ := hthread
    have hnext : v.next = loopAt (reqs k) (v.i + 1) := by
      rw [loopAt, ← hv]
    refine ⟨hheld, hnum, ?_, Nat.succ_le_succ hi⟩
    rw [hnext, loopAt_i]
  | other => exact ⟨c, .inl rfl, h.frame rfl rfl rfl⟩

/-! ## Over a run -/

/-- The queue has taken a sequence of blocks, one for a call at most, each with
the first messages of the call's series; the block of a call whose
`gh_rm_send_request` returned 0 is the whole series. -/
def TxIntegrity (reqs : Nat → Request) (s : TxState) : Prop :=
  ∃ blocks : List (Nat × Nat),
    s.accepted = blocks.flatMap (fun b => (series (reqs b.1)).take b.2) ∧
    (blocks.map (·.1)).Nodup ∧
    ∀ k, s.threads k = .ret 0 → (k, (series (reqs k)).length) ∈ blocks

/-- Whatever the order of the threads, the answers of the hypervisor, the
interrupts and the signals. -/
theorem txIntegrity (reqs : Nat → Request) (entry : CapTable) (desc : Option Addr) (as : List TxAct) :
    Always (txStep reqs) (TxIntegrity reqs) (.init entry desc) as := by
  intro bs cs t _ ht
  obtain ⟨c, hinv, hsim⟩ : ∃ c, Blocks.Inv (fun k => series (reqs k)) c ∧ Sim reqs t c := by
    refine inv_exec (I := fun s => ∃ c, Blocks.Inv (fun k => series (reqs k)) c ∧ Sim reqs s c)
      (fun s act t h hs => ?_) ⟨.init, .init _, .init entry desc⟩ ht
    obtain ⟨c, hinv, hsim⟩ := h
    obtain ⟨c', rfl | hstep, hsim'⟩ := sim_step hsim hs
    · exact ⟨c', hinv, hsim'⟩
    · exact ⟨c', hinv.step hstep, hsim'⟩
  refine ⟨c.blocks, ?_, hinv.nodup, fun k hk => List.mem_append_left _ (hsim.whole k hk)⟩
  rw [← hsim.log, hinv.log]
  rfl

/-- The queue is full at first: thread 1 waits for the lock, which thread 0
holds until the TX interrupt has come and its message was taken. -/
example :
    (exec (txStep fun k => ⟨0x51000012, [1, 2, 3], BitVec.ofNat 16 k⟩)
      (.init { label := 0, clientDesc := some 1, txCapId := 4, txIrq := 9 } (some 1))
      ([.start 0 true, .start 1 true, .lock 0 false, .turn 0] ++ List.replicate 5 (.run 0 false) ++
        [.hcall 0 ⟨GH_ERROR_MSGQUEUE_FULL, false⟩, .store 0, .run 0 false, .txIsr, .run 0 false,
          .hcall 0 ⟨GH_ERROR_OK, true⟩, .store 0, .sent 0, .turn 0, .lock 1 true])).map
      (fun s => s.accepted) = some (ghRmSendRequest {} (fun _ => 0) ⟨0x51000012, [1, 2, 3], 0⟩).1 := by
  decide

end GH.Proof.Rm
