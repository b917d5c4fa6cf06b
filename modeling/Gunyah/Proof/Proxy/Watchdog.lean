import Gunyah.Proof.Proxy.Ops

/-!
# The watchdogs of the vCPUs

What a run of a watchdog says of its operations (`alternates_of_run`,
`runsUnfrozen_of_run`, `leftFrozen_iff`). The hypercalls of a turn of
`gh_vcpu_run` are such a run, from one value of the vCPU's flag to the next
(`vcpuRunHcalls_run`, `vcpuRunCheck_run`), and nothing but a reset of the slot
changes the flag between turns (`op_slot`), so the hypercalls since the last
reset are a run of the watchdog (`wdogInv_step`, `wdog_alternates`).

`gh_vcpu_run` returns `-ERESTARTSYS` without a signal where that is the
hypervisor's answer (`restart_without_signal`). The invocations of
`ghVcpuRun`, one at a time, are runs of this machine (`vcpuRun_exec`).
-/

namespace GH.Proof.Proxy

open GH.Impl GH.Impl.Proxy GH.Spec.Proxy
open GH.Impl.Rm (VmId GH_VMID_INVAL)

/-! ## Runs of a watchdog -/

section Wdog

variable {b b' : Bool} {calls : List VcpuCall}

/-- What the watchdog was last asked for, where it was asked for something. -/
def wdogOp (b : Bool) : VcpuCall := if b then .freeze else .unfreeze

theorem wdogStep_cases {c : VcpuCall} (h : wdogStep b c = some b') :
    (c = .run ∧ b = false ∧ b' = false) ∨ (c = wdogOp b' ∧ b = !b') := by
  cases b <;> cases c <;> cases h <;> simp [wdogOp]

theorem wdogOps_run (l : List VcpuCall) : wdogOps (.run :: l) = wdogOps l := rfl

theorem wdogOps_wdogOp (b : Bool) (l : List VcpuCall) : wdogOps (wdogOp b :: l) = wdogOp b :: wdogOps l := by
  cases b <;> rfl

theorem wdogOp_not_ne (b : Bool) : wdogOp b ≠ wdogOp !b := by cases b <;> decide

/-- The next operation is not the one that led to the present state. -/
theorem wdogOps_chain (h : exec wdogStep b calls = some b') : (wdogOp b :: wdogOps calls).IsChain (· ≠ ·) := by
  induction calls generalizing b with
  | nil => exact List.isChain_singleton _
  | cons c calls ih =>
    obtain ⟨b₁, hc, h⟩ := exec_cons_some.mp h
    have hchain := ih h
    rcases wdogStep_cases hc with ⟨rfl, rfl, rfl⟩ | ⟨rfl, rfl⟩
    · rw [wdogOps_run]
      exact hchain
    · rw [wdogOps_wdogOp]
      exact List.isChain_cons_cons.mpr ⟨(wdogOp_not_ne b₁).symm, hchain⟩

theorem alternates_of_run (h : exec wdogStep false calls = some b') : Alternates calls := by
  have hchain := wdogOps_chain h
  refine ⟨fun hu => ?_, (List.isChain_cons.mp hchain).2⟩
  exact (List.isChain_cons.mp hchain).1 _ hu rfl

theorem wdogOps_last (h : exec wdogStep b calls = some b') :
    (wdogOp b :: wdogOps calls).getLast? = some (wdogOp b') := by
  induction calls generalizing b with
  | nil =>
    cases h
    rfl
  | cons c calls ih =>
    obtain ⟨b₁, hc, h⟩ := exec_cons_some.mp h
    have hlast := ih h
    rcases wdogStep_cases hc with ⟨rfl, rfl, rfl⟩ | ⟨rfl, rfl⟩
    · rw [wdogOps_run]
      exact hlast
    · rw [wdogOps_wdogOp, List.getLast?_cons_cons]
      exact hlast

theorem leftFrozen_iff (h : exec wdogStep false calls = some b') : LeftFrozen calls ↔ b' = true := by
  have hlast := wdogOps_last h
  rw [List.getLast?_cons, Option.some.injEq] at hlast
  unfold LeftFrozen
  cases hl : (wdogOps calls).getLast? with
  | none =>
    rw [hl, Option.getD_none] at hlast
    cases b' with
    | false => simp
    | true => cases hlast
  | some c =>
    rw [hl, Option.getD_some] at hlast
    subst hlast
    cases b' <;> simp [wdogOp]

/-- Without an UNFREEZE the watchdog stays frozen. -/
theorem stays_frozen (h : exec wdogStep true calls = some b') (hu : .unfreeze ∉ calls) : b' = true := by
  induction calls with
  | nil =>
    cases h
    rfl
  | cons c calls ih =>
    obtain ⟨b₁, hc, h⟩ := exec_cons_some.mp h
    rw [List.mem_cons, not_or] at hu
    cases b₁ with
    | true => exact ih h hu.2
    | false =>
      rcases wdogStep_cases hc with ⟨-, hb, -⟩ | ⟨rfl, -⟩
      · cases hb
      · exact absurd rfl hu.1

theorem runsUnfrozen_of_run (h : exec wdogStep b calls = some b') : RunsUnfrozen calls := by
  rintro l m r rfl
  rw [List.append_assoc] at h
  obtain ⟨b₁, -, h⟩ := exec_append_some.mp h
  obtain ⟨b₂, hfreeze, h⟩ := exec_cons_some.mp h
  obtain ⟨b₃, hm, h⟩ := exec_append_some.mp h
  obtain ⟨b₄, hrun, -⟩ := exec_cons_some.mp h
  have h₂ : b₂ = true := by
    cases b₁ <;> cases hfreeze
    rfl
  have h₃ : b₃ = false := by
    cases b₃ with
    | false => rfl
    | true => cases hrun
  subst h₂ h₃
  by_contra hu
  cases stays_frozen hm hu

end Wdog

/-! ## A turn -/

theorem vcpuRunHcalls_run (c : ProxyVcpu) (ret : Int) (st : VcpuState) (resched : Bool) :
    exec wdogStep c.wdogFrozen (vcpuRunHcalls c ret st resched).2 =
      some (vcpuRunHcalls c ret st resched).1.wdogFrozen := by
  unfold vcpuRunHcalls
  cases c.wdogFrozen <;> simp only <;> split <;> rfl

theorem vcpuRunCheck_run (c : ProxyVcpu) (isActive : Bool) (ret : Int) (signal : Bool) :
    exec wdogStep c.wdogFrozen (vcpuRunCheck c isActive ret signal).2.1 =
      some (vcpuRunCheck c isActive ret signal).1.wdogFrozen := by
  unfold vcpuRunCheck
  split
  · split
    · rfl
    · rename_i hf
      rw [Bool.not_eq_true] at hf
      rw [hf]
      rfl
  split <;> rfl

theorem ghRemapError_ne_restart (e : Int) : ghRemapError e ≠ -ERESTARTSYS := by
  unfold ghRemapError
  repeat' split
  all_goals decide

theorem vcpuRunCheck_restarts {c : ProxyVcpu} {isActive : Bool} {ret : Int} {signal : Bool}
    (h : (vcpuRunCheck c isActive ret signal).2.2 = some (-ERESTARTSYS)) :
    (vcpuRunCheck c isActive ret signal).1.wdogFrozen = true ∨ ret = -ERESTARTSYS ∧ signal = false := by
  cases signal with
  | true =>
    refine .inl ?_
    rw [vcpuRunCheck, if_pos rfl]
    split
    · assumption
    · rfl
  | false =>
    refine .inr ⟨?_, rfl⟩
    rw [vcpuRunCheck, if_neg (by decide)] at h
    split at h
    · cases h
    rw [Option.some.injEq] at h
    split at h
    · assumption
    · exact absurd h (ghRemapError_ne_restart ret)

/-! ## Between turns -/

variable {s t : Sched} {v : VmId}

theorem Edits.slot {i : Slot} (h : Edits s i t) (k : Slot) :
    ¬ Emptied s t k ∧ KeepsVcpus (s.vms k) (t.vms k) := by
  have hid := h.rewrites.id k
  refine ⟨fun he => he.1 (hid ▸ he.2), ?_⟩
  obtain ⟨vm, ht, -, hk⟩ := h
  rw [ht, Function.update_apply]
  split
  · rename_i e
    exact e ▸ hk
  · exact .of_eq rfl

/-- An operation resets a slot, or keeps its vCPUs and their flags. -/
theorem op_slot {act : SchedAct} (h : schedStep s act = some t) (hact : ∀ v j ts, act ≠ .vcpuRun v j ts)
    (k : Slot) : (¬ Emptied s t k ∧ KeepsVcpus (s.vms k) (t.vms k)) ∨ (Emptied s t k ∧ (t.vms k).vcpu = []) := by
  unfold schedStep at h
  split at h
  · cases h
  rename_i hv
  cases act with
  | populateVcpu p =>
    cases h
    refine .inl ?_
    by_cases hp : Populates s p
    · rw [Emptied, populateVcpu_of hp, Function.update_apply]
      split
      · rename_i e
        exact ⟨fun he => hv he.2, e ▸ .append rfl rfl⟩
      · exact ⟨fun he => he.1 he.2, .of_eq rfl⟩
    · rw [populateVcpu_same hp]
      exact (Edits.refl s k).slot k
  | unpopulateVcpu v c =>
    cases h
    exact .inl ((unpopulateVcpu_edits s v c).slot k)
  | populateVpmGrp v c irq ret =>
    cases h
    exact .inl ((populateVpmGrp_edits s v c irq ret).slot k)
  | unpopulateVpmGrp v =>
    cases h
    exact .inl ((unpopulateVpmGrp_edits s v).slot k)
  | allRes v b =>
    cases h
    by_cases hr : b = false ∧ Resets s v
    · obtain ⟨rfl, hr⟩ := hr
      rw [Emptied, allRes_of hr, Function.update_apply]
      split
      · rename_i e
        have hid := hr.2.1
        rw [isVmSupportsProxy, decide_eq_true_iff] at hid
        exact .inr ⟨⟨e ▸ hid.1, rfl⟩, rfl⟩
      · exact .inl ⟨fun he => he.1 he.2, .of_eq rfl⟩
    · exact .inl ((allRes_edits hr).slot k)
  | wdogManage v c b =>
    cases h
    exact .inl ((wdogManage_edits s v c b).slot k)
  | wakeupAll v =>
    cases h
    exact .inl ((wakeupAll_edits s v).slot k)
  | vcpuRun v j ts => exact absurd rfl (hact v j ts)

/-! ## The machine -/

variable {m m' : Runs}

theorem vcpu?_modifyVcpu_self (s : Sched) (p : VcpuId) (f : ProxyVcpu → ProxyVcpu) :
    (s.modifyVcpu p.1 p.2 f).vcpu? p = (s.vcpu? p).map f := by
  simp [Sched.modifyVcpu, Sched.vcpu?, Sched.set]

theorem vcpu?_modifyVcpu_of_ne {s : Sched} {p q : VcpuId} (h : q ≠ p) (f : ProxyVcpu → ProxyVcpu) :
    (s.modifyVcpu p.1 p.2 f).vcpu? q = s.vcpu? q := by
  by_cases e : q.1 = p.1
  · have hj : p.2 ≠ q.2 := fun hj => h (Prod.ext e hj.symm)
    simp [Sched.modifyVcpu, Sched.vcpu?, Sched.set, e, hj]
  · simp [Sched.modifyVcpu, Sched.vcpu?, Sched.set, e]

/-- The watchdog of one vCPU takes the steps of the hypercalls made for it. -/
theorem wdogInv_turn (h : WdogInv m) {p : VcpuId} {c : ProxyVcpu} {f : ProxyVcpu → ProxyVcpu}
    {l : List VcpuCall} (hp : m.pc p ≠ none) (hc : m.sched.vcpu? p = some c) (hl : exec wdogStep c.wdogFrozen l = some (f c).wdogFrozen)
    (pc : Option RunPc) : WdogInv (m.turn p f pc l) where
  calls q := by
    simp only [Runs.turn]
    by_cases e : q = p
    · subst e
      have hq := h.calls q
      rw [frozenFlag, hc, Option.any_some] at hq
      rw [Function.update_self, frozenFlag, vcpu?_modifyVcpu_self, hc, Option.map_some, Option.any_some]
      exact exec_append_some.mpr ⟨_, hq, hl⟩
    · rw [Function.update_of_ne e, frozenFlag, vcpu?_modifyVcpu_of_ne e]
      exact h.calls q
  running q hq := by
    simp only [Runs.turn] at hq ⊢
    by_cases e : q = p
    · subst e
      rw [vcpu?_modifyVcpu_self, hc]
      exact ⟨(h.running q hp).1, rfl⟩
    · rw [Function.update_of_ne e] at hq
      rw [vcpu?_modifyVcpu_of_ne e]
      exact h.running q hq

theorem vcpuRunEnter_ok {j : Nat} {i : Slot} (h : vcpuRunEnter s v j = some (.ok i)) :
    j < GH_MAX_VCPUS_PER_VM ∧ (s.vcpu? (i, j)).isSome := by
  unfold vcpuRunEnter at h
  simp only at h
  split at h
  · cases h
  split at h
  · cases h
  split at h
  · cases h
  rename_i hj hall
  cases h
  refine ⟨Nat.lt_of_not_le hj, ?_⟩
  rw [Sched.vcpu?]
  cases hc : (s.vms (ghGetVm s v)).vcpu[j]? with
  | some c => rfl
  | none => exact absurd (by rw [hc]; rfl) hall

/-- What a step does: it leaves all as it is, is an operation, starts an
invocation, or makes hypercalls for a vCPU. -/
theorem runStep_cases {a : RunAct} (h : runStep m a = some m') :
    m' = m ∨
    (∃ act t, (∀ v j ts, act ≠ .vcpuRun v j ts) ∧ schedStep m.sched act = some t ∧
      (∀ i, Emptied m.sched t i → ∀ j < GH_MAX_VCPUS_PER_VM, m.pc (i, j) = none) ∧
      m' = { m with sched := t, calls := fun p => if Emptied m.sched t p.1 then [] else m.calls p }) ∨
    (∃ v j i, vcpuRunEnter m.sched v j = some (.ok i) ∧
      m' = { m with pc := Function.update m.pc (i, j) (some .head) }) ∨
    (∃ p c f l pc, m.pc p ≠ none ∧ m.sched.vcpu? p = some c ∧ exec wdogStep c.wdogFrozen l = some (f c).wdogFrozen ∧
      m' = m.turn p f pc l) := by
  cases a with
  | op act =>
    by_cases hact : ∀ v j ts, act ≠ .vcpuRun v j ts
    · rw [runStep] at h
      · obtain ⟨t, ht, h⟩ := Option.bind_eq_some_iff.mp h
        split at h
        · rename_i hidle
          cases h
          exact .inr (.inl ⟨act, t, hact, ht, hidle, rfl⟩)
        · cases h
      · exact fun v j ts e => hact v j ts e
    · push Not at hact
      obtain ⟨v, j, ts, rfl⟩ := hact
      cases h
  | enter v j =>
    simp only [runStep] at h
    split at h
    · cases h
    · cases h
      exact .inl rfl
    · rename_i i hi
      split at h
      · cases h
        exact .inr (.inr (.inl ⟨v, j, i, hi, rfl⟩))
      · cases h
  | hcalls p ret st resched =>
    simp only [runStep] at h
    split at h
    · rename_i c hpc hc
      cases h
      exact .inr (.inr (.inr ⟨p, c, _, _, _, by simp [hpc], hc, vcpuRunHcalls_run c ret st resched, rfl⟩))
    · cases h
  | check p signal =>
    simp only [runStep] at h
    split at h
    · rename_i ret c hpc hc
      cases h
      exact .inr (.inr (.inr ⟨p, c, _, _, _, by simp [hpc], hc, vcpuRunCheck_run c _ ret signal, rfl⟩))
    · cases h

theorem wdogInv_init : WdogInv .init where
  calls _ := rfl
  running _ h := absurd rfl h

theorem wdogInv_step {a : RunAct} (hm : WdogInv m) (h : runStep m a = some m') : WdogInv m' := by
  rcases runStep_cases h with
    rfl | ⟨act, t, hact, ht, hidle, rfl⟩ | ⟨v, j, i, hi, rfl⟩ | ⟨p, c, f, l, pc, hp, hc, hl, rfl⟩
  · exact hm
  · have hslot := fun p : VcpuId => op_slot ht hact p.1
    constructor
    · intro p
      simp only
      rcases hslot p with ⟨hne, hk⟩ | ⟨he, hnil⟩
      · rw [if_neg hne, hm.calls p, frozenFlag, frozenFlag]
        exact congrArg some (hk.frozen p.2).symm
      · rw [if_pos he, frozenFlag, Sched.vcpu?, hnil]
        rfl
    · intro p hp
      obtain ⟨hlt, hsome⟩ := hm.running p hp
      refine ⟨hlt, ?_⟩
      rw [Sched.vcpu?, isSome_getElem?] at hsome ⊢
      rcases hslot p with ⟨-, hk⟩ | ⟨he, -⟩
      · exact Nat.lt_of_lt_of_le hsome hk.count
      · exact absurd (hidle p.1 he p.2 hlt) hp
  · refine ⟨hm.calls, fun p hp => ?_⟩
    by_cases e : p = (i, j)
    · subst e
      exact vcpuRunEnter_ok hi
    · simp only [Function.update_of_ne e] at hp
      exact hm.running p hp
  · exact wdogInv_turn hm hp hc hl pc

theorem wdogInv_exec {as : List RunAct} (h : exec runStep .init as = some m) : WdogInv m :=
  inv_exec (fun _ _ _ => wdogInv_step) wdogInv_init h

theorem vcpuRunEnter_error {j : Nat} {r : Int} (h : vcpuRunEnter s v j = some (.error r)) : r = -EPERM := by
  unfold vcpuRunEnter at h
  simp only at h
  split at h
  · cases h
    rfl
  split at h
  · cases h
  split at h
  · cases h
    rfl
  · cases h

theorem restartsFrozen_of_inv {a : RunAct} (hm : WdogInv m) (h : runStep m a = some m') : RestartsFrozen m a m' := by
  intro hr
  have hm' := wdogInv_step hm h
  cases a with
  | op act => cases hr
  | enter v j =>
    simp only [RunAct.returns] at hr
    split at hr
    · rename_i r he
      rw [Option.some.injEq, vcpuRunEnter_error he] at hr
      exact absurd hr (by decide)
    · cases hr
    · cases hr
  | hcalls p ret st resched => cases hr
  | check p signal =>
    refine ⟨p, signal, rfl, ?_⟩
    simp only [RunAct.returns, runStep] at hr h
    split at hr
    · rename_i ret c hpc hc
      rw [hpc, hc] at h
      simp only [Option.some.injEq] at h
      rcases vcpuRunCheck_restarts hr with hf | ⟨hret, hs⟩
      · refine .inl ((leftFrozen_iff (hm'.calls p)).mpr ?_)
        rw [← h, frozenFlag, Runs.turn, vcpu?_modifyVcpu_self, hc]
        exact hf
      · exact .inr ⟨hret ▸ hpc, hs⟩
    · cases hr

/-- In every run, of the hypercalls for a vCPU since its slot was last reset,
FREEZE and UNFREEZE alternate, no run falls between a FREEZE and the next
UNFREEZE, and a return with `-ERESTARTSYS` leaves the watchdog frozen, unless
the hypervisor answered just that and no signal was pending. -/
theorem wdog_alternates (as : List RunAct) :
    Always runStep (fun m => ∀ p, Alternates (m.calls p) ∧ RunsUnfrozen (m.calls p)) .init as ∧
      Each runStep RestartsFrozen .init as := by
  constructor
  · intro bs cs m _ h p
    have hrun := (wdogInv_exec h).calls p
    exact ⟨alternates_of_run hrun, runsUnfrozen_of_run hrun⟩
  · intro bs a cs m m' _ h hs
    exact restartsFrozen_of_inv (wdogInv_exec h) hs

/-- A VM comes, and the hypervisor answers the run of its vCPU with `-ERESTARTSYS`. -/
def answeredRestart : List RunAct :=
  [.op (.populateVcpu { vmid := 45, cpuIdx := 0, capId := 1, virqNum := 101, trustedVm := .ok 45, oemVm := .ok 46 }),
    .op (.allRes 45 true), .enter 45 0, .hcalls (0, 0) (-ERESTARTSYS) .ready false]

/-- No signal is pending, and `gh_vcpu_run` returns `-ERESTARTSYS` with the
watchdog not frozen. -/
theorem restart_without_signal : ∃ m t, exec runStep .init answeredRestart = some m ∧
    runStep m (.check (0, 0) false) = some t ∧ (RunAct.check (0, 0) false).returns m = some (-ERESTARTSYS) ∧
    ¬ LeftFrozen (t.calls (0, 0)) := by
  obtain ⟨m, hm⟩ : ∃ m, exec runStep .init answeredRestart = some m :=
    Option.isSome_iff_exists.mp (by decide +kernel)
  have hret : (exec runStep .init answeredRestart).bind (RunAct.check (0, 0) false).returns =
      some (-ERESTARTSYS) := by decide +kernel
  have hcalls : ((exec runStep .init answeredRestart).bind fun m => runStep m (.check (0, 0) false)).map
      (fun t => t.calls (0, 0)) = some [.run] := by decide +kernel
  rw [hm, Option.bind_some] at hret hcalls
  obtain ⟨t, ht, hc⟩ := Option.map_eq_some_iff.mp hcalls
  refine ⟨m, t, hm, ht, hret, ?_⟩
  rw [hc, LeftFrozen]
  decide

/-! ## The invocations of `ghVcpuRun` -/

theorem vcpuRunHcalls_fst (t : RunTurn) : (fun c => (vcpuRunHcalls c t.ret t.vcpuState t.needResched).1) =
    fun c => { c with abortSleep := false, wdogFrozen := frozenAfter t } := by
  funext c
  unfold vcpuRunHcalls frozenAfter
  simp only
  split
  · rename_i h
    simp [h]
  · rename_i h
    simp [h]

theorem modifyVcpu_id (s : Sched) (i : Slot) (j : Nat) : s.modifyVcpu i j (fun c => c) = s := by
  unfold Sched.modifyVcpu Sched.set
  have hid : (s.vms i).vcpu.modify j (fun c => c) = (s.vms i).vcpu := List.modify_id ..
  rw [hid, Function.update_eq_self]

/-- What happens in a turn of the loop, as actions of the machine. -/
def turnActs (v : VmId) (p : VcpuId) (t : RunTurn) : List RunAct :=
  [.hcalls p t.ret t.vcpuState t.needResched] ++ if t.vmExit then [.op (.wakeupAll v)] else []

/-- The states of the table of VMs in a turn of `ghVcpuRunLoop`, up to the test
for a signal. -/
def afterHcall (s : Sched) (v : VmId) (p : VcpuId) (t : RunTurn) : Sched :=
  let s := s.modifyVcpu p.1 p.2 fun c => { c with abortSleep := false, wdogFrozen := frozenAfter t }
  if t.vmExit then ghWakeupAllVcpus s v else s

theorem afterHcall_rewrites {p : VcpuId} (hi : ghGetVm s v = p.1) (u : RunTurn) :
    Rewrites s p.1 (afterHcall s v p u) := by
  have hmod := modifyVcpu_rewrites s p.1 p.2 fun c => { c with abortSleep := false, wdogFrozen := frozenAfter u }
  unfold afterHcall
  simp only
  split
  · have hwake := (wakeupAll_edits (s.modifyVcpu p.1 p.2
      fun c => { c with abortSleep := false, wdogFrozen := frozenAfter u }) v).rewrites
    rw [hmod.getVm, hi] at hwake
    exact hmod.trans hwake
  · exact hmod

theorem wakeupAll_step (hv : v ≠ GH_VMID_INVAL) (m : Runs) : ∃ m', runStep m (.op (.wakeupAll v)) = some m' ∧
    m'.sched = ghWakeupAllVcpus m.sched v ∧ m'.pc = m.pc := by
  have hstep : schedStep m.sched (.wakeupAll v) = some (ghWakeupAllVcpus m.sched v) := if_neg hv
  have hslot := (wakeupAll_edits m.sched v).slot
  have hidle : ∀ i, Emptied m.sched (ghWakeupAllVcpus m.sched v) i →
      ∀ j < GH_MAX_VCPUS_PER_VM, m.pc (i, j) = none := fun i he => absurd he (hslot i).1
  simp only [runStep, hstep, Option.bind_some, if_pos hidle, Option.some.injEq, exists_eq_left', and_self]

theorem turnActs_exec {p : VcpuId} (hv : v ≠ GH_VMID_INVAL) (hpc : m.pc p = some .head)
    (hc : (m.sched.vcpu? p).isSome) (u : RunTurn) :
    ∃ m₂, exec runStep m (turnActs v p u) = some m₂ ∧ m₂.sched = afterHcall m.sched v p u ∧
      m₂.pc = Function.update m.pc p (some (.ran u.ret)) ∧ (m₂.sched.vcpu? p).isSome := by
  obtain ⟨c, hc⟩ := Option.isSome_iff_exists.mp hc
  have hhead : runStep m (.hcalls p u.ret u.vcpuState u.needResched) =
      some (m.turn p (fun c => { c with abortSleep := false, wdogFrozen := frozenAfter u }) (some (.ran u.ret))
        (vcpuRunHcalls c u.ret u.vcpuState u.needResched).2) := by
    simp only [runStep, hpc, hc, vcpuRunHcalls_fst]
  rw [turnActs, List.singleton_append, exec_cons hhead, afterHcall]
  cases u.vmExit with
  | false =>
    refine ⟨_, rfl, rfl, rfl, ?_⟩
    simp only [Runs.turn]
    rw [vcpu?_modifyVcpu_self, hc]
    rfl
  | true =>
    generalize hm₁ : m.turn p _ _ _ = m₁
    have hsched : m₁.sched = m.sched.modifyVcpu p.1 p.2
        fun c => { c with abortSleep := false, wdogFrozen := frozenAfter u } := by rw [← hm₁, Runs.turn]
    obtain ⟨m₂, hstep, hs, hpc₂⟩ := wakeupAll_step hv m₁
    refine ⟨m₂, exec_cons_some.mpr ⟨m₂, hstep, rfl⟩, by rw [hs, hsched, if_pos rfl], by rw [hpc₂, ← hm₁, Runs.turn], ?_⟩
    have hc₁ : m₁.sched.vcpu? p = some { c with abortSleep := false, wdogFrozen := frozenAfter u } := by
      rw [hsched, vcpu?_modifyVcpu_self, hc, Option.map_some]
    have hcount := ((wakeupAll_edits m₁.sched v).slot p.1).2.count
    rw [hs, Sched.vcpu?, isSome_getElem?]
    exact Nat.lt_of_lt_of_le (List.getElem?_eq_some_iff.mp hc₁).1 hcount

theorem vcpuRunCheck_signal (c : ProxyVcpu) (isActive : Bool) (ret : Int) :
    (vcpuRunCheck c isActive ret true).1 = { c with wdogFrozen := true } ∧
      (vcpuRunCheck c isActive ret true).2.2 = some (-ERESTARTSYS) := by
  rw [vcpuRunCheck, if_pos rfl]
  split
  · rename_i hf
    exact ⟨by rw [← hf], rfl⟩
  · exact ⟨rfl, rfl⟩

/-- An invocation that is in its loop goes on to the end. -/
theorem vcpuRunLoop_exec {p : VcpuId} {ts : List RunTurn} {r : Int} (hv : v ≠ GH_VMID_INVAL)
    (hi : ghGetVm m.sched v = p.1) (hpc : m.pc p = some .head) (hc : (m.sched.vcpu? p).isSome)
    (h : ghVcpuRunLoop m.sched v p.1 p.2 ts = some (s, r)) :
    ∃ as signal m₁ m', exec runStep m as = some m₁ ∧ (RunAct.check p signal).returns m₁ = some r ∧
      runStep m₁ (.check p signal) = some m' ∧ m'.sched = s ∧ m'.pc = Function.update m.pc p none := by
  induction ts generalizing m with
  | nil => cases h
  | cons u ts ih =>
    obtain ⟨m₂, hexec, hs₂, hpc₂, hc₂⟩ := turnActs_exec hv hpc hc u
    have hrw := afterHcall_rewrites hi u
    rw [← hs₂] at hrw
    obtain ⟨c, hc₂⟩ := Option.isSome_iff_exists.mp hc₂
    have hran : m₂.pc p = some (.ran u.ret) := by rw [hpc₂, Function.update_self]
    have hloop : ghVcpuRunLoop m.sched v p.1 p.2 (u :: ts) =
        if u.signal then some (m₂.sched.modifyVcpu p.1 p.2 fun c => { c with wdogFrozen := true }, -ERESTARTSYS)
        else if (u.ret = GH_ERROR_OK ∨ u.ret = GH_ERROR_RETRY) ∧ (m₂.sched.vms p.1).isActive then
          ghVcpuRunLoop m₂.sched v p.1 p.2 ts
        else some (m₂.sched, if u.ret = -ERESTARTSYS then u.ret else ghRemapError u.ret) := by
      rw [hs₂]
      rfl
    rw [hloop] at h
    have hcheck : runStep m₂ (.check p u.signal) = some (m₂.turn p
        (fun c => (vcpuRunCheck c (m₂.sched.vms p.1).isActive u.ret u.signal).1)
        (if (vcpuRunCheck c (m₂.sched.vms p.1).isActive u.ret u.signal).2.2 = none then some .head else none)
        (vcpuRunCheck c (m₂.sched.vms p.1).isActive u.ret u.signal).2.1) := by
      simp only [runStep, hran, hc₂]
    have hret : (RunAct.check p u.signal).returns m₂ =
        (vcpuRunCheck c (m₂.sched.vms p.1).isActive u.ret u.signal).2.2 := by
      simp only [RunAct.returns, hran, hc₂]
    have hpc₃ (o : Option RunPc) : Function.update m₂.pc p o = Function.update m.pc p o := by
      rw [hpc₂, Function.update_idem]
    generalize (m₂.sched.vms p.1).isActive = isActive at h hcheck hret
    cases hsig : u.signal with
    | true =>
      rw [hsig] at h hcheck hret
      cases h
      have hr := (vcpuRunCheck_signal c isActive u.ret).2
      refine ⟨_, true, m₂, _, hexec, hret.trans hr, hcheck, ?_, ?_⟩
      · simp only [Runs.turn, vcpuRunCheck_signal]
      · simp only [Runs.turn, hr, reduceCtorEq, if_false, hpc₃]
    | false =>
      rw [hsig] at h hcheck hret
      rw [if_neg (by decide)] at h
      split at h
      · rename_i hgo
        have hr (c : ProxyVcpu) : vcpuRunCheck c isActive u.ret false = (c, [], none) := by
          rw [vcpuRunCheck, if_neg (by decide), if_pos hgo]
        simp only [hr, if_true] at hcheck
        generalize hm₃ : m₂.turn p _ _ _ = m₃ at hcheck
        have hs₃ : m₃.sched = m₂.sched := by rw [← hm₃, Runs.turn, modifyVcpu_id]
        have hpc₃' : m₃.pc = Function.update m.pc p (some .head) := by rw [← hm₃, Runs.turn, hpc₃]
        obtain ⟨as, signal, m₁, m', has, hret', hlast, hs', hpc'⟩ := ih (m := m₃)
          (by rw [hs₃, hrw.getVm, hi]) (by rw [hpc₃', Function.update_self]) (by rw [hs₃, hc₂]; rfl)
          (by rwa [hs₃])
        refine ⟨_, signal, m₁, m', exec_append_some.mpr ⟨m₂, hexec, exec_cons_some.mpr ⟨m₃, hcheck, has⟩⟩,
          hret', hlast, hs', ?_⟩
        rw [hpc', hpc₃', Function.update_idem]
      · rename_i hstop
        cases h
        have hr (c : ProxyVcpu) : vcpuRunCheck c isActive u.ret false =
            (c, [], some (if u.ret = -ERESTARTSYS then u.ret else ghRemapError u.ret)) := by
          rw [vcpuRunCheck, if_neg (by decide), if_neg hstop]
        refine ⟨_, false, m₂, _, hexec, hret.trans (by rw [hr]), hcheck, ?_, ?_⟩
        · simp only [Runs.turn, hr, modifyVcpu_id]
        · simp only [Runs.turn, hr, reduceCtorEq, if_false, hpc₃]

/-- An invocation of `ghVcpuRun` is a run of the machine, with the same result. -/
theorem vcpuRun_exec {j : Nat} {ts : List RunTurn} {r : Int} (hv : v ≠ GH_VMID_INVAL)
    (hidle : m.pc (ghGetVm m.sched v, j) = none) (h : ghVcpuRun m.sched v j ts = some (s, r)) :
    ∃ as a m₁ m', exec runStep m as = some m₁ ∧ a.returns m₁ = some r ∧ runStep m₁ a = some m' ∧
      m'.sched = s ∧ m'.pc = m.pc := by
  have herror (e : Int) (he : vcpuRunEnter m.sched v j = some (.error e)) :
      (RunAct.enter v j).returns m = some e ∧ runStep m (.enter v j) = some m := by
    simp only [RunAct.returns, runStep, he, and_self]
  unfold ghVcpuRun at h
  simp only at h
  split at h
  · rename_i hactive
    cases h
    obtain ⟨hret, hstep⟩ := herror (-EPERM) (by rw [vcpuRunEnter, if_pos hactive])
    exact ⟨[], .enter v j, m, m, rfl, hret, hstep, rfl, rfl⟩
  rename_i hactive
  split at h
  · cases h
  rename_i hj
  split at h
  · rename_i hcap
    cases h
    obtain ⟨hret, hstep⟩ := herror (-EPERM) (by rw [vcpuRunEnter, if_neg hactive, if_neg hj, if_pos hcap])
    exact ⟨[], .enter v j, m, m, rfl, hret, hstep, rfl, rfl⟩
  rename_i hcap
  have hok : vcpuRunEnter m.sched v j = some (.ok (ghGetVm m.sched v)) := by
    rw [vcpuRunEnter, if_neg hactive, if_neg hj, if_neg hcap]
  generalize hp : ((ghGetVm m.sched v, j) : VcpuId) = p at hidle
  have hstep : runStep m (.enter v j) = some { m with pc := Function.update m.pc p (some .head) } := by
    simp only [runStep, hok, hp, hidle, if_true]
  have hsome := (vcpuRunEnter_ok hok).2
  rw [hp] at hsome
  obtain ⟨as, signal, m₁, m', hexec, hret, hlast, hs, hpc⟩ :=
    vcpuRunLoop_exec (m := { m with pc := Function.update m.pc p (some .head) }) (p := p) hv (by rw [← hp])
      (Function.update_self ..) hsome (by rwa [← hp])
  refine ⟨.enter v j :: as, .check p signal, m₁, m', exec_cons_some.mpr ⟨_, hstep, hexec⟩, hret, hlast, hs, ?_⟩
  rw [hpc, Function.update_idem, ← hidle, Function.update_eq_self]

end GH.Proof.Proxy
