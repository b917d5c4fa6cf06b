import Mathlib.Tactic.Common
import Gunyah.Spec.Vm.Start
import Gunyah.Framework.Lock
import Gunyah.Framework.Run

/-!
# Starting a VM

`vm_run_once` is set before `gh_rm_vm_start` is called, and tested under
`vm_lock`, so the call is made once (`started_once`). Two things carry this: a
notification can write `READY` or `RESET` at any time, but not `RUNNING`, so a
thread that has `vm_lock` and has not found `RUNNING` does not find it later;
and the vCPUs that a thread has counted are the same at the call, because they
are changed under `vm_lock` only.
-/

namespace GH.Proof.Vm

open GH.Impl GH.Impl.Rm GH.Impl.Main GH.Spec.Vm

/-- A call of `gh_rm_vm_start` has returned 0. -/
def Started (starts : List Start) : Prop := ∃ x ∈ starts, x.ret = 0

/-- A VM that is secure has all its vCPUs. -/
def HasVcpus (vm : GhVm) : Prop := vm.isSecureVm = true → vm.createdVcpus = vm.allowedVcpus

/-- What a thread knows. -/
def PcOk (vm : GhVm) (starts : List Start) : RunPc → Prop
  | .idle | .lock | .testRunning => True
  | .testRunOnce => vm.vmStatus ≠ GH_RM_VM_STATUS_RUNNING
  | .testVcpus => vm.vmRunOnce = true ∧ starts = []
  | .testReady => vm.vmRunOnce = true ∧ starts = [] ∧ HasVcpus vm
  | .start => vm.vmRunOnce = true ∧ starts = [] ∧ HasVcpus vm
  | .setRunning | .startVcpuRun | .run => Started starts

/-- A call that is made as it should be. -/
def GoodStart (x : Start) : Prop := x.locked = true ∧ x.tested = some GH_RM_VM_STATUS_READY ∧ HasVcpus x.vm

/-- What holds of every thread, of the status, and of the calls that have been made. -/
structure StartInv (s : StartState) : Prop where
  held : ∀ k, (s.runs k).locked = true ↔ s.lock = some (.run k)
  pc : ∀ k, PcOk s.vm s.starts (s.runs k)
  tested : ∀ k, s.runs k = .start → s.tested k = some GH_RM_VM_STATUS_READY
  first : s.vm.vmRunOnce = false → s.starts = []
  running : s.vm.vmStatus = GH_RM_VM_STATUS_RUNNING → Started s.starts
  notifs : ∀ k st, s.notifs k = some st → st ≠ GH_RM_VM_STATUS_RUNNING
  once : s.starts.length ≤ 1
  good : ∀ x ∈ s.starts, GoodStart x

theorem StartInv.init : StartInv .init where
  held k := by simp [StartState.init, RunPc.locked]
  pc k := trivial
  tested k h := by cases h
  first _ := rfl
  running h := absurd h (by decide)
  notifs k st h := by cases h
  once := Nat.zero_le 1
  good x hx := by cases hx

variable {s t : StartState}

theorem StartInv.startedOnce (h : StartInv s) : StartedOnce s where
  once := h.once
  ready x hx := ⟨(h.good x hx).1, (h.good x hx).2.1⟩
  vcpus x hx := (h.good x hx).2.2
  ran k hk := by
    have := h.pc k
    rcases hk with hk | hk <;> · rw [hk] at this; exact this

/-! ## What the others do to a thread -/

/-- A thread without `vm_lock` relies on the calls only. -/
theorem pcOk_unlocked {vm vm' : GhVm} {starts starts' : List Start} {pc : RunPc} (hl : pc.locked = false)
    (hs : Started starts → Started starts') (h : PcOk vm starts pc) : PcOk vm' starts' pc := by
  cases pc <;> first | exact trivial | exact hs h | cases hl

/-- A thread does not rely on the status, other than that it is not `RUNNING`. -/
theorem pcOk_status {vm : GhVm} {starts : List Start} {pc : RunPc} {st : BitVec 8}
    (hst : st ≠ GH_RM_VM_STATUS_RUNNING) (h : PcOk vm starts pc) : PcOk { vm with vmStatus := st } starts pc := by
  cases pc <;> first | exact hst | exact h

theorem run_injective : Holder.run.Injective := fun _ _ h => Holder.run.inj h

theorem StartInv.vmLock (h : StartInv s) : Lock.Held .run RunPc.locked s.lock s.runs := h.held

/-! ## Steps -/

/-- A change of the VM under `vm_lock` by somebody who does not run a vCPU. -/
theorem StartInv.change (h : StartInv s) (hl : ∀ k, s.lock ≠ some (.run k)) {vm : GhVm}
    (honce : vm.vmRunOnce = s.vm.vmRunOnce)
    (hst : vm.vmStatus = s.vm.vmStatus ∨ vm.vmStatus ≠ GH_RM_VM_STATUS_RUNNING) : StartInv { s with vm := vm } where
  held := h.held
  pc k := pcOk_unlocked (h.vmLock.unlocked hl k) id (h.pc k)
  tested := h.tested
  first hf := h.first (honce ▸ hf)
  running hr := by
    rcases hst with hst | hst
    · exact h.running (hst ▸ hr)
    · exact absurd hr hst
  notifs := h.notifs
  once := h.once
  good := h.good

theorem apply_runOnce (vm : GhVm) (w : VmWrite) : (w.apply vm).vmRunOnce = vm.vmRunOnce := by
  cases w <;> rfl

theorem apply_status (vm : GhVm) (w : VmWrite) :
    (w.apply vm).vmStatus = vm.vmStatus ∨ (w.apply vm).vmStatus ≠ GH_RM_VM_STATUS_RUNNING := by
  cases w <;> first | exact .inl rfl | exact .inr (by simp [VmWrite.apply]; decide)

theorem exited_change (vm : GhVm) (p : List Byte) :
    ((ghNotifVmExited vm).val p).vmRunOnce = vm.vmRunOnce ∧
      (((ghNotifVmExited vm).val p).vmStatus = vm.vmStatus ∨
        ((ghNotifVmExited vm).val p).vmStatus ≠ GH_RM_VM_STATUS_RUNNING) := by
  rw [ghNotifVmExited, ReadM.val_bind]
  split
  · exact ⟨rfl, .inl rfl⟩
  · exact ⟨rfl, .inr (by decide : GH_RM_VM_STATUS_EXITED ≠ GH_RM_VM_STATUS_RUNNING)⟩

/-- A notification does not write `RUNNING`. -/
theorem statusTest_ne {vm : GhVm} {p : List Byte} {st : BitVec 8} (h : (ghNotifVmStatusTest vm).val p = some st) :
    st ≠ GH_RM_VM_STATUS_RUNNING := by
  rw [ghNotifVmStatusTest, ReadM.val_bind] at h
  split at h
  · cases h
  rw [ReadM.val_bind] at h
  split at h
  · rename_i hst
    cases h
    rcases hst.2 with hst | hst <;> · rw [hst]; decide
  · cases h

/-- A step of a thread without `vm_lock`. -/
theorem StartInv.move (h : StartInv s) {k : Nat} (pc : RunPc) (hk : (s.runs k).locked = false)
    (hl : pc.locked = false) (hpc : PcOk s.vm s.starts pc) :
    StartInv { s with runs := Function.update s.runs k pc } where
  held := h.vmLock.move (hl.trans hk.symm)
  pc := (Function.forall_update_iff s.runs fun _ pc => PcOk s.vm s.starts pc).mpr ⟨hpc, fun j _ => h.pc j⟩
  tested := (Function.forall_update_iff s.runs fun j pc => pc = .start → s.tested j = some GH_RM_VM_STATUS_READY).mpr
    ⟨fun hstart => absurd hl (by simp [hstart, RunPc.locked]), fun j _ => h.tested j⟩
  first := h.first
  running := h.running
  notifs := h.notifs
  once := h.once
  good := h.good

/-- A thread takes `vm_lock`. -/
theorem StartInv.take (h : StartInv s) {k : Nat} (hl : s.lock = none) :
    StartInv { s with
      lock := some (.run k)
      runs := Function.update s.runs k .testRunning
      tested := Function.update s.tested k none } where
  held := h.vmLock.take run_injective hl rfl
  pc := (Function.forall_update_iff s.runs fun _ pc => PcOk s.vm s.starts pc).mpr ⟨trivial, fun j _ => h.pc j⟩
  tested j hj := by
    simp only at hj ⊢
    by_cases e : j = k
    · rw [e, Function.update_self] at hj
      cases hj
    · rw [Function.update_of_ne e] at hj ⊢
      exact h.tested j hj
  first := h.first
  running := h.running
  notifs := h.notifs
  once := h.once
  good := h.good

/-- A step of the thread that has `vm_lock`: it changes the VM, calls
`gh_rm_vm_start`, or releases `vm_lock`. -/
theorem StartInv.owner (h : StartInv s) {k : Nat} {pc₀ : RunPc} (pc : RunPc) (hk : s.runs k = pc₀)
    (hl : pc₀.locked = true) {vm : GhVm} {tested : Nat → Option (BitVec 8)} {starts : List Start}
    (hpc : PcOk vm starts pc) (htested : pc = .start → tested k = some GH_RM_VM_STATUS_READY)
    (hs : Started s.starts → Started starts) (hfirst : vm.vmRunOnce = false → starts = [])
    (hrunning : vm.vmStatus = GH_RM_VM_STATUS_RUNNING → Started starts) (honce : starts.length ≤ 1)
    (hgood : ∀ x ∈ starts, GoodStart x) :
    StartInv { s with
      vm := vm
      lock := if pc₀.locked ∧ ¬ pc.locked then none else s.lock
      runs := Function.update s.runs k pc
      tested := tested
      starts := starts } := by
  have hk' : (s.runs k).locked = true := hk ▸ hl
  have hheld := (h.held k).mp hk'
  exact {
    held := by
      cases hlocked : pc.locked with
      | false =>
        rw [if_pos ⟨hl, by simp⟩]
        exact h.vmLock.release run_injective hheld hlocked
      | true =>
        rw [if_neg (by simp)]
        exact h.vmLock.move (hlocked.trans hk'.symm)
    pc := (Function.forall_update_iff s.runs fun _ pc => PcOk vm starts pc).mpr
      ⟨hpc, fun j hj => pcOk_unlocked (h.vmLock.others run_injective hheld hj) hs (h.pc j)⟩
    tested := (Function.forall_update_iff s.runs fun j pc => pc = .start → tested j = some GH_RM_VM_STATUS_READY).mpr
      ⟨htested, fun j hj e => absurd (h.vmLock.others run_injective hheld hj) (by rw [e]; decide)⟩
    first := hfirst
    running := hrunning
    notifs := h.notifs
    once := honce
    good := hgood }

/-- `StartInv.owner` where only the thread moves, not to the call. -/
theorem StartInv.ownerMove (h : StartInv s) {k : Nat} {pc₀ pc : RunPc} (hk : s.runs k = pc₀)
    (hl : pc₀.locked = true) (hpc : PcOk s.vm s.starts pc) (hne : pc ≠ .start) :
    StartInv { s with
      lock := if pc₀.locked ∧ ¬ pc.locked then none else s.lock
      runs := Function.update s.runs k pc } :=
  h.owner pc hk hl hpc (absurd · hne) id h.first h.running h.once h.good

/-- `gh_rm_vm_start` is called. -/
theorem StartInv.called (h : StartInv s) {k : Nat} (hk : s.runs k = .start) (startRet : Int) :
    StartInv (s.runStep k .start startRet) := by
  obtain ⟨ho, hnil, hv⟩ : PcOk s.vm s.starts .start := hk ▸ h.pc k
  have htested := h.tested k hk
  have hheld : s.lock = some (.run k) := (h.held k).mp (by rw [hk]; rfl)
  obtain ⟨x, hx⟩ : ∃ x : Start, x = ⟨s.lock = some (.run k), s.tested k, s.vm, startRet⟩ := ⟨_, rfl⟩
  have hgood : GoodStart x := by
    rw [hx]
    exact ⟨decide_eq_true hheld, htested, hv⟩
  have hnext : PcOk s.vm (s.starts ++ [x]) (if startRet ≠ 0 then .idle else .setRunning) := by
    split
    · trivial
    · rename_i hret
      exact ⟨x, by simp, by rw [hx]; exact not_not.mp hret⟩
  have hnone : ¬ Started s.starts := by
    rw [hnil]
    rintro ⟨x, hx, -⟩
    cases hx
  rw [hx] at hnext hgood
  have hne (h : (if startRet ≠ 0 then RunPc.idle else .setRunning) = .start) :
      s.tested k = some GH_RM_VM_STATUS_READY := by
    split at h <;> cases h
  exact h.owner _ hk rfl hnext hne (fun hs => absurd hs hnone) (by simp [ho]) (fun hr => absurd (h.running hr) hnone)
    (by simp [hnil]) (by simp [hnil, hgood])

theorem StartInv.runStep (h : StartInv s) {k : Nat} (startRet : Int) (hi : s.runs k ≠ .idle) (hl : s.runs k ≠ .lock) :
    StartInv (s.runStep k (s.runs k) startRet) := by
  have hpc := h.pc k
  cases hk : s.runs k with
  | idle => exact absurd hk hi
  | lock => exact absurd hk hl
  | testRunning =>
    refine h.ownerMove hk rfl ?_ (by split <;> exact nofun)
    split
    · rename_i hr
      exact h.running hr
    · rename_i hr
      exact hr
  | testRunOnce =>
    rw [hk] at hpc
    unfold StartState.runStep ghVcpuIoctlRun
    by_cases ho : s.vm.vmRunOnce = true ∧ s.vm.vmStatus ≠ GH_RM_VM_STATUS_RUNNING
    · simp only [if_pos ho]
      exact h.ownerMove hk rfl trivial nofun
    · -- the status is still not `RUNNING`, so it is the first thread that gets here
      have hfirst : s.vm.vmRunOnce = false := by
        rw [Bool.eq_false_iff]
        exact fun h => ho ⟨h, hpc⟩
      simp only [if_neg ho]
      exact h.owner .testVcpus hk rfl ⟨rfl, h.first hfirst⟩ nofun id (by simp) h.running h.once h.good
  | testVcpus =>
    rw [hk] at hpc
    refine h.ownerMove hk rfl ?_ (by split <;> exact nofun)
    split
    · trivial
    · rename_i hv
      exact ⟨hpc.1, hpc.2, fun hsec => not_not.mp fun hne => hv ⟨hsec, hne⟩⟩
  | testReady =>
    rw [hk] at hpc
    by_cases hr : s.vm.vmStatus = GH_RM_VM_STATUS_READY
    · unfold StartState.runStep ghVcpuIoctlRun
      simp only [if_neg (not_not.mpr hr)]
      refine h.owner .start hk rfl hpc (fun _ => ?_) id h.first h.running h.once h.good
      rw [Function.update_self, hr]
    · unfold StartState.runStep ghVcpuIoctlRun
      simp only [if_pos hr]
      exact h.owner .idle hk rfl trivial nofun id h.first h.running h.once h.good
  | start => exact h.called hk startRet
  | setRunning =>
    rw [hk] at hpc
    exact h.owner .startVcpuRun hk rfl hpc nofun id h.first (fun _ => hpc) h.once h.good
  | startVcpuRun =>
    rw [hk] at hpc
    exact h.move .run (by rw [hk]; rfl) rfl hpc
  | run => exact h.move .idle (by rw [hk]; rfl) rfl trivial

theorem StartInv.step {act : StartAct} (h : StartInv s) (hst : startStep s act = some t) : StartInv t := by
  cases act with
  | begin k =>
    simp only [startStep, Option.ite_none_right_eq_some, Option.some.injEq] at hst
    obtain ⟨hk, rfl⟩ := hst
    exact h.move .lock (by rw [hk]; rfl) rfl trivial
  | run k size r =>
    simp only [startStep] at hst
    split at hst
    · cases hst
    · simp only [Option.ite_none_right_eq_some, Option.some.injEq] at hst
      obtain ⟨hl, rfl⟩ := hst
      exact h.take hl
    · cases hst
      exact h.runStep _ (by assumption) (by assumption)
  | status k p =>
    simp only [startStep, Option.ite_none_right_eq_some, Option.some.injEq] at hst
    obtain ⟨-, rfl⟩ := hst
    exact { h with
      notifs := (Function.forall_update_iff s.notifs fun _ x => ∀ st, x = some st → st ≠ GH_RM_VM_STATUS_RUNNING).mpr
        ⟨fun st hst => statusTest_ne hst, fun j _ => h.notifs j⟩ }
  | statusWrite k =>
    simp only [startStep, Option.map_eq_some_iff] at hst
    obtain ⟨st, hk, rfl⟩ := hst
    have hne := h.notifs k st hk
    exact { h with
      pc := fun j => pcOk_status hne (h.pc j)
      running := fun hr => absurd hr hne
      notifs := (Function.forall_update_iff s.notifs fun _ x => ∀ st, x = some st → st ≠ GH_RM_VM_STATUS_RUNNING).mpr
        ⟨nofun, fun j _ => h.notifs j⟩ }
  | exited p =>
    simp only [startStep, Option.ite_none_right_eq_some, Option.some.injEq] at hst
    obtain ⟨hl, rfl⟩ := hst
    exact h.change (by simp [hl]) (exited_change s.vm p).1 (exited_change s.vm p).2
  | lock =>
    simp only [startStep, Option.ite_none_right_eq_some, Option.some.injEq] at hst
    obtain ⟨hl, rfl⟩ := hst
    exact { h with held := h.vmLock.outside (by simp [hl]) nofun }
  | write w =>
    simp only [startStep, Option.ite_none_right_eq_some, Option.some.injEq] at hst
    obtain ⟨hl, rfl⟩ := hst
    exact h.change (by simp [hl]) (apply_runOnce s.vm w) (apply_status s.vm w)
  | unlock =>
    simp only [startStep, Option.ite_none_right_eq_some, Option.some.injEq] at hst
    obtain ⟨hl, rfl⟩ := hst
    exact { h with held := h.vmLock.outside (by simp [hl]) nofun }

/-- A VM is started once at most, and only when it is ready. -/
theorem started_once (as : List StartAct) : Always startStep StartedOnce .init as := by
  intro bs cs t _ hex
  exact (inv_exec (fun _ _ _ h hst => h.step hst) StartInv.init hex).startedOnce

end GH.Proof.Vm
