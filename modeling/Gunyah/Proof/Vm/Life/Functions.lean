import Gunyah.Proof.Vm.Life.Inv

/-!
# The functions that work on a VM

A step of each function is looked at on its own: it asks for one thing at most, in turn, and the thread knows
behind it what it has to (`Good`). A request that fails leaves the VM in its stage, one that succeeds takes it to the
next (`Good.request`). The loader's steps include those of `gh_vm_configure` (`configure_good`), those of the
destruction the ones of `gh_exit_vm` and of `gh_vm_cleanup` (`exitVm_good`, `cleanup_good`).
-/

namespace GH.Proof.Life

open GH.Impl.Rm GH.Impl.Main GH.Impl.Life GH.Spec.Life
open GH.Impl.Vm (SecVm SecVmDev)

/-- What a step of a thread has to keep. -/
structure Good (b : Book) (es : List Event) (vm : GhVm) (pc : Pc) : Prop where
  one : es = [] ∨ ∃ e, es = [e]
  inTurn : ∀ e ∈ es, b.inTurn e
  ok : PcOk (es.foldl Book.after b) vm pc
  quiet : between pc = false → Quiet (es.foldl Book.after b) vm

/-- A thread that has yet to write the status does not rely on it. -/
theorem not_at_rest {pc : Pc} {P : Prop} (h : between pc = true) : between pc = false → P :=
  fun h' => absurd (h.symm.trans h') Bool.noConfusion

/-- Nothing is asked. -/
theorem Good.still {b : Book} {vm : GhVm} {pc : Pc} (hpc : PcOk b vm pc) (hq : between pc = false → Quiet b vm) :
    Good b [] vm pc :=
  ⟨.inl rfl, fun _ h => absurd h List.not_mem_nil, hpc, hq⟩

theorem Good.ask {b : Book} {e : Event} {vm : GhVm} {pc : Pc} (he : b.inTurn e) (hpc : PcOk (b.after e) vm pc)
    (hq : between pc = false → Quiet (b.after e) vm) : Good b [e] vm pc :=
  ⟨.inr ⟨e, rfl⟩, fun _ h => List.mem_singleton.mp h ▸ he, hpc, hq⟩

/-- An error leaves the stage as it is. -/
theorem Good.refused {b : Book} {e : Event} {vm : GhVm} {pc : Pc} (he : b.inTurn e) (hb : b.after e = b)
    (hpc : PcOk b vm pc) (hq : between pc = false → Quiet b vm) : Good b [e] vm pc :=
  .ask he (hb.symm ▸ hpc) (hb.symm ▸ hq)

/-- A request that takes the VM to its next stage if it succeeds, and leaves it where it is otherwise. -/
theorem Good.request {b : Book} {v : NamedVm} {r : Req} {ret : Int} {next fail : Pc}
    (hin : ∀ ok, b.inTurn (.ask r v.vm.vmid ok)) (hnext : PcOk (b.after (.ask r v.vm.vmid true)) v.vm next)
    (hmid : between next = true) (hb : b.after (.ask r v.vm.vmid false) = b) (hfail : PcOk b v.vm fail)
    (hq : Quiet b v.vm) : Good b (v.ask r ret) v.vm (if ret ≠ 0 then fail else next) := by
  by_cases hr : ret = 0
  · rw [NamedVm.ask, decide_eq_true hr, if_neg (not_not.mpr hr)]
    exact .ask (hin true) hnext (not_at_rest hmid)
  · rw [NamedVm.ask, decide_eq_false hr, if_pos hr]
    exact .refused (hin false) hb hfail fun _ => hq

/-! ## What a status tells -/

theorem ready_of_shown {σ : Stage} (h : GH_RM_VM_STATUS_READY ∈ shown σ) : σ = .ready := by
  revert h
  cases σ <;> decide

theorem running_of_shown {σ : Stage} (h : GH_RM_VM_STATUS_RUNNING ∈ shown σ) : σ = .running ∨ σ = .exited := by
  revert h
  cases σ <;> decide

theorem ne_reset_of_shown {σ : Stage} {status : BitVec 8} (h : status ∈ shown σ) : status ≠ GH_RM_VM_STATUS_RESET := by
  rintro rfl
  revert h
  cases σ <;> decide

/-- A VM that is at rest is not on its way out. -/
theorem unreset_of_shown {σ : Stage} {status : BitVec 8} (h : status ∈ shown σ) : σ ∉ [.resetting, .reset, .gone] := by
  cases σ with
  | resetting | reset | gone => cases h
  | _ => decide

/-! ## `GH_VM_SET_FW_NAME` -/

/-- The step is one of `gh_vm_configure`. -/
def inConfigure : LoadPc → Bool
  | .configImage | .setAuth | .authImage | .setInit | .vmInit | .waitReady | .populate | .allowVcpus _ => true
  | _ => false

theorem configure_good {devs : SecVm → Option SecVmDev} {name : SecVm} {a : Answer} {b : Book} {v v' : NamedVm}
    {p pc : LoadPc} {es : List Event} (hp : inConfigure p = true)
    (hgo : ghVmIoctlSetFwName devs name a v p = some (v', pc, es))
    (hpc : LoadOk b v.vm p) (hq : between (.load name p) = false → Quiet b v.vm) :
    Good b es v'.vm (.load name pc) := by
  cases p with
  | configImage =>
    have hs : b.stage = .loaded := hpc
    have hv := (hq rfl).vmid_at hs Stage.noConfusion
    cases hgo
    rw [apply_ite (Pc.load name)]
    exact .request (fun _ => ⟨hv, hs⟩) ⟨rfl, hv⟩ rfl rfl trivial (hq rfl)
  | setAuth =>
    have hquiet : Quiet b (v.setStatus GH_RM_VM_STATUS_AUTH).vm := quiet_of_stage hpc.1 (List.mem_singleton.mpr rfl) hpc.2
    simp only [ghVmIoctlSetFwName] at hgo
    split_ifs at hgo <;> cases hgo
    · exact .still trivial fun _ => hquiet
    · exact .still hpc.1 fun _ => hquiet
  | authImage =>
    have hs : b.stage = .configured := hpc
    have hv := (hq rfl).vmid_at hs Stage.noConfusion
    cases hgo
    rw [apply_ite (Pc.load name)]
    exact .request (fun _ => ⟨hv, hs⟩) ⟨rfl, hv⟩ rfl rfl trivial (hq rfl)
  | setInit =>
    cases hgo
    exact .still hpc.1 fun _ => quiet_of_stage hpc.1 (List.mem_singleton.mpr rfl) hpc.2
  | vmInit =>
    have hs : b.stage = .authed := hpc
    have hv := (hq rfl).vmid_at hs Stage.noConfusion
    have hst := (hq rfl).shown
    rw [hs] at hst
    cases hgo
    rw [apply_ite (Pc.load name)]
    exact .request (fun _ => ⟨hv, hs⟩) ⟨hv, .inl ⟨rfl, List.mem_singleton.mp hst⟩⟩ rfl rfl trivial (hq rfl)
  | waitReady =>
    simp only [ghVmIoctlSetFwName] at hgo
    split_ifs at hgo with hst
    cases hgo
    obtain ⟨hv, ⟨-, hi⟩ | ⟨hs, -⟩⟩ := hpc
    · exact absurd (hst.symm.trans hi) (by decide)
    · exact .still hs fun _ => quiet_of_stage hs (List.mem_singleton.mpr hst) hv
  | populate =>
    have hs : b.stage = .ready := hpc
    have hv := (hq rfl).vmid_at hs Stage.noConfusion
    simp only [ghVmIoctlSetFwName] at hgo
    split_ifs at hgo <;> cases hgo <;> exact .refused ⟨hv, hs⟩ rfl trivial fun _ => hq rfl
  | allowVcpus ret =>
    simp only [ghVmIoctlSetFwName] at hgo
    split at hgo <;> cases hgo
    · exact .still trivial fun _ => (hq rfl).congr rfl rfl
    · exact .still trivial fun _ => hq rfl
  | _ => cases hp

theorem load_good {devs : SecVm → Option SecVmDev} {name : SecVm} {a : Answer} {b : Book} {v v' : NamedVm}
    {p pc : LoadPc} {es : List Event} (hgo : ghVmIoctlSetFwName devs name a v p = some (v', pc, es))
    (hpc : LoadOk b v.vm p) (hq : between (.load name p) = false → Quiet b v.vm) :
    Good b es v'.vm (.load name pc) := by
  cases p with
  | lock | unlock => cases hgo
  | testName =>
    simp only [ghVmIoctlSetFwName] at hgo
    split_ifs at hgo <;> cases hgo <;> exact .still trivial fun _ => hq rfl
  | allocVmid =>
    have hin := unreset_of_shown (hq rfl).shown
    simp only [ghVmIoctlSetFwName] at hgo
    split_ifs at hgo <;> cases hgo
    · exact .refused hin rfl trivial fun _ => hq rfl
    · exact .ask hin ⟨rfl, rfl⟩ (not_at_rest rfl)
  | setLoad vmid =>
    cases hgo
    exact .still ⟨hpc.1, hpc.2, rfl⟩ (not_at_rest rfl)
  | setVmid vmid =>
    cases hgo
    obtain ⟨hs, rfl, hst⟩ := hpc
    exact .still hs fun _ => quiet_of_stage hs (List.mem_singleton.mpr hst) rfl
  | provideMem =>
    simp only [ghVmIoctlSetFwName] at hgo
    split_ifs at hgo <;> cases hgo
    · exact .still trivial fun _ => hq rfl
    · exact .still trivial fun _ => hq rfl
    · exact .still hpc fun _ => hq rfl
  | setSecure =>
    cases hgo
    exact .still hpc fun _ => (hq rfl).congr rfl rfl
  | provideShmem ret =>
    simp only [ghVmIoctlSetFwName] at hgo
    split_ifs at hgo <;> cases hgo <;> exact .still trivial fun _ => hq rfl
  | setName =>
    cases hgo
    exact .still trivial fun _ => hq rfl
  | configImage | setAuth | authImage | setInit | vmInit | waitReady | populate | allowVcpus =>
    exact configure_good rfl hgo hpc hq

/-! ## `gh_vcpu_ioctl_run` -/

theorem pcOk_run {b : Book} {vm : GhVm} {pc : RunPc} (h : RunOk b vm pc) : PcOk b vm (.ofRun pc) := by
  cases pc <;> exact h

theorem run_good {a : Answer} {b : Book} {v : NamedVm} {p : RunPc} (hl : p.locked = true) (hpc : RunOk b v.vm p)
    (hq : between (.run p) = false → Quiet b v.vm) :
    Good b (runLog a v p) (ghVcpuIoctlRun v.vm a.ret p).1 (.ofRun (ghVcpuIoctlRun v.vm a.ret p).2) := by
  cases p with
  | idle | lock | startVcpuRun | run => cases hl
  | testRunning =>
    refine .still (pcOk_run ?_) fun _ => hq rfl
    simp only [ghVcpuIoctlRun]
    split <;> trivial
  | testRunOnce =>
    simp only [ghVcpuIoctlRun]
    split
    · exact .still trivial fun _ => hq rfl
    · exact .still trivial fun _ => (hq rfl).congr rfl rfl
  | testVcpus =>
    refine .still (pcOk_run ?_) fun _ => hq rfl
    simp only [ghVcpuIoctlRun]
    split <;> trivial
  | testReady =>
    refine .still (pcOk_run ?_) fun _ => hq rfl
    simp only [ghVcpuIoctlRun]
    split
    · trivial
    · rename_i hst
      exact ready_of_shown (not_not.mp hst ▸ (hq rfl).shown)
  | start =>
    have hs : b.stage = .ready := hpc
    have hv := (hq rfl).vmid_at hs Stage.noConfusion
    simp only [ghVcpuIoctlRun, runLog]
    rw [apply_ite Pc.ofRun]
    exact .request (fun _ => ⟨hv, hs⟩) ⟨hv, .inl rfl⟩ rfl rfl trivial (hq rfl)
  | setRunning =>
    refine .still trivial fun _ => ⟨?_, fun _ => hpc.1⟩
    rcases hpc.2 with hs | hs <;> rw [hs] <;> exact List.mem_cons.mpr (.inl rfl)

/-! ## `gh_destroy_vm` -/

theorem cleanup_ok {b : Book} {vm : GhVm} (hq : Quiet b vm) (htried : vm.vmStatus = GH_RM_VM_STATUS_RUNNING → b.stopTried) :
    DestroyOk b vm (ghVmCleanup vm.vmStatus) := by
  have hst := hq.shown
  have hne := ne_reset_of_shown hst
  cases hs : b.stage <;> rw [hs] at hst <;> simp only [shown, List.mem_cons, List.not_mem_nil, or_false] at hst
  · rw [hst]
    exact .inl hs
  · rw [hst]
    exact ⟨hq.vmid_at hs Stage.noConfusion, by simp [Book.allows, hs]⟩
  · rw [hst]
    exact ⟨⟨hq.vmid_at hs Stage.noConfusion, hne⟩, by simp [Book.allows, hs]⟩
  · rw [hst]
    exact ⟨⟨hq.vmid_at hs Stage.noConfusion, hne⟩, by simp [Book.allows, hs]⟩
  · rw [hst]
    exact ⟨⟨hq.vmid_at hs Stage.noConfusion, hne⟩, .inl hs⟩
  · rw [hst]
    exact ⟨⟨hq.vmid_at hs Stage.noConfusion, hne⟩, .inr (.inr ⟨hs, htried hst⟩)⟩
  · rcases hst with hst | hst <;> rw [hst] <;> exact ⟨⟨hq.vmid_at hs Stage.noConfusion, hne⟩, .inr (.inl hs)⟩

/-- The step is one of `gh_exit_vm`. -/
def inExitVm : DestroyPc → Bool
  | .exitVm _ | .testRunning _ | .vmStop _ | .waitExited => true
  | _ => false

theorem exitVm_good {a : Answer} {b : Book} {v v' : NamedVm} {p pc : DestroyPc} {es : List Event}
    (hp : inExitVm p = true) (hgo : ghDestroyVm a v p = some (v', pc, es)) (hpc : DestroyOk b v.vm p)
    (hq : between (.destroy p) = false → Quiet b v.vm) : Good b es v'.vm (.destroy pc) := by
  cases p with
  | exitVm again =>
    cases hgo
    split
    · rename_i hv
      refine .still (fun hst => .inr ?_) fun _ => hq rfl
      have hs := running_of_shown (hst ▸ (hq rfl).shown)
      have hne : b.stage ≠ .unknown := by rcases hs with e | e <;> rw [e] <;> exact Stage.noConfusion
      exact ((hq rfl).vmid hne).symm.trans hv
    · exact .still hpc fun _ => hq rfl
  | testRunning again =>
    cases hgo
    split
    · rename_i hst
      exact .still (fun e => absurd e hst) fun _ => hq rfl
    · rename_i hst
      exact .still ⟨hpc, running_of_shown (not_not.mp hst ▸ (hq rfl).shown)⟩ fun _ => hq rfl
  | vmStop again =>
    have hne : b.stage ≠ .unknown := by rcases hpc.2 with e | e <;> rw [e] <;> exact Stage.noConfusion
    have hv : v.vm.vmid = b.vmid := (hq rfl).vmid hne
    cases hgo
    by_cases hr : a.ret = 0
    · simp only [NamedVm.ask, hr]
      exact .ask ⟨hv, hpc.2⟩ trivial fun _ => hq rfl
    · rw [if_neg hr, NamedVm.ask, decide_eq_false hr]
      have hquiet : Quiet { b with refused := true } v.vm := ⟨(hq rfl).shown, (hq rfl).vmid⟩
      split
      · exact .ask ⟨hv, hpc.2⟩ (fun _ => rfl) fun _ => hquiet
      · exact .ask ⟨hv, hpc.2⟩ (fun _ => .inl rfl) fun _ => hquiet
  | waitExited =>
    simp only [ghDestroyVm] at hgo
    split_ifs at hgo with hst
    cases hgo
    exact .still (fun e => absurd (hst.symm.trans e) (by decide)) fun _ => hq rfl
  | _ => cases hp

/-- The step is one of `gh_vm_cleanup`, behind its `switch`. -/
def inCleanup : DestroyPc → Bool
  | .unpopulate | .vmReset | .waitReset | .reclaim | .deallocVmid | .setNoState => true
  | _ => false

theorem cleanup_good {a : Answer} {b : Book} {v v' : NamedVm} {p pc : DestroyPc} {es : List Event}
    (hp : inCleanup p = true) (hgo : ghDestroyVm a v p = some (v', pc, es)) (hpc : DestroyOk b v.vm p) :
    Good b es v'.vm (.destroy pc) := by
  cases p with
  | unpopulate =>
    have hreset : b.allows .vmReset := by
      rcases hpc.2 with hs | hs | hs
      · exact .inl (by simp [hs])
      · exact .inl (by simp [hs])
      · exact .inr hs
    cases hgo
    refine .ask ⟨hpc.1.1, hpc.2⟩ ?_ (not_at_rest rfl)
    cases decide (a.ret = 0) <;> exact ⟨hpc.1, hreset⟩
  | vmReset =>
    cases hgo
    by_cases hr : a.ret = 0
    · simp only [NamedVm.ask, hr]
      exact .ask ⟨hpc.1.1, hpc.2⟩ ⟨hpc.1.1, .inl ⟨rfl, hpc.1.2⟩⟩ (not_at_rest rfl)
    · rw [if_neg hr, NamedVm.ask, decide_eq_false hr]
      refine .refused ⟨hpc.1.1, hpc.2⟩ rfl ⟨hpc.1.1, ?_⟩ (not_at_rest rfl)
      rcases hpc.2 with hs | hs
      · simp only [List.mem_cons, List.not_mem_nil, or_false] at hs
        rcases hs with e | e | e | e <;> simp [Book.allows, e]
      · simp [Book.allows, hs.1]
  | waitReset =>
    simp only [ghDestroyVm] at hgo
    split_ifs at hgo with hst
    cases hgo
    obtain ⟨hv, ⟨-, hne⟩ | hs⟩ := hpc
    · exact absurd hst hne
    · exact .still ⟨hv, by simp [Book.allows, hs]⟩ (not_at_rest rfl)
  | reclaim =>
    cases hgo
    exact .still hpc (not_at_rest rfl)
  | deallocVmid =>
    cases hgo
    exact .ask hpc (.inr rfl) (not_at_rest rfl)
  | setNoState =>
    cases hgo
    exact .still hpc (not_at_rest rfl)
  | _ => cases hp

theorem destroy_good {a : Answer} {b : Book} {v v' : NamedVm} {p pc : DestroyPc} {es : List Event}
    (hgo : ghDestroyVm a v p = some (v', pc, es)) (hpc : DestroyOk b v.vm p)
    (hq : between (.destroy p) = false → Quiet b v.vm) : Good b es v'.vm (.destroy pc) := by
  cases p with
  | lock | clean => cases hgo
  | testNoState =>
    cases hgo
    split
    · rename_i hst
      have hs := hst ▸ (hq rfl).shown
      refine .still (.inl ?_) (not_at_rest rfl)
      revert hs
      cases b.stage <;> decide
    · exact .still (fun e => absurd e Bool.false_ne_true) fun _ => hq rfl
  | destroyVcpus =>
    cases hgo
    exact .still hpc fun _ => (hq rfl).congr rfl rfl
  | cleanup =>
    cases hgo
    exact .still (cleanup_ok (hq rfl) hpc) fun _ => hq rfl
  | exitVm | testRunning | vmStop | waitExited => exact exitVm_good rfl hgo hpc hq
  | unpopulate | vmReset | waitReset | reclaim | deallocVmid | setNoState => exact cleanup_good rfl hgo hpc

/-- `vm_lock` is taken nowhere but in the wait for it. -/
theorem destroy_locked {a : Answer} {v v' : NamedVm} {p pc : DestroyPc} {es : List Event}
    (hgo : ghDestroyVm a v p = some (v', pc, es)) : p.locked = true ∨ pc.locked = false := by
  cases p with
  | testRunning | vmStop => exact .inl rfl
  | lock | clean => cases hgo
  | cleanup =>
    cases hgo
    unfold ghVmCleanup
    split_ifs <;> exact .inr rfl
  | waitExited | waitReset =>
    simp only [ghDestroyVm] at hgo
    split_ifs at hgo
    cases hgo
    exact .inr rfl
  | testNoState | exitVm | vmReset =>
    cases hgo
    split <;> exact .inr rfl
  | _ =>
    cases hgo
    exact .inr rfl

end GH.Proof.Life
