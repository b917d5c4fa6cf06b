import Gunyah.Framework.Lock
import Gunyah.Proof.Vm.Life.Log

/-!
# What the threads of a VM know

Where no thread is between a request and the write of the status that goes with it (`between`), the
status of the VM tells the stage that the RM has it in (`Quiet`); a thread that is between them, or that
is past a test of the status, knows the stage by where it is (`PcOk`). `LifeInv` says so of all threads. What the
step of a thread does to the others is looked at once for each kind of thread (`LifeInv.file`, `LifeInv.destroy`,
`LifeInv.notif`).
-/

namespace GH.Proof.Life

open GH.Impl.Rm GH.Impl.Main GH.Impl.Life GH.Spec.Life

/-- The statuses of a VM that the RM has in this stage, where no thread is at work on it. -/
def shown : Stage → List (BitVec 8)
  | .unknown => [GH_RM_VM_STATUS_NO_STATE]
  | .loaded => [GH_RM_VM_STATUS_LOAD]
  | .configured => [GH_RM_VM_STATUS_AUTH]
  | .authed => [GH_RM_VM_STATUS_INIT]
  | .ready => [GH_RM_VM_STATUS_READY]
  | .running => [GH_RM_VM_STATUS_RUNNING]
  | .exited => [GH_RM_VM_STATUS_RUNNING, GH_RM_VM_STATUS_EXITED]
  | _ => []

/-- The thread is between a request and the status that goes with it, or destroys the VM. -/
def between : Pc → Bool
  | .load _ (.setLoad _) | .load _ (.setVmid _) | .load _ .setAuth | .load _ .setInit | .load _ .waitReady
  | .run .setRunning | .destroy .unpopulate | .destroy .vmReset | .destroy .waitReset | .destroy .reclaim
  | .destroy .deallocVmid | .destroy .setNoState | .destroy .clean => true
  | _ => false

/-- Between the calls, the status and the VMID of the VM agree with what it has been asked for. -/
structure Quiet (b : Book) (vm : GhVm) : Prop where
  shown : vm.vmStatus ∈ shown b.stage
  vmid : b.stage ≠ .unknown → vm.vmid = b.vmid

/-- What holds where a thread loads the VM. -/
def LoadOk (b : Book) (vm : GhVm) : LoadPc → Prop
  | .setLoad vmid => b.stage = .loaded ∧ b.vmid = vmid
  | .setVmid vmid => b.stage = .loaded ∧ b.vmid = vmid ∧ vm.vmStatus = GH_RM_VM_STATUS_LOAD
  | .provideMem | .setSecure | .configImage => b.stage = .loaded
  | .setAuth => b.stage = .configured ∧ vm.vmid = b.vmid
  | .authImage => b.stage = .configured
  | .setInit => b.stage = .authed ∧ vm.vmid = b.vmid
  | .vmInit => b.stage = .authed
  | .waitReady =>
    vm.vmid = b.vmid ∧
      (b.stage = .inited ∧ vm.vmStatus = GH_RM_VM_STATUS_INIT ∨
        b.stage = .ready ∧ vm.vmStatus ∈ [GH_RM_VM_STATUS_INIT, GH_RM_VM_STATUS_READY])
  | .populate => b.stage = .ready
  | _ => True

/-- What holds where a thread runs a vCPU. -/
def RunOk (b : Book) (vm : GhVm) : RunPc → Prop
  | .start => b.stage = .ready
  | .setRunning => vm.vmid = b.vmid ∧ (b.stage = .running ∨ b.stage = .exited)
  | _ => True

/-- The VM has exited, and is not loaded again. -/
def Late (σ : Stage) : Prop := σ ∈ [.exited, .resetting, .reset, .gone]

/-- What holds where a notification is taken up. -/
def NotifOk (b : Book) (vm : GhVm) : NotifPc → Prop
  | .writeStatus status =>
    status = GH_RM_VM_STATUS_READY ∧ b.stage = .ready ∧ vm.vmStatus = GH_RM_VM_STATUS_INIT ∨
      status = GH_RM_VM_STATUS_RESET ∧ b.stage ∈ [.reset, .gone]
  | .lock _ | .writeExitType _ | .writeExited => Late b.stage

/-- What holds where the VM is destroyed. -/
def DestroyOk (b : Book) (vm : GhVm) : DestroyPc → Prop
  | .exitVm again | .lock again | .testRunning again => again = true → b.refused = true
  | .vmStop again => (again = true → b.refused = true) ∧ (b.stage = .running ∨ b.stage = .exited)
  | .destroyVcpus | .cleanup => vm.vmStatus = GH_RM_VM_STATUS_RUNNING → b.stopTried
  | .unpopulate => (vm.vmid = b.vmid ∧ vm.vmStatus ≠ GH_RM_VM_STATUS_RESET) ∧ b.allows .unpopulateHypRes
  | .vmReset => (vm.vmid = b.vmid ∧ vm.vmStatus ≠ GH_RM_VM_STATUS_RESET) ∧ b.allows .vmReset
  | .waitReset =>
    vm.vmid = b.vmid ∧ (b.stage = .resetting ∧ vm.vmStatus ≠ GH_RM_VM_STATUS_RESET ∨ b.stage = .reset)
  | .reclaim | .deallocVmid => vm.vmid = b.vmid ∧ b.allows .deallocVmid
  | .setNoState | .clean => b.stage = .unknown ∨ b.stage = .gone
  | .testNoState | .waitExited => True

/-- What holds where a thread is. -/
def PcOk (b : Book) (vm : GhVm) : Pc → Prop
  | .idle => True
  | .run pc => RunOk b vm pc
  | .load _ pc => LoadOk b vm pc
  | .notif pc => NotifOk b vm pc
  | .destroy pc => DestroyOk b vm pc

/-- The thread is going to write `READY`. -/
def writesReady : Pc → Prop
  | .notif pc => pc = .writeStatus GH_RM_VM_STATUS_READY
  | _ => False

/-- The thread destroys the VM. -/
def destroys : Pc → Bool
  | .destroy _ => true
  | _ => false

/-- The VMID is known as soon as there is one. -/
theorem Quiet.vmid_at {b : Book} {vm : GhVm} {σ : Stage} (h : Quiet b vm) (hs : b.stage = σ) (hσ : σ ≠ .unknown) :
    vm.vmid = b.vmid :=
  h.vmid fun e => hσ (hs.symm.trans e)

theorem quiet_of_stage {b : Book} {vm : GhVm} {σ : Stage} (hs : b.stage = σ) (hst : vm.vmStatus ∈ shown σ)
    (hv : vm.vmid = b.vmid) : Quiet b vm :=
  ⟨by rwa [hs], fun _ => hv⟩

theorem Quiet.congr {b : Book} {vm vm' : GhVm} (h : Quiet b vm) (hst : vm'.vmStatus = vm.vmStatus)
    (hv : vm'.vmid = vm.vmid) : Quiet b vm' :=
  ⟨hst ▸ h.shown, fun hs => hv.trans (h.vmid hs)⟩

theorem pcOk_congr {b : Book} {vm vm' : GhVm} {pc : Pc} (hst : vm'.vmStatus = vm.vmStatus) (hv : vm'.vmid = vm.vmid)
    (h : PcOk b vm pc) : PcOk b vm' pc := by
  cases vm
  cases vm'
  dsimp only at hst hv
  subst hst hv
  cases pc with
  | idle => trivial
  | run pc => cases pc <;> exact h
  | load name pc => cases pc <;> exact h
  | notif pc => cases pc <;> exact h
  | destroy pc => cases pc <;> exact h

variable {n : Nat} {s t : VmLife n} {k : Fin n}

/-- What every step keeps: the requests are in order, each thread is where what has been asked allows it, and a
`READY` is on its way only to a load that waits for it. -/
structure LifeInv (s : VmLife n) : Prop where
  held : Lock.Held id Pc.locked s.lock s.threads
  log : LogOk s.log
  pc : ∀ k, PcOk (book s.log) s.v.vm (s.threads k)
  quiet : s.freed = false → (∀ k, between (s.threads k) = false) → Quiet (book s.log) s.v.vm
  waited : ∀ j, writesReady (s.threads j) → ∃ k name, s.threads k = .load name .waitReady
  unique : ∀ i j, writesReady (s.threads i) → writesReady (s.threads j) → i = j
  files : s.closed = true → ∀ k, (s.threads k).inFile = false
  closed : ∀ k, destroys (s.threads k) = true → s.closed = true
  one : ∀ j k, destroys (s.threads j) = true → destroys (s.threads k) = true → j = k
  freed : s.freed = true → s.closed = true ∧ (book s.log).stage ∈ [.unknown, .gone] ∧ ∀ k, s.threads k = .idle

theorem LifeInv.init : LifeInv ({} : VmLife n) where
  held k := iff_of_false Bool.false_ne_true nofun
  log := .nil
  pc k := trivial
  quiet _ _ := ⟨List.mem_singleton.mpr rfl, fun h => absurd rfl h⟩
  waited j h := h.elim
  unique i j h := h.elim
  files h := by cases h
  closed k h := by cases h
  one j k h := by cases h
  freed h := by cases h

theorem LifeInv.alive (h : LifeInv s) (hk : s.threads k ≠ .idle) : s.freed = false := by
  rw [Bool.eq_false_iff]
  exact fun hf => hk ((h.freed hf).2.2 k)

theorem LifeInv.unfreed (h : LifeInv s) (hc : s.closed = false) : s.freed = false := by
  rw [Bool.eq_false_iff]
  intro hf
  rw [(h.freed hf).1] at hc
  cases hc

theorem LifeInv.opened (h : LifeInv s) (hk : (s.threads k).inFile = true) : s.closed = false := by
  rw [Bool.eq_false_iff]
  intro hc
  rw [h.files hc k] at hk
  cases hk

/-- While a file is open, no thread destroys the VM. -/
theorem LifeInv.undestroyed (h : LifeInv s) (hc : s.closed = false) (j : Fin n) : destroys (s.threads j) = false := by
  rw [Bool.eq_false_iff]
  intro hd
  rw [h.closed j hd] at hc
  cases hc

/-- Once the files are closed, no thread is going to write `READY`. -/
theorem LifeInv.unready (h : LifeInv s) (hc : s.closed = true) (j : Fin n) : ¬ writesReady (s.threads j) := by
  intro hw
  obtain ⟨k, name, hk⟩ := h.waited j hw
  have := h.files hc k
  rw [hk] at this
  cases this

/-- A thread without `vm_lock` knows nothing, unless it is in a notification or destroys the VM. -/
theorem pcOk_away {b : Book} {vm : GhVm} {pc : Pc} (hl : pc.locked = false) (hn : pc.inNotif = false)
    (hd : destroys pc = false) : PcOk b vm pc := by
  cases pc with
  | idle => trivial
  | run pc => cases pc <;> trivial
  | load name pc => cases pc <;> trivial
  | notif pc => cases hn
  | destroy pc => cases hd

theorem not_writesReady {pc : Pc} (hn : pc.inNotif = false) : ¬ writesReady pc := by
  cases pc <;> first | exact id | cases hn

/-- A notification that does not write `READY` relies on how late it is. -/
theorem notif_keep {b b' : Book} {vm vm' : GhVm} {pc : Pc} (hn : pc.inNotif = true) (hw : ¬ writesReady pc)
    (hlate : Late b.stage → Late b'.stage) (hreset : b.stage ∈ [.reset, .gone] → b'.stage ∈ [.reset, .gone])
    (h : PcOk b vm pc) : PcOk b' vm' pc := by
  cases pc with
  | notif pc =>
    cases pc with
    | writeStatus status =>
      obtain ⟨rfl, -, -⟩ | ⟨rfl, hs⟩ := h
      · exact absurd rfl hw
      · exact .inr ⟨rfl, hreset hs⟩
    | lock | writeExitType | writeExited => exact hlate h
  | _ => cases hn

/-- A thread goes on, and releases `vm_lock` where it ends the section. -/
theorem held_go {lock : Option (Fin n)} {pcs : Fin n → Pc} {pc : Pc} (h : Lock.Held id Pc.locked lock pcs)
    (hpc : (pcs k).locked = true ∨ pc.locked = false) :
    Lock.Held id Pc.locked (if (pcs k).locked ∧ ¬ pc.locked then none else lock) (Function.update pcs k pc) := by
  split
  · rename_i hl
    exact h.release Function.injective_id ((h k).mp hl.1) (Bool.not_eq_true _ ▸ hl.2)
  · rename_i hl
    refine h.move ?_
    rcases hpc with hp | hp
    · cases hpc : pc.locked with
      | false => exact absurd ⟨hp, by rw [hpc]; nofun⟩ hl
      | true => exact hp.symm
    · rw [hp]
      exact (Bool.eq_false_iff.mpr fun hf => hl ⟨hf, by rw [hp]; nofun⟩).symm

/-- A call on a file goes on under `vm_lock`. -/
theorem LifeInv.file (h : LifeInv s) {pc : Pc} {v : NamedVm} {es : List Event} (hk : (s.threads k).inFile = true)
    (hl : (s.threads k).locked = true) (hn : pc.inNotif = false) (hd : destroys pc = false)
    (hw : ∀ j, ¬ writesReady (s.threads j)) (hlog : LogOk (s.log ++ es))
    (hlate : Late (book s.log).stage → Late (book (s.log ++ es)).stage)
    (hreset : (book s.log).stage ∈ [.reset, .gone] → (book (s.log ++ es)).stage ∈ [.reset, .gone])
    (hpc : PcOk (book (s.log ++ es)) v.vm pc)
    (hquiet : between pc = false → Quiet (book (s.log ++ es)) v.vm) :
    LifeInv { s.at k pc with
      v := v
      lock := if (s.threads k).locked ∧ ¬ pc.locked then none else s.lock
      log := s.log ++ es } := by
  have hopen := h.opened hk
  have hwrites : ∀ j, ¬ writesReady (Function.update s.threads k pc j) :=
    (Function.forall_update_iff s.threads fun _ pc => ¬ writesReady pc).mpr ⟨not_writesReady hn, fun j _ => hw j⟩
  have hdestroys : ∀ j, destroys (Function.update s.threads k pc j) = false :=
    (Function.forall_update_iff s.threads fun _ pc => destroys pc = false).mpr
      ⟨hd, fun j _ => h.undestroyed hopen j⟩
  exact {
    held := held_go h.held (.inl hl)
    log := hlog
    pc := by
      refine (Function.forall_update_iff s.threads fun _ pc => PcOk (book (s.log ++ es)) v.vm pc).mpr
        ⟨hpc, fun j hj => ?_⟩
      have hlj := h.held.others Function.injective_id ((h.held k).mp hl) hj
      cases hnj : (s.threads j).inNotif with
      | false => exact pcOk_away hlj hnj (h.undestroyed hopen j)
      | true => exact notif_keep hnj (hw j) hlate hreset (h.pc j)
    quiet := fun _ hb => hquiet (by simpa [VmLife.at] using hb k)
    waited := fun j hj => absurd hj (hwrites j)
    unique := fun i j hi => absurd hi (hwrites i)
    files := fun hc => absurd hc (by simp [VmLife.at, hopen])
    closed := fun j hj => absurd hj (by simp [VmLife.at, hdestroys j])
    one := fun i j hi => absurd hi (by simp [VmLife.at, hdestroys i])
    freed := fun hf => absurd hf (by simp [VmLife.at, h.alive (k := k) (by rintro e; rw [e] at hk; cases hk)]) }

/-- The thread that destroys the VM goes on. -/
theorem LifeInv.destroy (h : LifeInv s) {p pc : DestroyPc} {v : NamedVm} {es : List Event}
    (hk : s.threads k = .destroy p) (hl : p.locked = true ∨ pc.locked = false) (hlog : LogOk (s.log ++ es))
    (hlate : Late (book s.log).stage → Late (book (s.log ++ es)).stage)
    (hreset : (book s.log).stage ∈ [.reset, .gone] → (book (s.log ++ es)).stage ∈ [.reset, .gone])
    (hpc : DestroyOk (book (s.log ++ es)) v.vm pc)
    (hquiet : between (.destroy pc) = false → Quiet (book (s.log ++ es)) v.vm) :
    LifeInv { s.at k (.destroy pc) with
      v := v
      lock := if (s.threads k).locked ∧ ¬ pc.locked then none else s.lock
      log := s.log ++ es } := by
  have hclosed := h.closed k (by rw [hk]; rfl)
  have hwrites : ∀ j, ¬ writesReady (Function.update s.threads k (.destroy pc) j) :=
    (Function.forall_update_iff s.threads fun _ pc => ¬ writesReady pc).mpr ⟨id, fun j _ => h.unready hclosed j⟩
  have hother : ∀ j, j ≠ k → destroys (s.threads j) = false := by
    intro j hj
    rw [Bool.eq_false_iff]
    exact fun hd => hj (h.one j k hd (by rw [hk]; rfl))
  have hone : ∀ j, destroys (Function.update s.threads k (.destroy pc) j) = true → j = k := by
    intro j hd
    by_contra hj
    rw [Function.update_of_ne hj, hother j hj] at hd
    cases hd
  exact {
    held := @held_go n k s.lock s.threads (.destroy pc) h.held (by rw [hk]; exact hl)
    log := hlog
    pc := by
      refine (Function.forall_update_iff s.threads fun _ pc => PcOk (book (s.log ++ es)) v.vm pc).mpr
        ⟨hpc, fun j hj => ?_⟩
      cases hnj : (s.threads j).inNotif with
      | false =>
        have hfile := h.files hclosed j
        have hd := hother j hj
        cases hpj : s.threads j <;> rw [hpj] at hfile hd hnj <;> trivial
      | true => exact notif_keep hnj (h.unready hclosed j) hlate hreset (h.pc j)
    quiet := fun _ hb => hquiet (by simpa [VmLife.at] using hb k)
    waited := fun j hj => absurd hj (hwrites j)
    unique := fun i j hi => absurd hi (hwrites i)
    files := fun _ => (Function.forall_update_iff s.threads fun _ pc => pc.inFile = false).mpr
      ⟨rfl, fun j _ => h.files hclosed j⟩
    closed := fun _ _ => hclosed
    one := fun i j hi hj => (hone i hi).trans (hone j hj).symm
    freed := fun hf => absurd hf (by simp [VmLife.at, h.alive (k := k) (by rw [hk]; exact Pc.noConfusion)]) }

/-- A notification goes on, or ends. -/
theorem LifeInv.notif (h : LifeInv s) {pc : Pc} {v : NamedVm} (hk : (s.threads k).inNotif = true)
    (hl : (s.threads k).locked = true ∨ pc.locked = false) (hnext : pc.inFile = false ∧ destroys pc = false)
    (hw : ¬ writesReady pc) (hpc : PcOk (book s.log) v.vm pc)
    (hothers : ∀ j, j ≠ k → PcOk (book s.log) v.vm (s.threads j))
    (hquiet : Quiet (book s.log) s.v.vm → Quiet (book s.log) v.vm) :
    LifeInv { s.at k pc with v := v, lock := if (s.threads k).locked ∧ ¬ pc.locked then none else s.lock } := by
  have hold : between (s.threads k) = false ∧ ∀ name, s.threads k ≠ .load name .waitReady := by
    cases hpk : s.threads k with
    | notif => exact ⟨rfl, fun _ => Pc.noConfusion⟩
    | _ => rw [hpk] at hk; cases hk
  have hwrites : ∀ j, writesReady (Function.update s.threads k pc j) → writesReady (s.threads j) :=
    (Function.forall_update_iff s.threads fun j pc => writesReady pc → writesReady (s.threads j)).mpr
      ⟨fun h => absurd h hw, fun _ _ => id⟩
  have hdestroys : ∀ j, destroys (Function.update s.threads k pc j) = true → destroys (s.threads j) = true :=
    (Function.forall_update_iff s.threads fun j pc => destroys pc = true → destroys (s.threads j) = true).mpr
      ⟨fun h => absurd h (by rw [hnext.2]; nofun), fun _ _ => id⟩
  exact {
    held := held_go h.held hl
    log := h.log
    pc := (Function.forall_update_iff s.threads fun _ pc => PcOk (book s.log) v.vm pc).mpr ⟨hpc, hothers⟩
    quiet := by
      refine fun hf hbs => hquiet (h.quiet hf fun j => ?_)
      by_cases hj : j = k
      · exact hj ▸ hold.1
      · simpa [VmLife.at, hj] using hbs j
    waited := by
      intro j hj
      obtain ⟨i, name, hi⟩ := h.waited j (hwrites j hj)
      have hik : i ≠ k := by
        rintro rfl
        exact hold.2 name hi
      exact ⟨i, name, by simpa [VmLife.at, hik] using hi⟩
    unique := fun i j hi hj => h.unique i j (hwrites i hi) (hwrites j hj)
    files := fun hc => (Function.forall_update_iff s.threads fun _ pc => pc.inFile = false).mpr
      ⟨hnext.1, fun j _ => h.files hc j⟩
    closed := fun j hj => h.closed j (hdestroys j hj)
    one := fun i j hi hj => h.one i j (hdestroys i hi) (hdestroys j hj)
    freed := fun hf => absurd hf (by simp [VmLife.at, h.alive (k := k) (by rintro e; rw [e] at hk; cases hk)]) }

/-- A thread goes on without `vm_lock`, or takes it, or is called. -/
theorem LifeInv.move (h : LifeInv s) {pc : Pc} {lock : Option (Fin n)} (hf : s.freed = false)
    (hheld : Lock.Held id Pc.locked lock (Function.update s.threads k pc))
    (hpc : PcOk (book s.log) s.v.vm pc) (hold : between (s.threads k) = false) (hw : ¬ writesReady pc)
    (hfile : pc.inFile = true → s.closed = false) (hd : destroys pc = true → destroys (s.threads k) = true) :
    LifeInv { s.at k pc with lock := lock } := by
  have hwrites : ∀ j, writesReady (Function.update s.threads k pc j) → writesReady (s.threads j) :=
    (Function.forall_update_iff s.threads fun j pc => writesReady pc → writesReady (s.threads j)).mpr
      ⟨fun h => absurd h hw, fun _ _ => id⟩
  have hdestroys : ∀ j, destroys (Function.update s.threads k pc j) = true → destroys (s.threads j) = true :=
    (Function.forall_update_iff s.threads fun j pc => destroys pc = true → destroys (s.threads j) = true).mpr
      ⟨hd, fun _ _ => id⟩
  exact {
    held := hheld
    log := h.log
    pc := (Function.forall_update_iff s.threads fun _ pc => PcOk (book s.log) s.v.vm pc).mpr
      ⟨hpc, fun j _ => h.pc j⟩
    quiet := by
      refine fun hf hbs => h.quiet hf fun j => ?_
      by_cases hj : j = k
      · exact hj ▸ hold
      · simpa [VmLife.at, hj] using hbs j
    waited := by
      intro j hj
      obtain ⟨i, name, hi⟩ := h.waited j (hwrites j hj)
      have hik : i ≠ k := by
        rintro rfl
        rw [hi] at hold
        cases hold
      exact ⟨i, name, by simpa [VmLife.at, hik] using hi⟩
    unique := fun i j hi hj => h.unique i j (hwrites i hi) (hwrites j hj)
    files := fun hc => (Function.forall_update_iff s.threads fun _ pc => pc.inFile = false).mpr
      ⟨Bool.eq_false_iff.mpr fun hp => absurd (hfile hp) (by rw [show s.closed = true from hc]; nofun),
        fun j _ => h.files hc j⟩
    closed := fun j hj => h.closed j (hdestroys j hj)
    one := fun i j hi hj => h.one i j (hdestroys i hi) (hdestroys j hj)
    freed := fun hf' => absurd hf' (by simp [VmLife.at, hf]) }

theorem LifeInv.take (h : LifeInv s) {pc : Pc} (hk : (s.threads k).take = some pc) (hl : s.lock = none) :
    LifeInv { s.at k pc with lock := some k } := by
  have hpc := h.pc k
  have hlock : ∀ {pc : Pc}, pc.locked = true → Lock.Held id Pc.locked (some k) (Function.update s.threads k pc) :=
    fun hpc => h.held.take Function.injective_id hl hpc
  have halive : s.freed = false := h.alive (by rintro e; rw [e] at hk; cases hk)
  unfold Pc.take at hk
  split at hk
  · rename_i e
    cases hk
    exact h.move halive (hlock rfl) trivial (by rw [e]; rfl) id (fun _ => h.opened (by rw [e]; rfl)) nofun
  · rename_i e
    cases hk
    exact h.move halive (hlock rfl) trivial (by rw [e]; rfl) id (fun _ => h.opened (by rw [e]; rfl)) nofun
  · rename_i e
    cases hk
    rw [e] at hpc
    exact h.move halive (hlock rfl) hpc (by rw [e]; rfl) nofun nofun nofun
  · rename_i e
    cases hk
    rw [e] at hpc
    exact h.move halive (hlock rfl) hpc (by rw [e]; rfl) id nofun fun _ => by rw [e]; rfl
  · cases hk

end GH.Proof.Life
