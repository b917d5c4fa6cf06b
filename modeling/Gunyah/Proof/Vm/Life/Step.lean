import Gunyah.Proof.Vm.Life.Functions
import Gunyah.Proof.Vm.Life.Said

/-!
# A step of the life of a VM

A thread that works on the VM relies on its status (`LifeInv.quietAt`), since `vm_lock` leaves room for one such
thread, and the one that destroys the VM comes after all calls on its files. So each step of a thread (`LifeInv.go`)
and each call (`LifeInv.call`) keeps the invariant.
-/

namespace GH.Proof.Life

open GH.Impl.Rm GH.Impl.Main GH.Impl.Life GH.Spec.Life
open GH.Impl (Byte)
open GH.Impl.Vm (SecVm SecVmDev)

variable {n : Nat} {s t : VmLife n} {k : Fin n}

/-! ## Steps of the threads -/

/-- A VM that has exited goes on to be reset. -/
theorem after_late {b : Book} {e : Event} (hi : b.inTurn e) (hf : b.fair e) :
    (Late b.stage → Late (b.after e).stage) ∧
      (b.stage ∈ [.reset, .gone] → (b.after e).stage ∈ [.reset, .gone]) := by
  obtain ⟨σ, v, r⟩ := b
  rcases e with ⟨q, vmid, ok⟩ | ⟨x, vmid⟩
  · cases ok
    · cases q <;> first | exact ⟨id, id⟩ | exact ⟨fun _ => by simp [Late, Book.after], fun _ => by simp [Book.after]⟩
    · cases q <;>
        simp_all [Late, Book.inTurn, Book.fair, Book.allows, Book.after, Stage.next] <;>
          cases σ <;> simp_all
  · obtain ⟨-, rfl⟩ : vmid = v ∧ σ = saidAt x := hf
    cases x <;> simp [Late, saidAt, Book.after]

theorem LogOk.step {log : List Event} {es : List Event} (h : LogOk log) (hone : es = [] ∨ ∃ e, es = [e])
    (hi : ∀ e ∈ es, (book log).inTurn e) (hf : ∀ e ∈ es, (book log).fair e) :
    LogOk (log ++ es) ∧ (Late (book log).stage → Late (book (log ++ es)).stage) ∧
      ((book log).stage ∈ [.reset, .gone] → (book (log ++ es)).stage ∈ [.reset, .gone]) := by
  obtain rfl | ⟨e, rfl⟩ := hone
  · rw [List.append_nil]
    exact ⟨h, id, id⟩
  · have hie := hi e (List.mem_singleton.mpr rfl)
    have hfe := hf e (List.mem_singleton.mpr rfl)
    rw [book_append]
    exact ⟨h.append hie hfe, after_late hie hfe⟩

theorem locked_of_between {pc : Pc} (h : between pc = true) : pc.locked = true ∧ pc.inFile = true ∨ destroys pc = true := by
  cases pc with
  | idle | notif => cases h
  | destroy => exact .inr rfl
  | run pc => cases pc <;> first | exact .inl ⟨rfl, rfl⟩ | cases h
  | load name pc => cases pc <;> first | exact .inl ⟨rfl, rfl⟩ | cases h

/-- What the thread at work on the VM can rely on. -/
theorem LifeInv.quietAt (h : LifeInv s) (hf : s.freed = false)
    (hk : (s.threads k).locked = true ∧ (s.threads k).inFile = true ∨ destroys (s.threads k) = true)
    (hb : between (s.threads k) = false) : Quiet (book s.log) s.v.vm := by
  refine h.quiet hf fun j => ?_
  by_cases hj : j = k
  · exact hj ▸ hb
  rw [Bool.eq_false_iff]
  intro hbj
  rcases hk with ⟨hl, hfile⟩ | hd
  · rcases locked_of_between hbj with ⟨hlj, -⟩ | hdj
    · rw [h.held.others Function.injective_id ((h.held k).mp hl) hj] at hlj
      cases hlj
    · rw [h.undestroyed (h.opened hfile) j] at hdj
      cases hdj
  · rcases locked_of_between hbj with ⟨-, hfj⟩ | hdj
    · rw [h.files (h.closed k hd) j] at hfj
      cases hfj
    · exact hj (h.one j k hdj hd)

/-- Another thread than the one that waits for `READY` has `vm_lock`. -/
theorem LifeInv.unreadyAt (h : LifeInv s) (hl : (s.threads k).locked = true)
    (hk : ∀ name, s.threads k ≠ .load name .waitReady) (j : Fin n) : ¬ writesReady (s.threads j) := by
  intro hw
  obtain ⟨i, name, hi⟩ := h.waited j hw
  have hik : i ≠ k := by
    rintro rfl
    exact hk name hi
  have := h.held.others Function.injective_id ((h.held k).mp hl) hik
  rw [hi] at this
  cases this

/-- A call on a file goes on, as it should. -/
theorem LifeInv.fileGo (h : LifeInv s) {pc : Pc} {v : NamedVm} {es : List Event} (hk : (s.threads k).inFile = true)
    (hl : (s.threads k).locked = true) (hnext : pc.inNotif = false ∧ destroys pc = false)
    (hw : ∀ j, ¬ writesReady (s.threads j)) (hgood : Good (book s.log) es v.vm pc)
    (hf : ∀ e ∈ es, (book s.log).fair e) :
    LifeInv { s.at k pc with
      v := v
      lock := if (s.threads k).locked ∧ ¬ pc.locked then none else s.lock
      log := s.log ++ es } := by
  have hbook : book (s.log ++ es) = es.foldl Book.after (book s.log) := List.foldl_append
  obtain ⟨hlog, hlate, hreset⟩ := h.log.step hgood.one hgood.inTurn hf
  exact h.file hk hl hnext.1 hnext.2 hw hlog hlate hreset (hbook ▸ hgood.ok) (hbook ▸ hgood.quiet)

theorem LifeInv.runGo (h : LifeInv s) {p : RunPc} {a : Answer} (hk : s.threads k = .run p) (hp : (s.threads k).take = none)
    (hf : ∀ e ∈ runLog a s.v p, (book s.log).fair e) :
    LifeInv { s.at k (.ofRun (ghVcpuIoctlRun s.v.vm a.ret p).2) with
      v := { s.v with vm := (ghVcpuIoctlRun s.v.vm a.ret p).1 }
      lock := if (s.threads k).locked ∧ ¬ (Pc.ofRun (ghVcpuIoctlRun s.v.vm a.ret p).2).locked then none else s.lock
      log := s.log ++ runLog a s.v p } := by
  have hpc := h.pc k
  have hfile : (s.threads k).inFile = true := by rw [hk]; rfl
  have halive : s.freed = false := h.alive (by rw [hk]; exact Pc.noConfusion)
  have hkind : ∀ pc, (Pc.ofRun pc).inNotif = false ∧ destroys (Pc.ofRun pc) = false := by
    intro pc
    cases pc <;> exact ⟨rfl, rfl⟩
  cases hl : p.locked with
  | true =>
    have hlk : (s.threads k).locked = true := by rw [hk]; exact hl
    rw [hk] at hpc
    have hgood := run_good (a := a) hl hpc fun hb => h.quietAt halive (.inl ⟨hlk, hfile⟩) (hk ▸ hb)
    exact h.fileGo hfile hlk (hkind _) (h.unreadyAt hlk (by rw [hk]; exact fun _ => Pc.noConfusion)) hgood hf
  | false =>
    have hlk : (s.threads k).locked = false := by rw [hk]; exact hl
    have hgo : ∀ pc, pc = RunPc.run ∨ pc = .idle → LifeInv { s.at k (.ofRun pc) with
        lock := if (s.threads k).locked ∧ ¬ (Pc.ofRun pc).locked then none else s.lock
        log := s.log ++ [] } := by
      intro pc hpc
      rw [List.append_nil]
      refine h.move halive (held_go h.held (.inr ?_)) (pcOk_run ?_) (hk ▸ ?_) ?_ (fun _ => h.opened hfile) ?_
      · rcases hpc with rfl | rfl <;> rfl
      · rcases hpc with rfl | rfl <;> trivial
      · cases p <;> first | rfl | cases hl
      · exact not_writesReady (hkind pc).1
      · rw [(hkind pc).2]
        nofun
    cases p with
    | lock => rw [hk] at hp; cases hp
    | idle | run => exact hgo .idle (.inr rfl)
    | startVcpuRun => exact hgo .run (.inl rfl)
    | _ => cases hl

theorem LifeInv.loadGo {devs : SecVm → Option SecVmDev} (h : LifeInv s) {name : SecVm} {p pc : LoadPc} {a : Answer}
    {v : NamedVm} {es : List Event} (hk : s.threads k = .load name p)
    (hgo : ghVmIoctlSetFwName devs name a s.v p = some (v, pc, es)) (hf : ∀ e ∈ es, (book s.log).fair e) :
    LifeInv { s.at k (.load name pc) with
      v := v
      lock := if (s.threads k).locked ∧ ¬ (Pc.load name pc).locked then none else s.lock
      log := s.log ++ es } := by
  have hpc := h.pc k
  have hfile : (s.threads k).inFile = true := by rw [hk]; rfl
  have halive : s.freed = false := h.alive (by rw [hk]; exact Pc.noConfusion)
  have hlk : (s.threads k).locked = true := by
    rw [hk]
    cases p <;> first | rfl | cases hgo
  rw [hk] at hpc
  have hgood := load_good hgo hpc fun hb => h.quietAt halive (.inl ⟨hlk, hfile⟩) (hk ▸ hb)
  refine h.fileGo hfile hlk ⟨rfl, rfl⟩ (fun j hw => ?_) hgood hf
  -- the wait is over, so `READY` is written
  cases hp : s.threads j with
  | notif q =>
    have hq := h.pc j
    rw [hp] at hw hq
    obtain rfl : q = .writeStatus GH_RM_VM_STATUS_READY := hw
    by_cases hwait : p = .waitReady
    · subst hwait
      simp only [ghVmIoctlSetFwName] at hgo
      split_ifs at hgo with hst
      obtain ⟨-, -, hi⟩ | ⟨e, -⟩ := hq
      · exact absurd (hst.symm.trans hi) (by decide)
      · exact absurd e (by decide)
    · refine h.unreadyAt hlk (fun name' e => hwait ?_) j (by rw [hp]; rfl)
      rw [hk] at e
      cases e
      rfl
  | _ => rw [hp] at hw; exact hw

theorem LifeInv.loadUnlock (h : LifeInv s) {name : SecVm} {ret : Int} (hk : s.threads k = .load name (.unlock ret)) :
    LifeInv { s.at k .idle with
      v := s.v
      lock := if (s.threads k).locked ∧ ¬ Pc.idle.locked then none else s.lock
      log := s.log ++ [] } := by
  rw [List.append_nil]
  exact h.move (h.alive (by rw [hk]; exact Pc.noConfusion)) (held_go h.held (.inr rfl)) trivial (by rw [hk]; rfl) id
    nofun nofun

theorem LifeInv.destroyGo (h : LifeInv s) {p pc : DestroyPc} {a : Answer} {v : NamedVm} {es : List Event}
    (hk : s.threads k = .destroy p) (hgo : ghDestroyVm a s.v p = some (v, pc, es))
    (hf : ∀ e ∈ es, (book s.log).fair e) :
    LifeInv { s.at k (.destroy pc) with
      v := v
      lock := if (s.threads k).locked ∧ ¬ (Pc.destroy pc).locked then none else s.lock
      log := s.log ++ es } := by
  have hpc := h.pc k
  have halive : s.freed = false := h.alive (by rw [hk]; exact Pc.noConfusion)
  have hbook : book (s.log ++ es) = es.foldl Book.after (book s.log) := List.foldl_append
  rw [hk] at hpc
  have hgood := destroy_good hgo hpc fun hb => h.quietAt halive (.inr (by rw [hk]; rfl)) (hk ▸ hb)
  obtain ⟨hlog, hlate, hreset⟩ := h.log.step hgood.one hgood.inTurn hf
  exact h.destroy hk (destroy_locked hgo) hlog hlate hreset (hbook ▸ hgood.ok) (hbook ▸ hgood.quiet)

theorem LifeInv.go {devs : SecVm → Option SecVmDev} {a : Answer} (h : LifeInv s) (hgo : lifeGo devs s k a = some t)
    (hfair : Fair s (.go k a) t) : LifeInv t := by
  unfold lifeGo at hgo
  split at hgo
  · rename_i pc hk
    simp only [Option.ite_none_right_eq_some, Option.some.injEq] at hgo
    obtain ⟨hl, rfl⟩ := hgo
    exact h.take hk hl
  · rename_i hk
    simp only [Option.map_eq_some_iff, Prod.exists] at hgo
    obtain ⟨v, pc, es, hgo, rfl⟩ := hgo
    have hes : ∀ e ∈ es, (book s.log).fair e := by simpa [Fair] using hfair
    cases hp : s.threads k with
    | idle => rw [hp] at hgo; cases hgo
    | run p =>
      rw [hp] at hgo
      simp only [Pc.go, Option.some.injEq, Prod.mk.injEq] at hgo
      obtain ⟨rfl, rfl, rfl⟩ := hgo
      rw [← hp]
      exact h.runGo hp hk hes
    | load name p =>
      rw [hp] at hgo
      by_cases hu : ∃ ret, p = .unlock ret
      · obtain ⟨ret, rfl⟩ := hu
        cases hgo
        rw [← hp]
        exact h.loadUnlock hp
      · have hgo' : (ghVmIoctlSetFwName devs name a s.v p).map (fun r => (r.1, Pc.load name r.2.1, r.2.2)) =
            some (v, pc, es) := by
          cases p <;> first | exact hgo | exact absurd ⟨_, rfl⟩ hu
        simp only [Option.map_eq_some_iff, Prod.exists, Prod.mk.injEq] at hgo'
        obtain ⟨v, pc, es, hload, rfl, rfl, rfl⟩ := hgo'
        rw [← hp]
        exact h.loadGo hp hload hes
    | notif p =>
      rw [hp] at hgo
      simp only [Pc.go, Option.some.injEq, Prod.mk.injEq] at hgo
      obtain ⟨rfl, rfl, rfl⟩ := hgo
      rw [List.append_nil, ← hp]
      exact h.notifGo hp hk
    | destroy p =>
      rw [hp] at hgo
      simp only [Pc.go, Option.map_eq_some_iff, Prod.exists, Prod.mk.injEq] at hgo
      obtain ⟨v, pc, es, hgo, rfl, rfl, rfl⟩ := hgo
      rw [← hp]
      exact h.destroyGo hp hgo hes

/-! ## Closing the files -/

theorem LifeInv.release (h : LifeInv s) (hk : s.threads k = .idle) (hc : s.closed = false)
    (hfiles : ∀ j, (s.threads j).inFile = false) :
    LifeInv { s.at k (.destroy .testNoState) with closed := true } := by
  have hf := h.unfreed hc
  have hready : ∀ j, ¬ writesReady (s.threads j) := by
    intro j hj
    obtain ⟨i, name, hi⟩ := h.waited j hj
    have := hfiles i
    rw [hi] at this
    cases this
  have hwrites : ∀ j, ¬ writesReady (Function.update s.threads k (.destroy .testNoState) j) :=
    (Function.forall_update_iff s.threads fun _ pc => ¬ writesReady pc).mpr ⟨id, fun j _ => hready j⟩
  have hone : ∀ j, destroys (Function.update s.threads k (.destroy .testNoState) j) = true → j = k := by
    intro j hd
    by_contra hj
    rw [Function.update_of_ne hj, h.undestroyed hc j] at hd
    cases hd
  exact {
    held := h.held.move (by rw [hk]; rfl)
    log := h.log
    pc := (Function.forall_update_iff s.threads fun _ pc => PcOk (book s.log) s.v.vm pc).mpr
      ⟨trivial, fun j _ => h.pc j⟩
    quiet := by
      refine fun _ hbs => h.quiet hf fun j => ?_
      by_cases hj : j = k
      · rw [hj, hk]
        rfl
      · simpa [VmLife.at, hj] using hbs j
    waited := fun j hj => absurd hj (hwrites j)
    unique := fun i j hi => absurd hi (hwrites i)
    files := fun _ => (Function.forall_update_iff s.threads fun _ pc => pc.inFile = false).mpr
      ⟨rfl, fun j _ => hfiles j⟩
    closed := fun _ _ => rfl
    one := fun i j hi hj => (hone i hi).trans (hone j hj).symm
    freed := fun hf' => absurd hf' (by simp [VmLife.at, hf]) }

theorem LifeInv.free (h : LifeInv s) (hk : s.threads k = .destroy .clean) (hn : ∀ j, (s.threads j).inNotif = false) :
    LifeInv { s.at k .idle with freed := true } := by
  have hclosed := h.closed k (by rw [hk]; rfl)
  have hidle : ∀ j, Function.update s.threads k .idle j = .idle := by
    refine (Function.forall_update_iff s.threads fun _ pc => pc = .idle).mpr ⟨rfl, fun j hj => ?_⟩
    cases hp : s.threads j with
    | idle => rfl
    | run | load => exact absurd (h.files hclosed j) (by rw [hp]; nofun)
    | notif => exact absurd (hn j) (by rw [hp]; nofun)
    | destroy => exact absurd (h.one j k (by rw [hp]; rfl) (by rw [hk]; rfl)) hj
  have hpc := h.pc k
  rw [hk] at hpc
  exact {
    held := h.held.move (by rw [hk]; rfl)
    log := h.log
    pc := fun j => by
      rw [show ({ s.at k .idle with freed := true } : VmLife n).threads j = .idle from hidle j]
      trivial
    quiet := nofun
    waited := fun j hj => absurd hj (by simp [VmLife.at, hidle j, writesReady])
    unique := fun i j hi => absurd hi (by simp [VmLife.at, hidle i, writesReady])
    files := fun _ j => by
      rw [show ({ s.at k .idle with freed := true } : VmLife n).threads j = .idle from hidle j]
      rfl
    closed := fun _ _ => hclosed
    one := fun i j hi => absurd hi (by simp [VmLife.at, hidle i, destroys])
    freed := fun _ => ⟨hclosed, by simpa [VmLife.at, PcOk, DestroyOk] using hpc, hidle⟩ }

/-! ## Calls -/

/-- A thread is called without `vm_lock`. -/
theorem LifeInv.called (h : LifeInv s) {pc : Pc} (hk : s.threads k = .idle) (hf : s.freed = false)
    (hl : pc.locked = false) (hn : pc.inNotif = false) (hd : destroys pc = false)
    (hfile : pc.inFile = true → s.closed = false) : LifeInv (s.at k pc) :=
  h.move hf (h.held.move (by rw [hk]; exact hl)) (pcOk_away hl hn hd) (by rw [hk]; rfl) (not_writesReady hn) hfile
    (by rw [hd]; nofun)

theorem LifeInv.notify (h : LifeInv s) {cmd : BitVec 32} {payload : List Byte} (hk : s.threads k = .idle)
    (hf : s.freed = false)
    (hfair : ∀ e ∈ ((ghVmRmNotifierFnSaid s.v.vm cmd).val payload).toList.map (Event.said · s.v.vm.vmid),
      (book s.log).fair e) :
    LifeInv { s.at k (((ghVmRmNotifierFnTest s.v.vm cmd).val payload).elim Pc.idle .notif) with
      log := s.log ++ ((ghVmRmNotifierFnSaid s.v.vm cmd).val payload).toList.map (Event.said · s.v.vm.vmid) } := by
  have htest := @test_said s.v.vm cmd payload
  cases hs : (ghVmRmNotifierFnSaid s.v.vm cmd).val payload with
  | none =>
    have hnone : (ghVmRmNotifierFnTest s.v.vm cmd).val payload = none := by
      rw [Option.eq_none_iff_forall_ne_some]
      intro q hq
      rcases htest hq with ⟨-, e⟩ | ⟨-, e⟩ | ⟨-, -, e⟩ <;> rw [hs] at e <;> cases e
    rw [hnone, Option.toList_none, List.map_nil, List.append_nil]
    exact h.called hk hf rfl rfl rfl nofun
  | some x =>
    rw [hs] at hfair
    refine h.said hk hf (hfair _ (List.mem_singleton.mpr rfl)) fun q hq => ?_
    rcases htest hq with ⟨e, hx⟩ | ⟨e, hx⟩ | ⟨exitType, e, hx⟩ <;> rw [hs, Option.some.injEq] at hx
    · exact .inl ⟨e, hx⟩
    · exact .inr (.inl ⟨e, hx⟩)
    · exact .inr (.inr ⟨exitType, e, hx⟩)

theorem LifeInv.call {c : Call} (h : LifeInv s) (hc : lifeCall s k c = some t) (hfair : Fair s (.call k c) t) :
    LifeInv t := by
  cases c with
  | createVcpu =>
    simp only [lifeCall, Option.ite_none_right_eq_some, Option.some.injEq] at hc
    obtain ⟨-, rfl⟩ := hc
    exact { h with
      pc := fun j => pcOk_congr rfl rfl (h.pc j)
      quiet := fun hf hb => (h.quiet hf hb).congr rfl rfl }
  | run =>
    simp only [lifeCall, Option.ite_none_right_eq_some, Option.some.injEq] at hc
    obtain ⟨⟨hk, hopen⟩, rfl⟩ := hc
    exact h.called hk (h.unfreed hopen) rfl rfl rfl fun _ => hopen
  | setFwName name =>
    simp only [lifeCall, Option.ite_none_right_eq_some, Option.some.injEq] at hc
    obtain ⟨⟨hk, hopen⟩, rfl⟩ := hc
    exact h.called hk (h.unfreed hopen) rfl rfl rfl fun _ => hopen
  | notify cmd payload =>
    simp only [lifeCall, Option.ite_none_right_eq_some, Option.some.injEq] at hc
    obtain ⟨⟨hk, hf⟩, rfl⟩ := hc
    exact h.notify hk hf (by simpa [Fair] using hfair)
  | release =>
    simp only [lifeCall, Option.ite_none_right_eq_some, Option.some.injEq] at hc
    obtain ⟨⟨hk, hopen, hfiles⟩, rfl⟩ := hc
    exact h.release hk hopen hfiles
  | free =>
    simp only [lifeCall, Option.ite_none_right_eq_some, Option.some.injEq] at hc
    obtain ⟨⟨hk, hn⟩, rfl⟩ := hc
    exact h.free hk hn

theorem LifeInv.step {devs : SecVm → Option SecVmDev} {act : Act n} (h : LifeInv s) (hst : lifeStep devs s act = some t)
    (hfair : Fair s act t) : LifeInv t := by
  cases act with
  | call k c => exact h.call hst hfair
  | go k a => exact h.go hst hfair

end GH.Proof.Life
