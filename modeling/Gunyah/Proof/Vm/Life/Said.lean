import Gunyah.Proof.Vm.Life.Inv

/-!
# What is said of a VM

A notification changes the book at once, and is taken up by a thread that writes what the RM has said: the status
`READY` only for the thread that waits for it (`LifeInv.inited`), and the others only once the VM has exited (`Late`). Neither
the one (`LifeInv.said`) nor the other (`LifeInv.notifGo`) takes from the other threads what they know.
-/

namespace GH.Proof.Life

open GH.Impl.Rm GH.Impl.Main GH.Impl.Life GH.Spec.Life
open GH.Impl (Byte)

variable {n : Nat} {s t : VmLife n} {k : Fin n}

/-! ## A notification comes in -/

theorem destroyOk_said {b : Book} {vm : GhVm} {x : Said} {vmid : VmId} {pc : DestroyPc}
    (hf : b.fair (.said x vmid)) (h : DestroyOk b vm pc) : DestroyOk (b.after (.said x vmid)) vm pc := by
  obtain ⟨σ, v, r⟩ := b
  obtain ⟨-, rfl⟩ : vmid = v ∧ σ = saidAt x := hf
  cases pc with
  | testNoState | waitExited => trivial
  | exitVm | lock | testRunning | destroyVcpus | cleanup => cases x <;> exact h
  | vmStop =>
    cases x with
    | exited => exact ⟨h.1, .inr rfl⟩
    | ready | reset => rcases h.2 with hs | hs <;> cases hs
  | unpopulate =>
    cases x with
    | exited => exact ⟨h.1, .inr (.inl rfl)⟩
    | ready | reset => rcases h.2 with hs | hs | hs <;> simp [saidAt] at hs
  | vmReset =>
    cases x with
    | exited => exact ⟨h.1, .inl (by simp [Book.after])⟩
    | ready | reset => rcases h.2 with hs | hs <;> simp [saidAt] at hs
  | waitReset =>
    cases x with
    | reset => exact ⟨h.1, .inr rfl⟩
    | ready | exited => rcases h.2 with hs | hs <;> simp [saidAt] at hs
  | reclaim | deallocVmid =>
    cases x with
    | exited => exact ⟨h.1, by simp [Book.after, Book.allows]⟩
    | ready | reset => exact absurd h.2 (by simp [saidAt, Book.allows])
  | setNoState | clean => rcases h with hs | hs <;> cases x <;> cases hs

theorem loadOk_said {b : Book} {vm : GhVm} {x : Said} {vmid : VmId} {pc : LoadPc}
    (hf : b.fair (.said x vmid)) (h : LoadOk b vm pc) : LoadOk (b.after (.said x vmid)) vm pc := by
  obtain ⟨σ, v, r⟩ := b
  obtain ⟨-, rfl⟩ : vmid = v ∧ σ = saidAt x := hf
  cases pc with
  | setLoad | setVmid | setAuth | setInit => have hs := h.1; cases x <;> cases hs
  | provideMem | setSecure | configImage | authImage | vmInit | populate => cases x <;> cases h
  | waitReady =>
    obtain ⟨hv, ⟨hs, hst⟩ | ⟨hs, -⟩⟩ := h
    · cases x with
      | ready => exact ⟨hv, .inr ⟨rfl, List.mem_cons.mpr (.inl hst)⟩⟩
      | exited | reset => cases hs
    · cases x <;> cases hs
  | _ => trivial

theorem pcOk_said {b : Book} {vm : GhVm} {x : Said} {vmid : VmId} {pc : Pc} (hf : b.fair (.said x vmid))
    (h : PcOk b vm pc) : PcOk (b.after (.said x vmid)) vm pc := by
  have hs := hf.2
  cases pc with
  | idle => trivial
  | run pc => cases pc <;> cases x <;> simp_all [PcOk, RunOk, Book.after, saidAt]
  | load name pc => exact loadOk_said hf h
  | notif pc => cases pc <;> cases x <;> simp_all [PcOk, NotifOk, Late, Book.after, saidAt]
  | destroy pc => exact destroyOk_said hf h

theorem quiet_said {b : Book} {vm : GhVm} {x : Said} {vmid : VmId} (hf : b.fair (.said x vmid)) (h : Quiet b vm) :
    Quiet (b.after (.said x vmid)) vm := by
  have hs := hf.2
  obtain ⟨hst, hv⟩ := h
  rw [hs] at hst hv
  cases x with
  | ready => cases hst
  | exited => exact ⟨List.mem_cons.mpr (.inl (List.mem_singleton.mp hst)), fun _ => hv Stage.noConfusion⟩
  | reset => cases hst

/-- While the RM starts the VM, a thread waits for it. -/
theorem LifeInv.inited (h : LifeInv s) (hf : s.freed = false) (hs : (book s.log).stage = .inited) :
    ∃ k name, s.threads k = .load name .waitReady := by
  by_contra hno
  have hb : ∀ k, between (s.threads k) = false := by
    intro k
    have hpc := h.pc k
    cases hk : s.threads k with
    | load name pc =>
      rw [hk] at hpc
      cases pc with
      | setLoad | setVmid | setAuth | setInit => exact absurd (hs.symm.trans hpc.1) Stage.noConfusion
      | waitReady => exact absurd ⟨k, name, hk⟩ hno
      | _ => rfl
    | run pc =>
      rw [hk] at hpc
      cases pc with
      | setRunning => rcases hpc.2 with e | e <;> rw [hs] at e <;> cases e
      | _ => rfl
    | destroy pc =>
      rw [hk] at hpc
      cases pc with
      | unpopulate | vmReset | waitReset | reclaim | deallocVmid =>
        exact absurd hpc.2 (by simp [Book.allows, hs])
      | setNoState | clean => rcases hpc with e | e <;> rw [hs] at e <;> cases e
      | _ => rfl
    | _ => rfl
  have := (h.quiet hf hb).shown
  rw [hs] at this
  cases this

/-- A notification that gets past its tests says what it is going to write. -/
theorem test_said {vm : GhVm} {cmd : BitVec 32} {p : List Byte} {pc : NotifPc}
    (h : (ghVmRmNotifierFnTest vm cmd).val p = some pc) :
    pc = .writeStatus GH_RM_VM_STATUS_RESET ∧ (ghVmRmNotifierFnSaid vm cmd).val p = some .reset ∨
      pc = .writeStatus GH_RM_VM_STATUS_READY ∧ (ghVmRmNotifierFnSaid vm cmd).val p = some .ready ∨
        ∃ exitType, pc = .lock exitType ∧ (ghVmRmNotifierFnSaid vm cmd).val p = some .exited := by
  unfold ghVmRmNotifierFnTest at h
  unfold ghVmRmNotifierFnSaid
  split_ifs at h ⊢
  · rw [ReadM.val_bind, ReadM.val_pure, Option.map_eq_some_iff] at h
    obtain ⟨status, ht, rfl⟩ := h
    unfold ghNotifVmStatusTest at ht
    rw [ReadM.val_bind] at ht ⊢
    rw [ReadM.val_bind, ReadM.val_pure]
    split_ifs at ht with hv
    · cases ht
    rw [ReadM.val_bind] at ht
    split_ifs at ht with hs
    · rw [ReadM.val_pure, Option.some.injEq] at ht
      subst ht
      rw [if_neg hv]
      rcases hs.2 with e | e
      · rw [e]
        exact .inl ⟨rfl, rfl⟩
      · rw [e]
        exact .inr (.inl ⟨rfl, rfl⟩)
    · cases ht
  · rw [ReadM.val_bind] at h ⊢
    rw [ReadM.val_pure]
    split_ifs at h ⊢ with hv
    · cases h
    · rw [ReadM.val_bind, ReadM.val_pure] at h
      cases h
      exact .inr (.inr ⟨_, rfl, rfl⟩)
  · cases h

/-- A notification comes in. -/
theorem LifeInv.said (h : LifeInv s) {x : Said} {vmid : VmId} {pc : Option NotifPc} (hk : s.threads k = .idle)
    (hf : s.freed = false) (hfair : (book s.log).fair (.said x vmid))
    (hpc : ∀ q, pc = some q →
      q = .writeStatus GH_RM_VM_STATUS_RESET ∧ x = .reset ∨ q = .writeStatus GH_RM_VM_STATUS_READY ∧ x = .ready ∨
        ∃ exitType, q = .lock exitType ∧ x = .exited) :
    LifeInv { s.at k (pc.elim .idle .notif) with log := s.log ++ [.said x vmid] } := by
  have hbook := book_append s.log (.said x vmid)
  have hnext : PcOk (book (s.log ++ [.said x vmid])) s.v.vm (pc.elim .idle .notif) ∧
      (writesReady (pc.elim .idle .notif) → (book s.log).stage = .inited) ∧
      (pc.elim Pc.idle .notif).locked = false := by
    cases pc with
    | none => exact ⟨trivial, nofun, rfl⟩
    | some q =>
      rw [hbook]
      obtain ⟨rfl, rfl⟩ | ⟨rfl, rfl⟩ | ⟨exitType, rfl, rfl⟩ := hpc q rfl
      · have hne : NotifPc.writeStatus GH_RM_VM_STATUS_RESET ≠ .writeStatus GH_RM_VM_STATUS_READY := by decide
        exact ⟨.inr ⟨rfl, List.mem_cons.mpr (.inl rfl)⟩, fun hw => absurd hw hne, rfl⟩
      · obtain ⟨i, name, hi⟩ := h.inited hf hfair.2
        have hw := h.pc i
        rw [hi] at hw
        have hst : s.v.vm.vmStatus = GH_RM_VM_STATUS_INIT := by
          obtain ⟨-, ⟨-, hst⟩ | ⟨hs, -⟩⟩ := hw
          · exact hst
          · exact absurd (hfair.2.symm.trans hs) Stage.noConfusion
        exact ⟨.inl ⟨rfl, rfl, hst⟩, fun _ => hfair.2, rfl⟩
      · exact ⟨List.mem_cons.mpr (.inl rfl), by simp [writesReady], rfl⟩
  have hkind : (pc.elim Pc.idle .notif).inFile = false ∧ destroys (pc.elim Pc.idle .notif) = false := by
    cases pc <;> exact ⟨rfl, rfl⟩
  -- none is going to write `READY` before the RM has said it
  have hready : ∀ j, writesReady (s.threads j) → (book s.log).stage ≠ .inited := by
    intro j hj hs
    have hpc := h.pc j
    cases hp : s.threads j with
    | notif q =>
      rw [hp] at hj hpc
      obtain rfl : q = .writeStatus GH_RM_VM_STATUS_READY := hj
      obtain ⟨-, e, -⟩ | ⟨e, -⟩ := hpc
      · exact absurd (hs.symm.trans e) Stage.noConfusion
      · exact absurd e (by decide)
    | _ => rw [hp] at hj; exact hj
  have hdestroys : ∀ j, destroys (Function.update s.threads k (pc.elim .idle .notif) j) = true →
      destroys (s.threads j) = true :=
    (Function.forall_update_iff s.threads fun j pc => destroys pc = true → destroys (s.threads j) = true).mpr
      ⟨fun h => absurd h (by rw [hkind.2]; nofun), fun _ _ => id⟩
  exact {
    held := h.held.move (hnext.2.2.trans (by rw [hk]; rfl))
    log := h.log.append trivial hfair
    pc := (Function.forall_update_iff s.threads fun _ pc => PcOk (book (s.log ++ [.said x vmid])) s.v.vm pc).mpr
      ⟨hnext.1, fun j _ => hbook ▸ pcOk_said hfair (h.pc j)⟩
    quiet := by
      refine fun hf hbs => hbook ▸ quiet_said hfair (h.quiet hf fun j => ?_)
      by_cases hj : j = k
      · rw [hj, hk]
        rfl
      · simpa [VmLife.at, hj] using hbs j
    waited := by
      intro j hj
      have hwait : ∃ i name, s.threads i = .load name .waitReady := by
        by_cases hjk : j = k
        · exact h.inited hf (hnext.2.1 (by simpa [VmLife.at, hjk] using hj))
        · exact h.waited j (by simpa [VmLife.at, hjk] using hj)
      obtain ⟨i, name, hi⟩ := hwait
      have hik : i ≠ k := by
        rintro rfl
        rw [hk] at hi
        cases hi
      exact ⟨i, name, by simpa [VmLife.at, hik] using hi⟩
    unique := by
      intro i j hi hj
      by_cases hik : i = k <;> by_cases hjk : j = k
      · exact hik.trans hjk.symm
      · exact absurd (hnext.2.1 (by simpa [VmLife.at, hik] using hi)) (hready j (by simpa [VmLife.at, hjk] using hj))
      · exact absurd (hnext.2.1 (by simpa [VmLife.at, hjk] using hj)) (hready i (by simpa [VmLife.at, hik] using hi))
      · exact h.unique i j (by simpa [VmLife.at, hik] using hi) (by simpa [VmLife.at, hjk] using hj)
    files := fun hc => (Function.forall_update_iff s.threads fun _ pc => pc.inFile = false).mpr
      ⟨hkind.1, fun j _ => h.files hc j⟩
    closed := fun j hj => h.closed j (hdestroys j hj)
    one := fun i j hi hj => h.one i j (hdestroys i hi) (hdestroys j hj)
    freed := fun hf' => absurd hf' (by simp [VmLife.at, hf]) }

/-! ## It is taken up -/

theorem destroyOk_late {b : Book} {v : NamedVm} {status : BitVec 8} {pc : DestroyPc}
    (hst : status = GH_RM_VM_STATUS_EXITED ∨ status = GH_RM_VM_STATUS_RESET ∧ b.stage ∈ [.reset, .gone])
    (h : DestroyOk b v.vm pc) : DestroyOk b (v.setStatus status).vm pc := by
  have hrunning : status ≠ GH_RM_VM_STATUS_RUNNING := by
    obtain rfl | ⟨rfl, -⟩ := hst <;> decide
  have hexited : GH_RM_VM_STATUS_EXITED ≠ GH_RM_VM_STATUS_RESET := by decide
  cases pc with
  | testNoState | waitExited | exitVm | lock | testRunning | vmStop | reclaim | deallocVmid | setNoState | clean =>
    exact h
  | destroyVcpus | cleanup => exact fun e => absurd e hrunning
  | unpopulate =>
    obtain rfl | ⟨-, hs⟩ := hst
    · exact ⟨⟨h.1.1, hexited⟩, h.2⟩
    · simp only [List.mem_cons, List.not_mem_nil, or_false] at hs
      rcases hs with e | e <;> simp [DestroyOk, Book.allows, e] at h
  | vmReset =>
    obtain rfl | ⟨-, hs⟩ := hst
    · exact ⟨⟨h.1.1, hexited⟩, h.2⟩
    · simp only [List.mem_cons, List.not_mem_nil, or_false] at hs
      rcases hs with e | e <;> simp [DestroyOk, Book.allows, e] at h
  | waitReset =>
    obtain ⟨hv, ⟨hs, -⟩ | hs⟩ := h
    · obtain rfl | ⟨-, hs'⟩ := hst
      · exact ⟨hv, .inl ⟨hs, hexited⟩⟩
      · exact absurd hs' (by simp [hs])
    · exact ⟨hv, .inr hs⟩

/-- What is written of a VM that has exited does not disturb the other threads. -/
theorem pcOk_late {b : Book} {v : NamedVm} {status : BitVec 8} {pc : Pc} (hs : Late b.stage)
    (hst : status = GH_RM_VM_STATUS_EXITED ∨ status = GH_RM_VM_STATUS_RESET ∧ b.stage ∈ [.reset, .gone])
    (h : PcOk b v.vm pc) : PcOk b (v.setStatus status).vm pc := by
  cases pc with
  | idle => trivial
  | run pc => cases pc <;> exact h
  | load name pc =>
    cases pc with
    | setVmid => exact absurd hs (by simp [Late, h.1])
    | waitReady =>
      obtain ⟨-, ⟨e, -⟩ | ⟨e, -⟩⟩ := h
      · exact absurd hs (by simp [Late, e])
      · exact absurd hs (by simp [Late, e])
    | _ => exact h
  | notif pc =>
    cases pc with
    | writeStatus =>
      obtain ⟨-, e, -⟩ | h := h
      · exact absurd hs (by simp [Late, e])
      · exact .inr h
    | _ => exact h
  | destroy pc => exact destroyOk_late hst h

/-- The status `READY` is written for the thread that waits for it. -/
theorem LifeInv.pcOk_ready (h : LifeInv s) (hk : writesReady (s.threads k)) (hs : (book s.log).stage = .ready)
    {j : Fin n} (hj : j ≠ k) : PcOk (book s.log) (s.v.setStatus GH_RM_VM_STATUS_READY).vm (s.threads j) := by
  obtain ⟨i, name, hi⟩ := h.waited k hk
  have hpc := h.pc j
  have hopen := h.opened (k := i) (by rw [hi]; rfl)
  cases hn : (s.threads j).inNotif with
  | true => exact notif_keep hn (fun hw => hj (h.unique j k hw hk)) id id hpc
  | false =>
    by_cases hij : j = i
    · subst hij
      rw [hi] at hpc ⊢
      exact ⟨hpc.1, .inr ⟨hs, List.mem_cons.mpr (.inr (List.mem_singleton.mpr rfl))⟩⟩
    · have hheld : s.lock = some (id i) := (h.held i).mp (by rw [hi]; rfl)
      exact pcOk_away (h.held.others Function.injective_id hheld hij) hn (h.undestroyed hopen j)

theorem LifeInv.notifGo (h : LifeInv s) {p : NotifPc} (hk : s.threads k = .notif p) (hp : (s.threads k).take = none) :
    LifeInv { s.at k ((notifStep s.v p).2.elim .idle .notif) with
      v := (notifStep s.v p).1
      lock := if (s.threads k).locked ∧ ¬ ((notifStep s.v p).2.elim Pc.idle .notif).locked then none else s.lock } := by
  have hpc := h.pc k
  have hn : (s.threads k).inNotif = true := by rw [hk]; rfl
  rw [hk] at hpc
  cases p with
  | lock => rw [hk] at hp; cases hp
  | writeStatus status =>
    obtain ⟨rfl, hs, hst⟩ | ⟨rfl, hs⟩ := hpc
    · refine h.notif hn (.inr rfl) ⟨rfl, rfl⟩ id trivial (fun j hj => ?_) fun hq => ?_
      · exact h.pcOk_ready (by rw [hk]; rfl) hs hj
      · have := hq.shown
        rw [hs, hst] at this
        exact absurd this (by decide)
    · have hlate : Late (book s.log).stage := by
        simp only [List.mem_cons, List.not_mem_nil, or_false] at hs
        rcases hs with e | e <;> simp [Late, e]
      refine h.notif hn (.inr rfl) ⟨rfl, rfl⟩ id trivial (fun j _ => pcOk_late hlate (.inr ⟨rfl, hs⟩) (h.pc j)) fun hq => ?_
      have := hq.shown
      simp only [List.mem_cons, List.not_mem_nil, or_false] at hs
      rcases hs with e | e <;> rw [e] at this <;> cases this
  | writeExitType exitType =>
    exact h.notif hn (.inl (by rw [hk]; rfl)) ⟨rfl, rfl⟩ nofun hpc (fun j _ => pcOk_congr rfl rfl (h.pc j))
      fun hq => hq.congr rfl rfl
  | writeExited =>
    refine h.notif hn (.inl (by rw [hk]; rfl)) ⟨rfl, rfl⟩ id trivial (fun j _ => pcOk_late hpc (.inl rfl) (h.pc j))
      fun hq => ⟨?_, hq.vmid⟩
    have hs := hq.shown
    simp only [NotifOk, PcOk, Late, List.mem_cons, List.not_mem_nil, or_false] at hpc
    rcases hpc with e | e | e | e <;> rw [e] at hs ⊢
    · exact List.mem_cons.mpr (.inr (List.mem_singleton.mpr rfl))
    all_goals cases hs

end GH.Proof.Life
