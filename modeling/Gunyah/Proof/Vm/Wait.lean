import Gunyah.Spec.Vm.Wait
import Gunyah.Framework.Run

/-!
# No waiting thread is forgotten

The wake-ups of a notification reach every function that waits for the status it
has written (`statusWakeUps_reach`, `exitedWakeUps_reach`), and the statuses that
are written without a notification are waited for by none (`ownStatuses_unwaited`): so
each write keeps `NoLost` (`Inv.write`). The exit type is written before the
status, which `Inv.exitType` follows to the functions that report it.
-/

namespace GH.Proof.Wait

open GH.Impl GH.Impl.Main GH.Impl.Wait GH.Spec.Wait GH.WaitQueue
open GH.Impl.Rm (ReadM)

variable {s t : VmWait} {f : Waiter} {j : Nat} {pc : NotifPc}

theorem statusWakeUps_reach (h : f.status = GH_RM_VM_STATUS_RESET ∨ f.status = GH_RM_VM_STATUS_READY) :
    ∃ w ∈ statusWakeUps, w.reaches f = true := by
  revert h
  cases f <;> decide

theorem exitedWakeUps_reach (h : f.status = GH_RM_VM_STATUS_EXITED) :
    ∃ w ∈ exitedWakeUps, w.reaches f = true := by
  revert h
  cases f <;> decide

theorem ownStatuses_unwaited (f : Waiter) : f.status ∉ ownStatuses := by
  cases f <;> decide

/-- What a notification is going to write has passed its tests. -/
theorem test_writeStatus {vm : GhVm} {cmd : BitVec 32} {payload : List Byte} {status : BitVec 8}
    (h : (ghVmRmNotifierFnTest vm cmd).val payload = .writeStatus status) :
    status = GH_RM_VM_STATUS_RESET ∨ status = GH_RM_VM_STATUS_READY := by
  unfold ghVmRmNotifierFnTest at h
  split_ifs at h
  · rw [ReadM.val_bind] at h
    split at h
    · rename_i status' ht
      rw [ReadM.val_pure] at h
      cases h
      unfold ghNotifVmStatusTest at ht
      rw [ReadM.val_bind] at ht
      split_ifs at ht
      · cases ht
      · rw [ReadM.val_bind] at ht
        split_ifs at ht with hs
        · rw [ReadM.val_pure, Option.some.injEq] at ht
          exact ht ▸ hs.2
        · cases ht
    · cases h
  · rw [ReadM.val_bind] at h
    split_ifs at h <;> cases h
  · cases h

theorem test_ne_writeExited {vm : GhVm} {cmd : BitVec 32} {payload : List Byte} :
    (ghVmRmNotifierFnTest vm cmd).val payload ≠ .writeExited := by
  intro h
  unfold ghVmRmNotifierFnTest at h
  split_ifs at h
  · rw [ReadM.val_bind] at h
    split at h <;> cases h
  · rw [ReadM.val_bind] at h
    split_ifs at h <;> cases h
  · cases h

/-- Without another thread in between, the steps of a notification are `gh_vm_rm_notifier_fn`. -/
theorem notifStep_eq (vm : GhVm) (cmd : BitVec 32) (payload : List Byte) :
    (notifStep (notifStep vm ((ghVmRmNotifierFnTest vm cmd).val payload)).1
      (notifStep vm ((ghVmRmNotifierFnTest vm cmd).val payload)).2).1 = (ghVmRmNotifierFn vm cmd).val payload := by
  unfold ghVmRmNotifierFnTest ghVmRmNotifierFn
  split_ifs
  · unfold ghNotifVmStatus
    rw [ReadM.val_bind, ReadM.val_bind]
    cases (ghNotifVmStatusTest vm).val payload <;> rfl
  · unfold ghNotifVmExited
    rw [ReadM.val_bind, ReadM.val_bind]
    split_ifs <;> rfl
  · rfl

/-- A step leaves the exit type, or writes it; only then the status is next. -/
theorem notifStep_exitType (vm : GhVm) (pc : NotifPc) :
    ((notifStep vm pc).1.exitType = vm.exitType ∧ (notifStep vm pc).2 ≠ .writeExited) ∨
      ∃ exitType, pc = .writeExitType exitType ∧ (notifStep vm pc).1.exitType = exitType.toNat := by
  cases pc with
  | writeExitType exitType => exact .inr ⟨exitType, rfl, rfl⟩
  | wake ws => cases ws <;> exact .inl ⟨rfl, nofun⟩
  | _ => exact .inl ⟨rfl, nofun⟩

theorem notifStep_exited {vm : GhVm} (h : (notifStep vm pc).1.vmStatus = GH_RM_VM_STATUS_EXITED) :
    vm.vmStatus = GH_RM_VM_STATUS_EXITED ∨ pc = .writeExited ∨ pc = .writeStatus GH_RM_VM_STATUS_EXITED := by
  cases pc with
  | writeExited => exact .inr (.inl rfl)
  | writeStatus status => exact .inr (.inr (congrArg NotifPc.writeStatus h))
  | wake ws => cases ws <;> exact .inl h
  | _ => exact .inl h

/-! ## What every step keeps -/

/-- With what `Right` says of a state, what each notification is about to write. -/
structure Inv (s : VmWait) : Prop extends Right s where
  status : ∀ j status, s.notifs j = .writeStatus status →
    status = GH_RM_VM_STATUS_RESET ∨ status = GH_RM_VM_STATUS_READY
  noted : ∀ j exitType, s.notifs j = .writeExitType exitType → (exitType.toNat : Int) ∈ s.exits
  exitType : s.vm.vmStatus = GH_RM_VM_STATUS_EXITED ∨ (∃ j, s.notifs j = .writeExited) ∨
    (∃ k f, s.threads k = .past f ∧ f.status = GH_RM_VM_STATUS_EXITED) → s.vm.exitType ∈ s.exits

theorem inv_init : Inv {} where
  noLost k c hk := by cases hk
  exited f r h := by simp at h
  status j status h := by cases h
  noted j exitType h := by cases h
  exitType h := by
    rcases h with h | ⟨j, h⟩ | ⟨k, f, h, -⟩
    · exact absurd h (by decide)
    · cases h
    · cases h

/-- A thread goes on: it falls asleep only where its condition is false, and comes past it only where it is true. -/
theorem Inv.place (h : Inv s) (k : Nat) (p : Place Waiter)
    (hs : ∀ f, p = .asleep f → s.threads k = .asleep f ∨ s.holds f = false)
    (hp : ∀ f, p = .past f → s.threads k = .past f ∨ s.holds f = true) : Inv (s.place k p) where
  noLost := h.noLost.move k p hs
  exited := h.exited
  status := h.status
  noted := h.noted
  exitType he := by
    apply h.exitType
    rcases he with he | he | ⟨i, f, hi, hf⟩
    · exact .inl he
    · exact .inr (.inl he)
    · change Function.update s.threads k p i = _ at hi
      by_cases hik : i = k
      · subst hik
        rw [Function.update_self] at hi
        rcases hp f hi with hi | hi
        · exact .inr (.inr ⟨i, f, hi, hf⟩)
        · exact .inl ((of_decide_eq_true hi).trans hf)
      · rw [Function.update_of_ne hik] at hi
        exact .inr (.inr ⟨i, f, hi, hf⟩)

/-- A thread returns. -/
theorem Inv.ret (h : Inv s) (k : Nat) (r : Option Int)
    (hr : f.status = GH_RM_VM_STATUS_EXITED →
      r = some (-ERESTARTSYS) ∨ (s.exits ≠ [] ∧ ∀ v, r = some v → v ∈ s.exits)) :
    Inv { s.place k .out with returned := (f, r) :: s.returned } := by
  have hout := h.place k .out nofun nofun
  refine { hout with exited := fun f' r' hm hf => ?_ }
  rcases List.mem_cons.mp hm with hm | hm
  · obtain ⟨rfl, rfl⟩ := Prod.mk.inj hm
    exact hr hf
  · exact h.exited f' r' hm hf

/-- Wake-ups stay owed by the threads that do not go on. -/
theorem owed_update (hw : ∀ ws, s.notifs j = .wake ws → (∃ w ∈ ws, w.reaches f = true) →
    ∃ ws', pc = .wake ws' ∧ ∃ w ∈ ws', w.reaches f = true) (h : Owed s.notifs f) :
    Owed (Function.update s.notifs j pc) f := by
  obtain ⟨i, ws, hi, hws⟩ := h
  by_cases hij : i = j
  · subst hij
    obtain ⟨ws', hpc, hws'⟩ := hw ws hi hws
    exact ⟨i, ws', by rw [Function.update_self, hpc], hws'⟩
  · exact ⟨i, ws, by rw [Function.update_of_ne hij, hi], hws⟩

theorem Inv.notify (h : Inv s) (hj : s.notifs j = .idle) (cmd : BitVec 32) (payload : List Byte) :
    Inv { s with
      notifs := Function.update s.notifs j ((ghVmRmNotifierFnTest s.vm cmd).val payload)
      exits := s.exits ++ ((ghVmRmNotifierFnTest s.vm cmd).val payload).exits } := by
  have hnew : ∀ i pc, Function.update s.notifs j ((ghVmRmNotifierFnTest s.vm cmd).val payload) i = pc →
      (i = j ∧ (ghVmRmNotifierFnTest s.vm cmd).val payload = pc) ∨ s.notifs i = pc := by
    intro i pc hi
    by_cases hij : i = j
    · subst hij
      rw [Function.update_self] at hi
      exact .inl ⟨rfl, hi⟩
    · rw [Function.update_of_ne hij] at hi
      exact .inr hi
  refine { noLost := ?_, exited := ?_, status := ?_, noted := ?_, exitType := ?_ }
  · refine h.noLost.write (fun _ hc => .inl hc) fun f => owed_update fun ws hws => ?_
    rw [hj] at hws
    cases hws
  · intro f r hr hf
    refine (h.exited f r hr hf).imp_right fun ⟨hne, hv⟩ => ⟨?_, fun v hr => List.mem_append_left _ (hv v hr)⟩
    exact List.append_ne_nil_of_left_ne_nil hne _
  · intro i status hi
    rcases hnew i _ hi with ⟨-, hi⟩ | hi
    · exact test_writeStatus hi
    · exact h.status i status hi
  · intro i exitType hi
    rcases hnew i _ hi with ⟨-, hi⟩ | hi
    · rw [hi]
      exact List.mem_append_right _ (List.mem_singleton.mpr rfl)
    · exact List.mem_append_left _ (h.noted i exitType hi)
  · intro he
    refine List.mem_append_left _ (h.exitType (he.imp_right (Or.imp_left ?_)))
    rintro ⟨i, hi⟩
    rcases hnew i _ hi with ⟨-, hi⟩ | hi
    · exact absurd hi test_ne_writeExited
    · exact ⟨i, hi⟩

/-- The status that a step of a notification writes, and the wake-ups that it owes for it. -/
theorem notif_write (h : Inv s) (j : Nat) :
    (notifStep s.vm (s.notifs j)).1.vmStatus = s.vm.vmStatus ∨
      ∃ ws, (notifStep s.vm (s.notifs j)).2 = .wake ws ∧
        ∀ f : Waiter, (notifStep s.vm (s.notifs j)).1.vmStatus = f.status → ∃ w ∈ ws, w.reaches f = true := by
  cases hj : s.notifs j with
  | idle => exact .inl rfl
  | writeStatus status =>
    refine .inr ⟨statusWakeUps, rfl, fun f hf => statusWakeUps_reach ?_⟩
    change status = f.status at hf
    exact hf ▸ h.status j status hj
  | writeExitType exitType => exact .inl rfl
  | writeExited => exact .inr ⟨exitedWakeUps, rfl, fun f hf => exitedWakeUps_reach hf.symm⟩
  | wake ws => cases ws <;> exact .inl rfl

theorem Inv.notif_noLost (h : Inv s) (j : Nat) :
    NoLost (fun f => decide ((notifStep s.vm (s.notifs j)).1.vmStatus = f.status))
      (Owed (Function.update s.notifs j (notifStep s.vm (s.notifs j)).2))
      fun k => (s.threads k).wake (s.notifs j).wakes := by
  have hwoken : NoLost s.holds (Owed (Function.update s.notifs j (notifStep s.vm (s.notifs j)).2))
      fun k => (s.threads k).wake (s.notifs j).wakes := by
    refine h.noLost.wake fun f ho hr => owed_update (fun ws hws hreach => ?_) ho
    rw [hws] at hr ⊢
    cases ws with
    | nil => exact absurd hreach (by simp)
    | cons w ws =>
      obtain ⟨w', hw', hreach⟩ := hreach
      rcases List.mem_cons.mp hw' with rfl | hw'
      · change w'.reaches f = false at hr
        rw [hreach] at hr
        cases hr
      · exact ⟨ws, rfl, w', hw', hreach⟩
  refine hwoken.write (fun f hf => ?_) fun _ ho => ho
  rcases notif_write h j with hsame | ⟨ws, hws, hreach⟩
  · rw [hsame] at hf
    exact .inl hf
  · exact .inr ⟨j, ws, by rw [Function.update_self, hws], hreach f (of_decide_eq_true hf)⟩

theorem Inv.notif (h : Inv s) (j : Nat) :
    Inv { s with
      vm := (notifStep s.vm (s.notifs j)).1
      notifs := Function.update s.notifs j (notifStep s.vm (s.notifs j)).2
      threads := fun k => (s.threads k).wake (s.notifs j).wakes } := by
  have hold : ∀ i pc, Function.update s.notifs j (notifStep s.vm (s.notifs j)).2 i = pc →
      (notifStep s.vm (s.notifs j)).2 = pc ∨ s.notifs i = pc := by
    intro i pc hi
    by_cases hij : i = j
    · subst hij
      rw [Function.update_self] at hi
      exact .inl hi
    · rw [Function.update_of_ne hij] at hi
      exact .inr hi
  refine { noLost := h.notif_noLost j, exited := h.exited, status := ?_, noted := ?_, exitType := ?_ }
  · intro i status hi
    rcases hold i _ hi with hi | hi
    · exact absurd hi (by cases s.notifs j with | wake ws => cases ws <;> nofun | _ => nofun)
    · exact h.status i status hi
  · intro i exitType hi
    rcases hold i _ hi with hi | hi
    · exact absurd hi (by cases s.notifs j with | wake ws => cases ws <;> nofun | _ => nofun)
    · exact h.noted i exitType hi
  · intro he
    show (notifStep s.vm (s.notifs j)).1.exitType ∈ s.exits
    rcases notifStep_exitType s.vm (s.notifs j) with ⟨hsame, hpc⟩ | ⟨exitType, hj, hnew⟩
    · rw [hsame]
      refine h.exitType ?_
      rcases he with he | ⟨i, he⟩ | ⟨k, f, he, hf⟩
      · rcases notifStep_exited he with he | hj | hj
        · exact .inl he
        · exact .inr (.inl ⟨j, hj⟩)
        · exact absurd (h.status j _ hj) (by decide)
      · exact .inr (.inl ⟨i, (hold i _ he).resolve_left hpc⟩)
      · exact .inr (.inr ⟨k, f, Place.wake_past he, hf⟩)
    · rw [hnew]
      exact h.noted j exitType hj

theorem Inv.setStatus (h : Inv s) {status : BitVec 8} (hs : status ∈ ownStatuses) :
    Inv { s with vm := { s.vm with vmStatus := status } } := by
  refine { noLost := h.noLost.write (fun f hf => ?_) fun _ ho => ho, exited := h.exited, status := h.status,
           noted := h.noted, exitType := fun he => h.exitType (he.resolve_left ?_ |> .inr) }
  · have hf : status = f.status := of_decide_eq_true hf
    exact absurd (hf ▸ hs) (ownStatuses_unwaited f)
  · intro he
    change status = _ at he
    subst he
    exact absurd hs (by decide)

theorem inv_step (s : VmWait) (a : Wait.Act) (t : VmWait) (h : Inv s) (ht : step s a = some t) : Inv t := by
  cases a with
  | setVmid vmid =>
    cases ht
    exact { h with noLost := h.noLost }
  | setStatus status =>
    simp only [step, Option.ite_none_right_eq_some, Option.some.injEq] at ht
    obtain ⟨hs, rfl⟩ := ht
    exact h.setStatus hs
  | notify j cmd payload =>
    simp only [step, Option.ite_none_right_eq_some, Option.some.injEq] at ht
    obtain ⟨hj, rfl⟩ := ht
    exact h.notify hj cmd payload
  | notif j =>
    cases ht
    exact h.notif j
  | enter k f =>
    simp only [step, Option.ite_none_right_eq_some, Option.some.injEq] at ht
    obtain ⟨-, rfl⟩ := ht
    exact h.place k _ nofun nofun
  | check k =>
    cases ht
    exact h.place k _ (fun _ => Place.check_asleep) fun _ => Place.check_past
  | prepare k =>
    cases ht
    exact h.place k _ (fun _ hp => .inl (Place.prepare_asleep hp)) fun _ hp => .inl (Place.prepare_past hp)
  | signal k =>
    simp only [step] at ht
    split at ht
    · rename_i f hf
      split_ifs at ht
      cases ht
      exact h.ret k _ fun _ => .inl rfl
    · cases ht
  | ret k =>
    simp only [step] at ht
    split at ht
    · rename_i f hk
      cases ht
      refine h.ret k _ fun hf => .inr ?_
      have hmem := h.exitType (.inr (.inr ⟨k, f, hk, hf⟩))
      refine ⟨List.ne_nil_of_mem hmem, fun v hv => ?_⟩
      cases f <;> cases hv <;> exact hmem
    · cases ht

/-- In every run from the creation of a VM, no thread that waits for its status is forgotten, and the
exit that is reported has happened. -/
theorem waiters_served (as : List Wait.Act) : Always step Right {} as := by
  intro bs cs t _ ht
  exact (inv_exec inv_step inv_init ht).toRight

end GH.Proof.Wait
