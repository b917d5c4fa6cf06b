import Gunyah.Proof.Virtio.Events

/-!
# The exit of a VM

`gh_virtio_mmio_app_exit` sets `EVENT_VM_EXIT`, wakes the threads of a device
and waits until they have let go of it. A thread that sees the event leaves it
pending and clears `evt_avail`, so that only the first thread is sure to get
out (`Drains`): the exit cannot hang exactly when at most one thread is blocked,
and none comes later (`drain_iff`).
-/

namespace GH.Proof.Virtio

open GH.Impl GH.Impl.Virtio GH.Spec.Virtio

theorem appExit_ne_zero : EVENT_APP_EXIT ≠ 0 := by decide

/-- The code under the lock after the exit. -/
theorem waitSection_exit {d : VbDev} (h : d.vdevEvent = EVENT_VM_EXIT) (ackReg : BitVec 32) :
    waitSection d ackReg = ({ d with curEvent := EVENT_APP_EXIT, curEventData := 0, evtAvail := false }, []) := by
  have hb : waitBranch d.vdevEvent = .exit := by
    rw [h]
    rfl
  simp only [waitSection, hb]

/-- `n` threads, and `gh_virtio_mmio_app_exit` that waits for them. -/
def exiting (d : VbDev) (n : BitVec 32) : Vdev :=
  { Vdev.blocked d n with dev := appExitSection (Vdev.blocked d n).dev, draining := n ≠ 0 }

theorem blocked_appExit (d : VbDev) (n : BitVec 32) : vdevStep (.blocked d n) .appExit = some (exiting d n) := rfl

/-! ## One thread -/

/-- What the only thread, 0, has of the device. -/
def Holds (d : VbDev) : WaitPc → Prop
  | .out => d.refcount = 0
  | .loopBack => d.refcount = 1 ∧ d.evtAvail = true
  | .lock => d.refcount = 1
  | .check => d.refcount = 1 ∧ d.curEvent ≠ 0

/-- The thread has been woken, or it has the event, or it is gone. -/
structure Drains (s : Vdev) : Prop where
  event : s.dev.vdevEvent = EVENT_VM_EXIT
  alone : ∀ k, s.threads k ≠ .out → k = 0
  holds : Holds s.dev (s.threads 0)

theorem Drains.not_deadlock {s : Vdev} (h : Drains s) : ¬ Deadlock s := by
  rintro ⟨-, hr, hall⟩
  have hh := h.holds
  cases hpc : s.threads 0 with
  | out =>
    rw [hpc] at hh
    exact hr hh
  | loopBack =>
    rw [hpc] at hh
    obtain ⟨-, he⟩ := hall 0 (hpc ▸ nofun)
    exact absurd (hh.2.symm.trans he) (by decide)
  | lock => exact absurd (hpc.symm.trans (hall 0 (hpc ▸ nofun)).1) (by decide)
  | check => exact absurd (hpc.symm.trans (hall 0 (hpc ▸ nofun)).1) (by decide)

/-- The thread moves, with the device changed to `d`. -/
theorem Drains.move {s : Vdev} (h : Drains s) {d : VbDev} {pc : WaitPc} (he : d.vdevEvent = EVENT_VM_EXIT)
    (hh : Holds d pc) : Drains { s.setPc 0 pc with dev := d } where
  event := he
  alone := by
    intro k hk
    by_contra h₀
    exact h₀ (h.alone k (by simpa [Vdev.setPc, h₀] using hk))
  holds := by simpa [Vdev.setPc] using hh

theorem drains_exiting (d : VbDev) : Drains (exiting d 1) where
  event := rfl
  alone := fun k hk => by simpa [exiting, Vdev.blocked] using hk
  holds := ⟨rfl, rfl⟩

theorem step_drains (s : Vdev) (act : VdevAct) (t : Vdev) (h : Drains s) (hs : vdevStep s act = some t)
    (ha : AfterExit false act) : Drains t := by
  have hh := h.holds
  cases vdevStep_does hs with
  | interrupt he => exact ha.elim
  | enter hk hr => cases ha
  | appExit => exact ha.elim
  | @wake k hk he =>
    cases h.alone k (by simp [hk])
    rw [hk] at hh
    exact h.move h.event hh.1
  | @interrupted k hk he =>
    cases h.alone k (by simp [hk])
    rw [hk] at hh
    exact absurd (hh.2.symm.trans he) (by decide)
  | @locked k ackReg hk =>
    cases h.alone k (by simp [hk])
    rw [hk] at hh
    rw [waitSection_exit h.event]
    have hm : Drains { s.setPc 0 .check with
        dev := { s.dev with curEvent := EVENT_APP_EXIT, curEventData := 0, evtAvail := false } } :=
      h.move h.event ⟨hh, appExit_ne_zero⟩
    exact ⟨hm.event, hm.alone, hm.holds⟩
  | @again k hk hc =>
    cases h.alone k (by simp [hk])
    rw [hk] at hh
    exact absurd hc hh.2
  | @leave k hk hc =>
    cases h.alone k (by simp [hk])
    rw [hk] at hh
    refine h.move h.event ?_
    simp [Holds, vbDevPut, hh.1]
  | ackDriverOk => exact ⟨h.event, h.alone, hh⟩
  | ioeventfd =>
    rw [ioeventfd_dev]
    exact ⟨h.event, h.alone, hh⟩
  | drained hd hr => exact ⟨h.event, h.alone, hh⟩

/-! ## No thread -/

theorem step_not_draining (s : Vdev) (act : VdevAct) (t : Vdev) (h : s.draining = false)
    (hs : vdevStep s act = some t) (ha : act ≠ .appExit) : t.draining = false := by
  cases vdevStep_does hs with
  | appExit => exact absurd rfl ha
  | _ => first | exact h | rfl

/-! ## Several threads -/

/-- A thread that has been woken sees the event, and leaves nothing that wakes
another. -/
theorem exec_sees {s : Vdev} {k : Nat} (he : s.dev.vdevEvent = EVENT_VM_EXIT) (ha : s.dev.evtAvail = true)
    (hk : s.threads k = .loopBack) :
    ∃ t, exec vdevStep s [.wake k, .locked k 0] = some t ∧ t.draining = s.draining ∧
      t.threads = Function.update s.threads k .check ∧
      t.dev = { s.dev with curEvent := EVENT_APP_EXIT, curEventData := 0, evtAvail := false } := by
  have hwake : vdevStep s (.wake k) = some (s.setPc k .lock) := if_pos ⟨hk, ha⟩
  have hlock : vdevStep (s.setPc k .lock) (.locked k 0) =
      some (((s.setPc k .lock).setPc k .check).signalled (waitSection s.dev 0)) :=
    if_pos (by simp [Vdev.setPc])
  refine ⟨((s.setPc k .lock).setPc k .check).signalled (waitSection s.dev 0), ?_, rfl, ?_, ?_⟩
  · rw [exec_cons hwake, exec_cons hlock]
    rfl
  · simp [Vdev.signalled, Vdev.setPc]
  · simp only [Vdev.signalled, waitSection_exit he]

/-- A thread that has seen the event leaves. -/
theorem step_leaves {s : Vdev} {k : Nat} (hk : s.threads k = .check) (hc : s.dev.curEvent = EVENT_APP_EXIT) :
    ∃ t, vdevStep s (.leave k) = some t ∧ t.draining = s.draining ∧ t.threads = Function.update s.threads k .out ∧
      t.dev = vbDevPut s.dev := by
  refine ⟨{ s.setPc k .out with dev := vbDevPut s.dev }, ?_, rfl, rfl, rfl⟩
  simp only [vdevStep]
  rw [if_pos hk, if_neg (hc ▸ appExit_ne_zero)]

theorem step_enters {s : Vdev} {k : Nat} (hk : s.threads k = .out) (hr : s.dev.refcount < BitVec.allOnes 32) :
    ∃ t, vdevStep s (.enter k) = some t ∧ t.draining = s.draining ∧
      t.threads = Function.update s.threads k .loopBack ∧ t.dev = { s.dev with refcount := s.dev.refcount + 1 } := by
  refine ⟨{ s.setPc k .loopBack with dev := { s.dev with refcount := s.dev.refcount + 1 } }, ?_, rfl, rfl, rfl⟩
  simp only [vdevStep]
  rw [if_pos hk, vbDevGet, if_pos hr]
  rfl

/-- Of two threads, the first leaves and the second stays blocked. -/
theorem two_deadlock (d : VbDev) {n : BitVec 32} (hn : 1 < n) :
    ¬ Always vdevStep (fun s => ¬ Deadlock s) (.blocked d n) [.appExit, .wake 0, .locked 0 0, .leave 0] := by
  intro h
  have hpos : 1 < n.toNat := hn
  have hne : n ≠ 0 := by
    rintro rfl
    simp at hpos
  have hne' : n - 1 ≠ 0 := by
    intro h₀
    bv_omega
  obtain ⟨t, ht, hdr, hthr, hdev⟩ := exec_sees (s := exiting d n) (k := 0) rfl rfl (if_pos (by omega))
  obtain ⟨u, hu, hdr', hthr', hdev'⟩ := step_leaves (s := t) (k := 0) (by rw [hthr]; simp) (by rw [hdev])
  have hrun : exec vdevStep (.blocked d n) ([.appExit, .wake 0, .locked 0 0] ++ [.leave 0]) = some u := by
    rw [exec_append_some]
    exact ⟨t, by rw [exec_cons (blocked_appExit d n), ht], by rw [exec_cons hu]; rfl⟩
  refine h _ [] _ (List.append_nil _).symm hrun ⟨?_, ?_, fun k hk => ?_⟩
  · rw [hdr', hdr]
    exact decide_eq_true hne
  · rw [hdev', hdev]
    exact hne'
  · rw [hthr', hthr, Function.update_idem] at hk ⊢
    have hk₀ : k ≠ 0 := by
      rintro rfl
      simp at hk
    rw [Function.update_of_ne hk₀] at hk ⊢
    refine ⟨?_, by rw [hdev', hdev]; rfl⟩
    by_cases hlt : k < n.toNat
    · exact if_pos hlt
    · exact absurd (if_neg hlt) hk

/-- A thread that comes late stays blocked. -/
theorem late_deadlock (d : VbDev) :
    ¬ Always vdevStep (fun s => ¬ Deadlock s) (.blocked d 1) [.appExit, .wake 0, .locked 0 0, .enter 1, .leave 0] := by
  intro h
  obtain ⟨t, ht, hdr, hthr, hdev⟩ := exec_sees (s := exiting d 1) (k := 0) rfl rfl rfl
  have hcount : t.dev.refcount = 1 := by
    rw [hdev]
    rfl
  obtain ⟨u, hu, hdr', hthr', hdev'⟩ := step_enters (s := t) (k := 1) (by rw [hthr]; rfl) (by rw [hcount]; decide)
  obtain ⟨v, hv, hdr'', hthr'', hdev''⟩ := step_leaves (s := u) (k := 0) (by rw [hthr', hthr]; simp)
    (by rw [hdev', hdev])
  have hrun : exec vdevStep (.blocked d 1) ([.appExit, .wake 0, .locked 0 0] ++ [.enter 1, .leave 0]) = some v := by
    rw [exec_append_some]
    exact ⟨t, by rw [exec_cons (blocked_appExit d 1), ht], by rw [exec_cons hu, exec_cons hv]; rfl⟩
  refine h _ [] _ (List.append_nil _).symm hrun ⟨?_, ?_, fun k hk => ?_⟩
  · rw [hdr'', hdr', hdr]
    rfl
  · have hlast : v.dev.refcount = t.dev.refcount + 1 - 1 := by
      rw [hdev'', hdev']
      rfl
    rw [hlast, hcount]
    decide
  · refine ⟨?_, by rw [hdev'', hdev', hdev]; rfl⟩
    rw [hthr'', hthr', hthr] at hk ⊢
    by_cases hk₀ : k = 0
    · simp [hk₀] at hk
    by_cases hk₁ : k = 1
    · simp [hk₁]
    · simp only [Function.update_of_ne hk₀, Function.update_of_ne hk₁] at hk
      have hout : (exiting d 1).threads k = .out := if_neg (by simp; omega)
      exact absurd hout hk

/-! ## The exit -/

/-- Every state after the exit satisfies `P`, if `I` is an invariant that gives
`P`. -/
theorem always_exiting {I P : Vdev → Prop} {C : VdevAct → Prop}
    (hI : ∀ s act t, I s → vdevStep s act = some t → C act → I t) (hP : ∀ s, I s → P s) {d : VbDev} {n : BitVec 32}
    (h₀ : P (.blocked d n)) (h₁ : I (exiting d n)) {as : List VdevAct} (ha : ∀ a ∈ as, C a) :
    Always vdevStep P (.blocked d n) (.appExit :: as) := by
  have heach : Each vdevStep (fun _ act _ => C act) (exiting d n) as := by
    intro bs a cs _ _ e _ _
    exact ha a (by simp [e])
  have halways := inv_each hI h₁ heach
  rw [always_iff_each, each_cons]
  refine ⟨h₀, fun t ht => ?_⟩
  cases (blocked_appExit d n).symm.trans ht
  refine ⟨hP _ h₁, fun bs a cs t u e he hu => hP _ ?_⟩
  exact (always_iff_each.mp halways).2 bs a cs t u e he hu

/-- The exit cannot hang exactly when no thread is blocked, or one is and none
comes later. -/
theorem drain_iff (d : VbDev) (n : BitVec 32) (late : Bool) :
    (∀ as, (∀ a ∈ as, AfterExit late a) →
      Always vdevStep (fun s => ¬ Deadlock s) (.blocked d n) (.appExit :: as)) ↔
    n = 0 ∨ (n = 1 ∧ late = false) := by
  constructor
  · intro h
    by_contra hc
    obtain ⟨hn, hlate⟩ := not_or.mp hc
    by_cases hone : n = 1
    · subst hone
      refine late_deadlock d (h _ fun a ha => ?_)
      have hl : late = true := by simpa using hlate
      simp only [List.mem_cons, List.not_mem_nil, or_false] at ha
      rcases ha with rfl | rfl | rfl | rfl
      · trivial
      · trivial
      · exact hl
      · trivial
    · have htwo : 1 < n := by bv_omega
      refine two_deadlock d htwo (h _ fun a ha => ?_)
      simp only [List.mem_cons, List.not_mem_nil, or_false] at ha
      rcases ha with rfl | rfl | rfl <;> trivial
  · rintro (rfl | ⟨rfl, rfl⟩) as ha
    · refine always_exiting (I := fun s => s.draining = false) (C := AfterExit late) (fun s act t h hs hc => ?_)
        (fun s h hd => nomatch h.symm.trans hd.1) (fun hd => nomatch hd.1) rfl ha
      exact step_not_draining s act t h hs (by rintro rfl; exact hc)
    · exact always_exiting step_drains (fun s h => h.not_deadlock) (fun hd => nomatch hd.1) (drains_exiting d) ha

/-- Two threads are blocked when the VM exits. -/
theorem two_threads_deadlock :
    ¬ ∀ as, (∀ a ∈ as, AfterExit false a) →
      Always vdevStep (fun s => ¬ Deadlock s) (.blocked { label := 1 } 2) (.appExit :: as) := by
  intro h
  exact two_deadlock { label := 1 } (by decide) (h [.wake 0, .locked 0 0, .leave 0] (by simp [AfterExit]))

end GH.Proof.Virtio
