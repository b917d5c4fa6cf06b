import Gunyah.Spec.Vm.SuspIrq

/-!
# Suspend interrupts and their owners

A VM is written in its place (`write_perm`), so the interrupts of the VMs are those of the others and its own
(`lines_perm`, `lines_write`). `Inv` is what every step keeps: an interrupt that a VM has was requested for it and
not freed since, and was requested for it only. From this follow `suspend_attributed`, for every run, and exactly when
every interrupt has an owner (`lines_owned_iff`).
-/

namespace GH.Proof.SuspIrq

open GH.Impl GH.Impl.SuspIrq GH.Spec.SuspIrq
open GH.Impl.Rm (VmId)

variable {s t : Susp} {vm w : SuspVm} {irq : Int} {a b : Addr} {hist : List Event} {e : Event}

/-- The interrupt has been requested for the VM, and not freed since. -/
abbrev Has (hist : List Event) (irq : Int) (vm : Addr) : Prop := Since (.assigned irq vm) (· = .freed irq) hist

theorem has_cons : Has (e :: hist) irq a ↔ e = .assigned irq a ∨ (e ≠ .freed irq ∧ Has hist irq a) := since_cons_iff

/-! ## The list of VMs -/

theorem line_none (h : vm.suspIrq = -EINVAL) : vm.line = none := if_pos h

theorem line_some (h : vm.suspIrq ≠ -EINVAL) : vm.line = some vm.suspIrq := if_neg h

theorem mem_write (h : w ∈ (s.write vm).vms) : w = vm ∨ (w ∈ s.vms ∧ w.addr ≠ vm.addr) := by
  obtain ⟨v, hv, he⟩ := List.mem_map.mp h
  split_ifs at he with ha
  · exact .inl he.symm
  · exact .inr ⟨he ▸ hv, he ▸ ha⟩

theorem addrs_write : (s.write vm).vms.map SuspVm.addr = s.vms.map SuspVm.addr := by
  show (s.vms.map _).map _ = _
  rw [List.map_map]
  refine List.map_congr_left fun v _ => ?_
  show (if v.addr = vm.addr then vm else v).addr = v.addr
  split_ifs with ha
  · exact ha.symm
  · rfl

/-- A VM is written in its place. -/
theorem write_perm (hn : (s.vms.map SuspVm.addr).Nodup) (hv : vm ∈ s.vms) (ha : w.addr = vm.addr) :
    (s.write w).vms.Perm (w :: s.vms.erase vm) := by
  obtain ⟨l₁, l₂, hl⟩ := List.append_of_mem hv
  have hrest : (l₁ ++ l₂).Perm (s.vms.erase vm) :=
    ((List.perm_middle.symm.trans (List.Perm.of_eq hl.symm)).trans (List.perm_cons_erase hv)).cons_inv
  have hsame : ∀ v ∈ l₁ ++ l₂, (if v.addr = w.addr then w else v) = v := by
    intro v hmem
    rw [hl, List.map_append, List.map_cons] at hn
    have hnot := (List.nodup_cons.mp (List.perm_middle.nodup_iff.mp hn)).1
    rw [← List.map_append] at hnot
    exact if_neg fun he => hnot (List.mem_map.mpr ⟨v, hmem, he.trans ha⟩)
  have hmap : ∀ l : List SuspVm, (∀ v ∈ l, v ∈ l₁ ++ l₂) → l.map (fun v => if v.addr = w.addr then w else v) = l :=
    fun l hsub => (List.map_congr_left fun v hmem => hsame v (hsub v hmem)).trans (List.map_id' l)
  have hw : (s.write w).vms = l₁ ++ w :: l₂ := by
    show s.vms.map _ = _
    rw [hl, List.map_append, List.map_cons, if_pos ha.symm, hmap l₁ fun v => List.mem_append_left _,
      hmap l₂ fun v => List.mem_append_right _]
  rw [hw]
  exact List.perm_middle.trans (hrest.cons w)

theorem lines_perm (hv : vm ∈ s.vms) :
    (s.vms.filterMap SuspVm.line).Perm (vm.line.toList ++ (s.vms.erase vm).filterMap SuspVm.line) := by
  refine ((List.perm_cons_erase hv).filterMap _).trans (List.Perm.of_eq ?_)
  cases h : vm.line with
  | none => rw [List.filterMap_cons_none h]; rfl
  | some irq => rw [List.filterMap_cons_some h]; rfl

theorem lines_write (hn : (s.vms.map SuspVm.addr).Nodup) (hv : vm ∈ s.vms) (ha : w.addr = vm.addr) :
    ((s.write w).vms.filterMap SuspVm.line).Perm (w.line.toList ++ (s.vms.erase vm).filterMap SuspVm.line) := by
  refine ((write_perm hn hv ha).filterMap _).trans (List.Perm.of_eq ?_)
  cases h : w.line with
  | none => rw [List.filterMap_cons_none h]; rfl
  | some irq => rw [List.filterMap_cons_some h]; rfl

/-- A VM whose interrupt stays what it was. -/
theorem owned_write (hn : (s.vms.map SuspVm.addr).Nodup) (hv : vm ∈ s.vms) (ha : w.addr = vm.addr)
    (hl : w.line = vm.line) : Owned (s.write w) ↔ Owned s := by
  have h := (lines_write hn hv ha).trans (List.Perm.of_eq (by rw [hl])) |>.trans (lines_perm hv).symm
  exact ⟨fun ho => ho.trans h, fun ho => ho.trans h.symm⟩

/-! ## What every step keeps -/

/-- An interrupt that is requested belongs to one VM, the one that has its number. -/
structure Inv (s : Susp) : Prop where
  addrs : (s.vms.map SuspVm.addr).Nodup
  old : ∀ vm ∈ s.vms, vm.addr < s.next
  nodup : s.held.Nodup
  has : ∀ vm ∈ s.vms, vm.suspIrq ≠ -EINVAL → Has s.hist vm.suspIrq vm.addr
  pos : ∀ irq ∈ s.held, 0 ≤ irq
  held : ∀ irq vm, Has s.hist irq vm → irq ∈ s.held
  one : ∀ irq a b, Has s.hist irq a → Has s.hist irq b → a = b
  right : Attributed s

theorem inv_init : Inv {} where
  addrs := List.nodup_nil
  old := nofun
  nodup := List.nodup_nil
  has := nofun
  pos := nofun
  held _ _ h := absurd h since_nil
  one _ _ _ h := absurd h since_nil
  right e past h := by simp at h

theorem attributed_cons (h : Attributed s) (he : EventRight e s.hist) (ht : t.hist = e :: s.hist) : Attributed t := by
  intro e' past hs
  rw [ht] at hs
  rcases List.suffix_cons_iff.mp hs with hs | hs
  · obtain ⟨rfl, rfl⟩ := List.cons.inj hs
    exact he
  · exact h e' past hs

/-- A VM that keeps its address and its interrupt is written. -/
theorem Inv.write (h : Inv s) (hv : vm ∈ s.vms) (ha : w.addr = vm.addr) (hi : w.suspIrq = vm.suspIrq) :
    Inv (s.write w) where
  addrs := by
    rw [addrs_write]
    exact h.addrs
  old v hm := by
    rcases mem_write hm with rfl | ⟨hm, -⟩
    · exact ha ▸ h.old vm hv
    · exact h.old v hm
  nodup := h.nodup
  has v hm hne := by
    rcases mem_write hm with rfl | ⟨hm, -⟩
    · rw [hi, ha]
      exact h.has vm hv (hi ▸ hne)
    · exact h.has v hm hne
  pos := h.pos
  held := h.held
  one := h.one
  right := h.right

/-- An interrupt is requested for a VM, which may have had another one. -/
theorem Inv.assign (h : Inv s) (hv : vm ∈ s.vms) (hirq : irq ∉ s.held) (hpos : 0 ≤ irq) (capId : BitVec 64) :
    Inv { s.write { vm with capId := capId, suspIrq := irq } with
      held := irq :: s.held, hist := .assigned irq vm.addr :: s.hist } := by
  have hno : ∀ a, ¬ Has s.hist irq a := fun a ha => hirq (h.held irq a ha)
  refine ⟨?_, ?_, List.nodup_cons.mpr ⟨hirq, h.nodup⟩, ?_, List.forall_mem_cons.mpr ⟨hpos, h.pos⟩, ?_, ?_,
    attributed_cons (e := .assigned irq vm.addr) h.right hno rfl⟩
  · show ((s.write _).vms.map _).Nodup
    rw [addrs_write]
    exact h.addrs
  · intro v hm
    rcases mem_write hm with rfl | ⟨hm, -⟩
    · exact h.old vm hv
    · exact h.old v hm
  · intro v hm hne
    rw [has_cons]
    rcases mem_write hm with rfl | ⟨hm, -⟩
    · exact .inl rfl
    · exact .inr ⟨nofun, h.has v hm hne⟩
  · intro i a ha
    rcases has_cons.mp ha with he | ⟨-, ha⟩
    · exact (Event.assigned.inj he).1 ▸ List.mem_cons_self
    · exact List.mem_cons_of_mem _ (h.held i a ha)
  · intro i a b ha hb
    rcases has_cons.mp ha with ha | ⟨-, ha⟩ <;> rcases has_cons.mp hb with hb | ⟨-, hb⟩
    · exact (Event.assigned.inj ha).2.symm.trans (Event.assigned.inj hb).2
    · exact absurd ((Event.assigned.inj ha).1 ▸ hb) (hno b)
    · exact absurd ((Event.assigned.inj hb).1 ▸ ha) (hno a)
    · exact h.one i a b ha hb

/-- The interrupt of a VM is freed. -/
theorem Inv.free (h : Inv s) (hv : vm ∈ s.vms) (hne : vm.suspIrq ≠ -EINVAL) :
    Inv { s.write { vm with suspIrq := -EINVAL } with
      held := s.held.erase vm.suspIrq, hist := .freed vm.suspIrq :: s.hist } := by
  have hhas := h.has vm hv hne
  have hcons : ∀ i a, Has (.freed vm.suspIrq :: s.hist) i a → i ≠ vm.suspIrq ∧ Has s.hist i a := by
    intro i a ha
    rcases has_cons.mp ha with he | ⟨he, ha⟩
    · cases he
    · exact ⟨fun hi => he (hi ▸ rfl), ha⟩
  refine ⟨?_, ?_, h.nodup.erase _, ?_, fun i hi => h.pos i (List.mem_of_mem_erase hi), ?_, ?_,
    attributed_cons (e := .freed vm.suspIrq) h.right ⟨vm.addr, hhas⟩ rfl⟩
  · show ((s.write _).vms.map _).Nodup
    rw [addrs_write]
    exact h.addrs
  · intro v hm
    rcases mem_write hm with rfl | ⟨hm, -⟩
    · exact h.old vm hv
    · exact h.old v hm
  · intro v hm hv'
    rcases mem_write hm with rfl | ⟨hm, ha⟩
    · exact absurd rfl hv'
    · have hhas' := h.has v hm hv'
      refine has_cons.mpr (.inr ⟨fun he => ha ?_, hhas'⟩)
      rw [← Event.freed.inj he] at hhas'
      exact h.one _ _ _ hhas' hhas
  · intro i a ha
    obtain ⟨hi, ha⟩ := hcons i a ha
    exact (List.mem_erase_of_ne hi).mpr (h.held i a ha)
  · intro i a b ha hb
    exact h.one i a b (hcons i a ha).2 (hcons i b hb).2

/-! ## The operations -/

theorem findVmById_mem {vmid : VmId} (h : findVmById s.vms vmid = some vm) : vm ∈ s.vms := List.mem_of_find?_eq_some h

theorem vm_mem (h : s.vm a = some vm) : vm ∈ s.vms := List.mem_of_find?_eq_some h

/-- What `set_vm_vpm_grp_info` does: it fails, or the interrupt is requested, for a VM or for none. -/
inductive Sets (s : Susp) (vmid : VmId) (capId : BitVec 64) (irq : Int) : Susp × Int → Prop where
  | fail {ret : Int} (hret : ret < 0) : Sets s vmid capId irq (s, ret)
  | stray {ret : Int} (hret : ¬ ret < 0) (hpos : 0 ≤ irq) (hirq : irq ∉ s.held) (hvm : findVmById s.vms vmid = none) :
      Sets s vmid capId irq ({ s with held := irq :: s.held }, ret)
  | assign {ret : Int} (hret : ¬ ret < 0) (hpos : 0 ≤ irq) (hirq : irq ∉ s.held) (vm : SuspVm)
      (hvm : findVmById s.vms vmid = some vm) :
      Sets s vmid capId irq ({ s.write { vm with capId := capId, suspIrq := irq } with
        held := irq :: s.held, hist := .assigned irq vm.addr :: s.hist }, ret)

theorem set_cases (s : Susp) (vmid : VmId) (capId : BitVec 64) (virqNum irqRet : Int) :
    Sets s vmid capId virqNum (setVmVpmGrpInfo s vmid capId virqNum irqRet) := by
  unfold setVmVpmGrpInfo
  by_cases hneg : virqNum < 0
  · rw [if_pos hneg]
    exact .fail (by decide)
  rw [if_neg hneg]
  by_cases hret : requestIrq s.held virqNum irqRet < 0
  · simp only [hret, if_true]
    exact .fail hret
  simp only [hret, if_false]
  have hirq : virqNum ∉ s.held := by
    intro hmem
    rw [requestIrq, if_pos hmem] at hret
    exact hret (by decide)
  cases hvm : findVmById s.vms vmid with
  | none => exact .stray hret (Int.not_lt.mp hneg) hirq hvm
  | some vm => exact .assign hret (Int.not_lt.mp hneg) hirq vm hvm

theorem reset_cases (s : Susp) (vmid : VmId) :
    (resetVmVpmGrpInfo s vmid).1 = s ∨ ∃ vm ∈ s.vms, vm.suspIrq ≠ -EINVAL ∧
      (resetVmVpmGrpInfo s vmid).1 = { s.write { vm with suspIrq := -EINVAL } with
        held := s.held.erase vm.suspIrq, hist := .freed vm.suspIrq :: s.hist } := by
  unfold resetVmVpmGrpInfo
  cases hvm : findVmById s.vms vmid with
  | none => exact .inl rfl
  | some vm =>
    by_cases hne : vm.suspIrq ≠ -EINVAL
    · simp only [if_pos hne]
      exact .inr ⟨vm, findVmById_mem hvm, hne, rfl⟩
    · simp only [if_neg hne]
      exact .inl trivial

theorem handler_cases (s : Susp) (irq ret : Int) (vpmgState : BitVec 64) :
    ghSuspIrqHandler s irq ret vpmgState = s ∨ ∃ vm ∈ s.vms, vm.suspIrq = irq ∧
      ghSuspIrqHandler s irq ret vpmgState = { s.write { vm with vmSuspendType := vpmgState } with
        hist := .suspended irq vm.addr vpmgState :: s.hist } := by
  unfold ghSuspIrqHandler
  cases hvm : findVmBySuspIrq s.vms irq with
  | none => exact .inl rfl
  | some vm =>
    simp only
    split_ifs
    · exact .inl rfl
    · exact .inr ⟨vm, List.mem_of_find?_eq_some hvm, by simpa using List.find?_some hvm, rfl⟩
    · exact .inl rfl

/-! ## Runs -/

theorem inv_step (s : Susp) (x : SuspIrq.Act) (t : Susp) (h : Inv s) (ht : step s x = some t) : Inv t := by
  cases x with
  | create =>
    cases ht
    refine ⟨?_, ?_, h.nodup, ?_, h.pos, h.held, h.one, h.right⟩
    · rw [List.map_cons, List.nodup_cons]
      refine ⟨fun hm => ?_, h.addrs⟩
      obtain ⟨v, hv, ha⟩ := List.mem_map.mp hm
      exact absurd (h.old v hv) (by rw [ha]; exact lt_irrefl _)
    · rintro v (_ | ⟨_, hv⟩)
      · exact Nat.lt_succ_self _
      · exact Nat.lt_succ_of_lt (h.old v hv)
    · rintro v (_ | ⟨_, hv⟩) hne
      · exact absurd rfl hne
      · exact h.has v hv hne
  | setVmid vm vmid =>
    obtain ⟨vm, hvm, rfl⟩ := Option.map_eq_some_iff.mp ht
    exact h.write (vm_mem hvm) rfl rfl
  | set vmid capId virqNum irqRet =>
    cases ht
    have hset := set_cases s vmid capId virqNum irqRet
    generalize setVmVpmGrpInfo s vmid capId virqNum irqRet = r at hset
    cases hset with
    | fail _ => exact h
    | stray _ hpos hirq _ =>
      exact ⟨h.addrs, h.old, List.nodup_cons.mpr ⟨hirq, h.nodup⟩, h.has, List.forall_mem_cons.mpr ⟨hpos, h.pos⟩,
        fun i a ha => List.mem_cons_of_mem _ (h.held i a ha), h.one, h.right⟩
    | assign _ hpos hirq vm hvm => exact h.assign (findVmById_mem hvm) hirq hpos capId
  | reset vmid =>
    cases ht
    rcases reset_cases s vmid with hr | ⟨vm, hvm, hne, hr⟩
    · rwa [hr]
    · rw [hr]
      exact h.free hvm hne
  | interrupt irq ret vpmgState =>
    simp only [step, Option.ite_none_right_eq_some, Option.some.injEq] at ht
    obtain ⟨hirq, rfl⟩ := ht
    rcases handler_cases s irq ret vpmgState with hr | ⟨vm, hvm, rfl, hr⟩
    · rwa [hr]
    · rw [hr]
      have hne : vm.suspIrq ≠ -EINVAL := fun he => absurd (he ▸ h.pos _ hirq) (by decide)
      have hcons : ∀ i a, Has (.suspended vm.suspIrq vm.addr vpmgState :: s.hist) i a ↔ Has s.hist i a :=
        fun i a => has_cons.trans (by simp)
      have hw := h.write (w := { vm with vmSuspendType := vpmgState }) hvm rfl rfl
      refine ⟨hw.addrs, hw.old, h.nodup, fun v hv hne => (hcons _ _).mpr (hw.has v hv hne), h.pos,
        fun i a ha => h.held i a ((hcons i a).mp ha), fun i a b ha hb => h.one i a b ((hcons i a).mp ha) ((hcons i b).mp hb),
        attributed_cons (e := .suspended vm.suspIrq vm.addr vpmgState) h.right (h.has vm hvm hne) rfl⟩
  | destroy vm =>
    obtain ⟨vm, hvm, rfl⟩ := Option.map_eq_some_iff.mp ht
    refine ⟨?_, fun v hv => h.old v (List.mem_of_mem_erase hv), h.nodup,
      fun v hv => h.has v (List.mem_of_mem_erase hv), h.pos, h.held, h.one, h.right⟩
    exact h.addrs.sublist (List.erase_sublist.map _)

/-- In every run, a suspend is reported for the VM that its interrupt was requested for and not freed since, and only
an interrupt that is requested for a VM is freed. -/
theorem suspend_attributed (as : List SuspIrq.Act) : Always step Attributed {} as := by
  intro bs cs t _ ht
  exact (inv_exec inv_step inv_init ht).right

theorem owned_step (s : Susp) (x : SuspIrq.Act) (t : Susp) (h : Inv s) (ho : Owned s) (ht : step s x = some t) :
    Owned t ↔ Orderly s x t := by
  cases x with
  | create =>
    cases ht
    exact iff_of_true ho trivial
  | setVmid vm vmid =>
    obtain ⟨vm, hvm, rfl⟩ := Option.map_eq_some_iff.mp ht
    exact iff_of_true ((owned_write (w := { vm with vmid := vmid }) h.addrs (vm_mem hvm) rfl rfl).mpr ho) trivial
  | set vmid capId virqNum irqRet =>
    cases ht
    show Owned (setVmVpmGrpInfo s vmid capId virqNum irqRet).1 ↔ (0 ≤ (setVmVpmGrpInfo s vmid capId virqNum irqRet).2 → _)
    have hset := set_cases s vmid capId virqNum irqRet
    generalize setVmVpmGrpInfo s vmid capId virqNum irqRet = r at hset
    cases hset with
    | fail hret => exact iff_of_true ho fun hok => absurd hret (Int.not_lt.mpr hok)
    | stray hret _ _ hvm =>
      refine iff_of_false (fun hp => ?_) fun hok => ?_
      · have hlen := hp.length_eq
        rw [← ho.length_eq, List.length_cons] at hlen
        omega
      · obtain ⟨vm, hvm', -⟩ := hok (Int.not_lt.mp hret)
        rw [hvm] at hvm'
        cases hvm'
    | assign hret hpos _ vm hvm =>
      have hmem := findVmById_mem hvm
      have hw := lines_write (w := { vm with capId := capId, suspIrq := virqNum }) h.addrs hmem rfl
      have hirq : virqNum ≠ -EINVAL := fun he => absurd (he ▸ hpos) (by decide)
      have hnew : ({ vm with capId := capId, suspIrq := virqNum } : SuspVm).line = some virqNum := line_some hirq
      rw [hnew] at hw
      have hold := ho.trans (lines_perm hmem)
      by_cases hne : vm.suspIrq = -EINVAL
      · rw [line_none hne] at hold
        exact iff_of_true ((hold.cons virqNum).trans hw.symm) fun _ => ⟨vm, hvm, hne⟩
      · rw [line_some hne] at hold
        refine iff_of_false (fun hp => ?_) fun hok => ?_
        · have hlen := (hp.trans hw).length_eq
          have hlen' := hold.length_eq
          simp only [Option.toList_some, List.length_append, List.length_cons, List.length_nil] at hlen hlen'
          omega
        · obtain ⟨vm', hvm', he⟩ := hok (Int.not_lt.mp hret)
          rw [hvm, Option.some.injEq] at hvm'
          exact hne (hvm' ▸ he)
  | reset vmid =>
    cases ht
    refine iff_of_true ?_ trivial
    rcases reset_cases s vmid with hr | ⟨vm, hmem, hne, hr⟩
    · rwa [hr]
    · rw [hr]
      have hw := lines_write (w := { vm with suspIrq := -EINVAL }) h.addrs hmem rfl
      rw [show ({ vm with suspIrq := -EINVAL } : SuspVm).line = none from line_none rfl] at hw
      have hold := (ho.trans (lines_perm hmem)).erase vm.suspIrq
      rw [line_some hne] at hold
      exact (hold.trans (List.Perm.of_eq (List.erase_cons_head ..))).trans hw.symm
  | interrupt irq ret vpmgState =>
    simp only [step, Option.ite_none_right_eq_some, Option.some.injEq] at ht
    obtain ⟨-, rfl⟩ := ht
    refine iff_of_true ?_ trivial
    rcases handler_cases s irq ret vpmgState with hr | ⟨vm, hmem, -, hr⟩
    · rwa [hr]
    · rw [hr]
      exact (owned_write (w := { vm with vmSuspendType := vpmgState }) h.addrs hmem rfl rfl).mpr ho
  | destroy a =>
    obtain ⟨vm, hvm, rfl⟩ := Option.map_eq_some_iff.mp ht
    have hold := ho.trans (lines_perm (vm_mem hvm))
    by_cases hne : vm.suspIrq = -EINVAL
    · rw [line_none hne] at hold
      refine iff_of_true hold fun vm' hvm' => ?_
      rw [hvm, Option.some.injEq] at hvm'
      exact hvm' ▸ hne
    · rw [line_some hne] at hold
      refine iff_of_false (fun hp => ?_) fun hok => hne (hok vm hvm)
      have hlen := hold.length_eq
      rw [hp.length_eq, List.length_append] at hlen
      simp at hlen

/-- In a run, every interrupt that is requested is that of one VM, exactly if VPM groups are set for VMs without an
interrupt, and VMs go without one. -/
theorem lines_owned_iff (as : List SuspIrq.Act) : Always step Owned {} as ↔ Each step Orderly {} as := by
  refine always_iff (I := fun s => Inv s ∧ Owned s) (fun s x t hi ht hc => ?_) (fun s x t hi ht => ?_)
    ⟨inv_init, List.Perm.nil⟩ List.Perm.nil
  · exact ⟨inv_step s x t hi.1 ht, (owned_step s x t hi.1 hi.2 ht).mpr hc⟩
  · exact owned_step s x t hi.1 hi.2 ht

end GH.Proof.SuspIrq
