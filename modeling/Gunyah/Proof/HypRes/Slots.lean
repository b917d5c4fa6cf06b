import Gunyah.Framework.Cells
import Gunyah.Proof.Proxy.Slots
import Gunyah.Spec.Rm.HypRes
import Mathlib.Algebra.BigOperators.Pi
import Mathlib.Algebra.Order.BigOperators.Group.Finset
import Mathlib.Algebra.Order.Group.Multiset
import Mathlib.Tactic.Abel

/-!
# What is counted for a slot

The interrupts that the proxy scheduler has requested and its counts of vCPUs
and VMs are the sums of what its slots account for (`Ledger`). Each operation
for a VM changes the slot that the lookup of the VM finds (`At`), and the
interrupts and counts by the same (`Moves`), so that the ledger stays right.
-/

namespace GH.Proof.HypRes

open GH.Impl GH.Impl.Rm GH.Impl.Proxy GH.Spec.Rm GH.Slots
open GH.Proof.Proxy (keys keys_eq_some keys_eq_none ghGetVm_eq)

/-! ## The ledger -/

/-- Interrupts, vCPUs and VMs. -/
abbrev Tally := Multiset (Int × IrqDev) × ℕ × ℕ

/-- What an entry of a vCPU counts for: its interrupt and one vCPU. -/
def vcpuTally (i : Slot) (j : Nat) (c : ProxyVcpu) : Tally :=
  if c.virq = IRQ_INVAL then 0 else ({(c.virq, .vcpu i j)}, 1, 0)

/-- What a VPM group counts for: its interrupt. -/
def vpmTally (vm : ProxyVm) : Tally := if vm.isVpmGroupInfoPopulated then ({(vm.suspResIrq, .vpmGroup)}, 0, 0) else 0

/-- What a VM counts for. -/
def vmTally (vm : ProxyVm) : Tally := if vm.isVcpuInfoPopulated then (0, 0, 1) else 0

/-- What a slot accounts for. -/
def slotTally (i : Slot) (vm : ProxyVm) : Tally := (vm.vcpu.mapIdx (vcpuTally i)).sum + vpmTally vm + vmTally vm

/-- The counts of the scheduler. -/
def total (s : Sched) : Tally := (s.irqs, s.nrVcpus, s.nrVms)

/-- The counts are the sum over the slots. -/
def Ledger (s : Sched) : Prop := total s = ∑ i, slotTally i (s.vms i)

/-- The slot `i` becomes `vm`, and the interrupts and counts change by the same. -/
structure Moves (s : Sched) (i : Slot) (vm : ProxyVm) (t : Sched) : Prop where
  vms : t.vms = Function.update s.vms i vm
  tally : total t + slotTally i (s.vms i) = total s + slotTally i vm
  initDone : t.initDone = s.initDone

variable {s t u : Sched} {v : VmId} {i : Slot} {vm vm' : ProxyVm}

theorem Moves.refl (s : Sched) (i : Slot) : Moves s i (s.vms i) s := ⟨by simp, rfl, rfl⟩

theorem Moves.self (h : Moves s i vm t) : t.vms i = vm := by rw [h.vms, Function.update_self]

theorem Moves.trans (h : Moves s i vm t) (h' : Moves t i vm' u) : Moves s i vm' u := by
  refine ⟨by rw [h'.vms, h.vms, Function.update_idem], ?_, h'.initDone.trans h.initDone⟩
  have h₁ := h.tally
  have h₂ := h'.tally
  rw [h.self] at h₂
  refine add_right_cancel (b := slotTally i vm) ?_
  calc total u + slotTally i (s.vms i) + slotTally i vm
      = total u + slotTally i vm + slotTally i (s.vms i) := add_right_comm ..
    _ = total t + slotTally i (s.vms i) + slotTally i vm' := by rw [h₂, add_right_comm]
    _ = total s + slotTally i vm' + slotTally i vm := by rw [h₁, add_right_comm]

theorem Moves.ledger (h : Moves s i vm t) (hs : Ledger s) : Ledger t := by
  have hsum := GH.Cells.sum_update_add slotTally s.vms i vm
  refine add_right_cancel (b := slotTally i (s.vms i)) ?_
  rw [h.tally, h.vms, hsum, hs]

/-- What a slot accounts for is part of the whole. -/
theorem Ledger.slot (h : Ledger s) (i : Slot) : ∃ r, total s = r + slotTally i (s.vms i) := by
  rw [h, ← Finset.add_sum_erase Finset.univ _ (Finset.mem_univ i)]
  exact ⟨_, add_comm _ _⟩

/-- A slot accounts for no more vCPUs than it has. -/
theorem slotTally_vcpus (i : Slot) (vm : ProxyVm) : (slotTally i vm).2.1 ≤ vm.vcpu.length := by
  have hsum : ∀ l : List ProxyVcpu, ((l.mapIdx (vcpuTally i)).sum).2.1 ≤ l.length := by
    intro l
    induction l using List.reverseRecOn with
    | nil => exact Nat.le_refl 0
    | append_singleton l c ih =>
      simp only [List.mapIdx_concat, List.sum_append, List.sum_singleton, Prod.snd_add, Prod.fst_add, List.length_append,
        List.length_singleton]
      refine Nat.add_le_add ih ?_
      unfold vcpuTally
      split
      · exact Nat.zero_le 1
      · exact Nat.le_refl 1
  have hvpm : (vpmTally vm).2.1 = 0 := by unfold vpmTally; split <;> rfl
  have hvm : (vmTally vm).2.1 = 0 := by unfold vmTally; split <;> rfl
  simp only [slotTally, Prod.snd_add, Prod.fst_add, hvpm, hvm, add_zero]
  exact hsum vm.vcpu

/-- A slot accounts for its VM if that is complete. -/
theorem slotTally_vms (i : Slot) (vm : ProxyVm) : (slotTally i vm).2.2 = if vm.isVcpuInfoPopulated then 1 else 0 := by
  have hsum : ∀ l : List ProxyVcpu, ((l.mapIdx (vcpuTally i)).sum).2.2 = 0 := by
    intro l
    induction l using List.reverseRecOn with
    | nil => rfl
    | append_singleton l c ih =>
      simp only [List.mapIdx_concat, List.sum_append, List.sum_singleton, Prod.snd_add, ih, zero_add]
      unfold vcpuTally
      split <;> rfl
  have hvpm : (vpmTally vm).2.2 = 0 := by unfold vpmTally; split <;> rfl
  simp only [slotTally, Prod.snd_add, hsum, hvpm, zero_add]
  unfold vmTally
  split <;> rfl

/-- There is room for a vCPU in the system while there is in a slot. -/
theorem Ledger.vcpu_room (h : Ledger s) (hlen : ∀ j, (s.vms j).vcpuCount ≤ GH_MAX_VCPUS_PER_VM)
    (hi : (s.vms i).vcpuCount < GH_MAX_VCPUS_PER_VM) : s.nrVcpus < GH_MAX_SYSTEM_VCPUS := by
  have hcount : s.nrVcpus = ∑ j, (slotTally j (s.vms j)).2.1 := by
    have hsum := congrArg (·.2.1) h
    simp only [Prod.snd_sum, Prod.fst_sum] at hsum
    exact hsum
  calc s.nrVcpus
      = ∑ j, (slotTally j (s.vms j)).2.1 := hcount
    _ < ∑ _j : Slot, GH_MAX_VCPUS_PER_VM :=
        Finset.sum_lt_sum (fun j _ => (slotTally_vcpus j _).trans (hlen j))
          ⟨i, Finset.mem_univ i, (slotTally_vcpus i _).trans_lt hi⟩
    _ = GH_MAX_SYSTEM_VCPUS := by decide

/-- There is room for a VM while one is not complete. -/
theorem Ledger.vm_room (h : Ledger s) (hi : (s.vms i).isVcpuInfoPopulated = false) : s.nrVms < GH_MAX_VMS := by
  have hcount : s.nrVms = ∑ j, (slotTally j (s.vms j)).2.2 := by
    have hsum := congrArg (·.2.2) h
    simp only [Prod.snd_sum] at hsum
    exact hsum
  calc s.nrVms
      = ∑ j, (slotTally j (s.vms j)).2.2 := hcount
    _ < ∑ _j : Slot, 1 := by
        refine Finset.sum_lt_sum (fun j _ => ?_) ⟨i, Finset.mem_univ i, ?_⟩
        · rw [slotTally_vms]
          split
          · exact Nat.le_refl 1
          · exact Nat.zero_le 1
        · rw [slotTally_vms, hi]
          exact Nat.one_pos
    _ = GH_MAX_VMS := by decide

/-- An interrupt is requested. -/
theorem total_request {x : Int × IrqDev} {a : Nat} (hi : t.irqs = x :: s.irqs) (hv : t.nrVcpus = s.nrVcpus + a)
    (hm : t.nrVms = s.nrVms) : total t = total s + ({x}, a, 0) := by
  refine Prod.ext ?_ (Prod.ext hv hm)
  show (t.irqs : Multiset (Int × IrqDev)) = (s.irqs : Multiset (Int × IrqDev)) + {x}
  rw [hi, ← Multiset.cons_coe, ← Multiset.singleton_add, add_comm]

/-- An interrupt of a slot is freed. -/
theorem total_free {x : Int × IrqDev} {a : Nat} {r : Tally} (hs : total s = r + ({x}, a, 0))
    (hi : t.irqs = s.irqs.erase x) (hv : t.nrVcpus = s.nrVcpus - a) (hm : t.nrVms = s.nrVms) :
    total t + ({x}, a, 0) = total s := by
  have hirqs : (s.irqs : Multiset (Int × IrqDev)) = r.1 + {x} := congrArg Prod.fst hs
  have hcount : s.nrVcpus = r.2.1 + a := congrArg (·.2.1) hs
  have hmem : x ∈ s.irqs := by
    rw [← Multiset.mem_coe, hirqs]
    exact Multiset.mem_add.mpr (.inr (Multiset.mem_singleton_self x))
  refine Prod.ext ?_ (Prod.ext ?_ ?_)
  · show (t.irqs : Multiset (Int × IrqDev)) + {x} = (s.irqs : Multiset (Int × IrqDev))
    rw [hi, add_comm, Multiset.singleton_add, Multiset.cons_coe]
    exact (Multiset.coe_eq_coe.mpr (List.perm_cons_erase hmem)).symm
  · show t.nrVcpus + a = s.nrVcpus
    omega
  · exact hm

/-! ## The slot of a VM -/

/-- The lookup of the VM finds slot `i`, which is its own or free. -/
structure At (s : Sched) (v : VmId) (i : Slot) : Prop where
  valid : v ≠ GH_VMID_INVAL
  lookup : ghGetVm s v = i
  own : (s.vms i).id = v ∨ (s.vms i).id = GH_VMID_INVAL
  initDone : s.initDone = true

theorem getVm_iff (hv : v ≠ GH_VMID_INVAL) (hi : (s.vms i).id = v ∨ (s.vms i).id = GH_VMID_INVAL) :
    ghGetVm s v = i ↔ ∀ j < i, (s.vms j).id ≠ v ∧ (s.vms j).id ≠ GH_VMID_INVAL := by
  rw [ghGetVm_eq hv, search_eq_iff (by rwa [keys_eq_some hv, keys_eq_none])]
  simp only [ne_eq, keys_eq_some hv, keys_eq_none]

theorem At.moves (h : At s v i) (hm : Moves s i vm t) (hid : vm.id = v ∨ vm.id = GH_VMID_INVAL) : At t v i := by
  refine ⟨h.valid, ?_, by rwa [hm.self], hm.initDone.trans h.initDone⟩
  rw [getVm_iff h.valid (by rwa [hm.self])]
  intro j hj
  rw [hm.vms, Function.update_of_ne hj.ne]
  exact (getVm_iff h.valid h.own).mp h.lookup j hj

/-- A VM without a slot, while one is free. -/
theorem at_free (hv : v ≠ GH_VMID_INVAL) (hinit : s.initDone = true) (hno : ∀ i, (s.vms i).id ≠ v) (hfree : FreeSlot s) :
    ∃ i, At s v i ∧ (s.vms i).id = GH_VMID_INVAL := by
  obtain ⟨k, hk⟩ := hfree
  have hex : ∃ k : Slot, (s.vms k).id = GH_VMID_INVAL := ⟨k, hk⟩
  refine ⟨Fin.find _ hex, ⟨hv, ?_, .inr (Fin.find_spec hex), hinit⟩, Fin.find_spec hex⟩
  rw [getVm_iff hv (.inr (Fin.find_spec hex))]
  exact fun j hj => ⟨hno j, Fin.find_min hex hj⟩

theorem At.supports (h : At s v i) : isVmSupportsProxy s v = true ↔ (s.vms i).id = v ∧ (s.vms i).vcpu ≠ [] := by
  unfold isVmSupportsProxy
  rw [h.lookup]
  simp only [ProxyVm.vcpuCount, decide_eq_true_eq, gt_iff_lt, List.length_pos_iff]
  refine and_congr_left fun _ => ⟨h.own.resolve_right, fun hid => ?_⟩
  rw [hid]
  exact h.valid

/-- The VM has its slot, with vCPUs. -/
def Proxied (vm : ProxyVm) (v : VmId) : Prop := vm.id = v ∧ vm.vcpu ≠ []

theorem At.supports_of (h : At s v i) (hp : Proxied (s.vms i) v) : isVmSupportsProxy s v = true := h.supports.mpr hp

theorem At.not_supports (h : At s v i) (hp : ¬ Proxied (s.vms i) v) : isVmSupportsProxy s v = false :=
  Bool.eq_false_iff.mpr (mt h.supports.mp hp)

/-! ## Populate -/

/-- A slot with one more vCPU. -/
def addVcpu (vm : ProxyVm) (v : VmId) (e : ResEntry) (irq : Int) : ProxyVm :=
  { vm with id := v, vcpu := vm.vcpu ++ [⟨e.capId, e.label, irq, false, false⟩] }

/-- The scheduler with a vCPU more. -/
def fillVcpu (s : Sched) (v : VmId) (e : ResEntry) (irq : Int) : Sched :=
  { s.set (ghGetVm s v) (addVcpu (s.vms (ghGetVm s v)) v e irq) with
    nrVcpus := s.nrVcpus + 1
    irqs := (irq, .vcpu (ghGetVm s v) (s.vms (ghGetVm s v)).vcpuCount) :: s.irqs }

/-- The callback for a vCPU, while the VM is not complete and there is room. -/
theorem populateVcpu_eq {s : Tables} (e : ResEntry) (irq : Int) (t : VcpuTry) (h : At s.sched v i)
    (hflag : (s.sched.vms i).isVcpuInfoPopulated = false) (hroom : (s.sched.vms i).vcpuCount < GH_MAX_VCPUS_PER_VM)
    (hsys : s.sched.nrVcpus < GH_MAX_SYSTEM_VCPUS) :
    populateVcpu v e irq s t =
      if Skips v irq t then (s, 0)
      else if 0 ≤ t.irqRet ∧ t.ws = true then ({ s with sched := fillVcpu s.sched v e irq }, t.irqRet)
      else (s, t.irqRet) := by
  have hinit : ¬ s.sched.initDone = false := by rw [h.initDone]; decide
  have hof : ∀ {sched : Sched} {ret : Int}, ghPopulateVmVcpuInfo s.sched
      { vmid := v, cpuIdx := e.label, capId := e.capId, virqNum := irq, trustedVm := t.trustedVm, oemVm := t.oemVm,
        irqRet := t.irqRet, ws := t.ws } = (sched, ret) →
        populateVcpu v e irq s t = ({ s with sched := sched }, ret) := by
    intro sched ret heq
    rw [populateVcpu, heq]
  by_cases hother : isOther t.trustedVm v ∧ isOther t.oemVm v
  · rw [if_pos (show Skips v irq t from .inl hother)]
    refine hof ?_
    rw [ghPopulateVmVcpuInfo, if_neg hinit, if_pos hother]
  by_cases hirq : irq = 0 ∨ irq = IRQ_INVAL
  · rw [if_pos (show Skips v irq t from .inr hirq)]
    refine hof ?_
    rw [ghPopulateVmVcpuInfo, if_neg hinit, if_neg hother, if_neg (Nat.not_le.mpr hsys), if_pos hirq]
  rw [if_neg (show ¬ Skips v irq t from not_or.mpr ⟨hother, hirq⟩)]
  have hslot : ∀ {r : Sched × Int},
      (if t.irqRet < 0 then (s.sched, t.irqRet) else if t.ws = false then (s.sched, t.irqRet)
        else (fillVcpu s.sched v e irq, t.irqRet)) = r →
      populateVcpu v e irq s t = ({ s with sched := r.1 }, r.2) := by
    intro r hr
    refine hof ?_
    rw [ghPopulateVmVcpuInfo, if_neg hinit, if_neg hother, if_neg (Nat.not_le.mpr hsys), if_neg hirq]
    simp only [h.lookup]
    rw [if_neg (by rw [hflag]; decide), if_neg (Nat.not_le.mpr hroom), ← hr]
    simp only [fillVcpu, h.lookup]
    rfl
  by_cases hret : t.irqRet < 0
  · rw [if_neg fun hc => absurd hret (Int.not_lt.mpr hc.1)]
    exact hslot (if_pos hret)
  by_cases hws : t.ws = false
  · rw [if_neg fun hc => absurd (hws.symm.trans hc.2) (by decide)]
    exact hslot ((if_neg hret).trans (if_pos hws))
  · rw [if_pos ⟨Int.not_lt.mp hret, by simpa using hws⟩]
    exact hslot ((if_neg hret).trans (if_neg hws))

theorem slotTally_addVcpu {e : ResEntry} {irq : Int} (hirq : irq ≠ IRQ_INVAL) :
    slotTally i (addVcpu vm v e irq) = slotTally i vm + ({(irq, .vcpu i vm.vcpuCount)}, 1, 0) := by
  simp only [slotTally, addVcpu, List.mapIdx_concat, List.sum_append, List.sum_singleton, vcpuTally, if_neg hirq]
  rw [show vpmTally _ = vpmTally vm from rfl, show vmTally _ = vmTally vm from rfl]
  simp only [ProxyVm.vcpuCount]
  abel

theorem fillVcpu_moves {e : ResEntry} {irq : Int} (h : At s v i) (hirq : irq ≠ IRQ_INVAL) :
    Moves s i (addVcpu (s.vms i) v e irq) (fillVcpu s v e irq) := by
  unfold fillVcpu
  rw [h.lookup]
  refine ⟨rfl, ?_, rfl⟩
  have htotal : total (fillVcpu s v e irq) = total s + ({(irq, .vcpu i (s.vms i).vcpuCount)}, 1, 0) :=
    total_request (by rw [fillVcpu, h.lookup]) rfl rfl
  rw [fillVcpu, h.lookup] at htotal
  rw [htotal, slotTally_addVcpu hirq, add_right_comm, add_assoc]

/-- A slot with its VPM group. -/
def addVpmGrp (vm : ProxyVm) (c : BitVec 64) (irq : Int) : ProxyVm :=
  { vm with vpmgCapId := c, suspResIrq := irq, isVpmGroupInfoPopulated := true }

/-- The callback for a VPM group leaves the slot as it is, or fills in the group of a
VM that has its slot. -/
theorem populateVpmGrp_moves (c : BitVec 64) (irq ret : Int) (h : At s v i) :
    (ghPopulateVmVpmGrpInfo s v c irq ret).1 = s ∨
      Proxied (s.vms i) v ∧ 0 ≤ (ghPopulateVmVpmGrpInfo s v c irq ret).2 ∧
        Moves s i (addVpmGrp (s.vms i) c irq) (ghPopulateVmVpmGrpInfo s v c irq ret).1 := by
  have hinit : ¬ s.initDone = false := by rw [h.initDone]; decide
  unfold ghPopulateVmVpmGrpInfo
  rw [if_neg hinit]
  split
  · exact .inl rfl
  rename_i hsup
  split
  · exact .inl rfl
  simp only [h.lookup]
  split
  · exact .inl rfl
  rename_i hflag
  split
  · exact .inl rfl
  rename_i hret
  have htotal : total { s.set i (addVpmGrp (s.vms i) c irq) with irqs := (irq, .vpmGroup) :: s.irqs } =
      total s + ({(irq, .vpmGroup)}, 0, 0) := total_request rfl rfl rfl
  refine .inr ⟨h.supports.mp (by simpa using hsup), Int.not_lt.mp hret, rfl, ?_, rfl⟩
  refine (congrArg (· + slotTally i (s.vms i)) htotal).trans ((add_assoc ..).trans (congrArg (total s + ·) ?_))
  simp only [slotTally, addVpmGrp, vpmTally, hflag, Bool.false_eq_true, if_false, if_true, add_zero]
  rw [show vmTally _ = vmTally (s.vms i) from rfl]
  abel

/-- It fails only where the interrupt is refused. -/
theorem populateVpmGrp_ret {c : BitVec 64} {irq ret : Int} (h : At s v i) (hirq : 0 ≤ irq) (hret : ¬ Refuses ret) :
    ¬ Refuses (ghPopulateVmVpmGrpInfo s v c irq ret).2 := by
  have hinit : ¬ s.initDone = false := by rw [h.initDone]; decide
  unfold ghPopulateVmVpmGrpInfo
  rw [if_neg hinit]
  split
  · exact fun hr => absurd hr.1 (Int.lt_irrefl 0)
  rw [if_neg (Int.not_lt.mpr hirq)]
  simp only
  split
  · exact fun hr => absurd hr.1 (Int.lt_irrefl 0)
  split
  · exact hret
  · exact hret

/-- `gh_wdog_manage` fails for a VM without vCPUs, and else changes only the watchdog. -/
theorem wdogManage_moves {c : BitVec 64} {b : Bool} (h : At s v i) :
    (¬ Proxied (s.vms i) v ∧ ghWdogManage s v c b = (s, -EINVAL)) ∨
      Proxied (s.vms i) v ∧ ∃ t w, Moves s i { s.vms i with wdogCapId := w } t ∧ ghWdogManage s v c b = (t, 0) := by
  have hinit : ¬ s.initDone = false := by rw [h.initDone]; decide
  unfold ghWdogManage
  rw [if_neg hinit]
  split
  · rename_i hsup
    refine .inl ⟨fun hp => ?_, rfl⟩
    rw [h.supports_of hp] at hsup
    cases hsup
  · rename_i hsup
    simp only [h.lookup]
    exact .inr ⟨h.supports.mp (by simpa using hsup), s.set i { s.vms i with wdogCapId := if b then c else GH_CAPID_INVAL },
      if b then c else GH_CAPID_INVAL, ⟨rfl, rfl, rfl⟩, rfl⟩

/-- A VM that is complete. -/
def complete (vm : ProxyVm) : ProxyVm := { vm with isVcpuInfoPopulated := true, isActive := true }

/-- What `gh_populate_all_res_info` makes of a VM that it handles. -/
theorem allRes_proxied (h : At s v i) (hroom : s.nrVms < GH_MAX_VMS) (hp : Proxied (s.vms i) v) (b : Bool) :
    ghPopulateAllResInfo s v b =
      if b then
        if (s.vms i).isVcpuInfoPopulated then s else { s.set i (complete (s.vms i)) with nrVms := s.nrVms + 1 }
      else if (s.vms i).isVcpuInfoPopulated then { s.set i (ghResetVm (s.vms i)) with nrVms := s.nrVms - 1 }
      else s := by
  rw [ghPopulateAllResInfo, if_neg (by rw [h.initDone]; decide), if_neg (by rw [h.supports_of hp]; decide),
    if_neg (Nat.not_le.mpr hroom)]
  simp only [h.lookup]
  rfl

theorem allRes_moves (h : At s v i) (hroom : s.nrVms < GH_MAX_VMS) (hp : Proxied (s.vms i) v)
    (hflag : (s.vms i).isVcpuInfoPopulated = false) :
    Moves s i (complete (s.vms i)) (ghPopulateAllResInfo s v true) := by
  have hres : ghPopulateAllResInfo s v true = { s.set i (complete (s.vms i)) with nrVms := s.nrVms + 1 } := by
    rw [allRes_proxied h hroom hp, if_pos rfl, if_neg (by rw [hflag]; decide)]
  rw [hres]
  refine ⟨rfl, ?_, rfl⟩
  have htotal : total { s.set i (complete (s.vms i)) with nrVms := s.nrVms + 1 } = total s + (0, 0, 1) :=
    Prod.ext (add_zero _).symm rfl
  have hvpm : vpmTally (complete (s.vms i)) = vpmTally (s.vms i) := rfl
  rw [htotal, add_assoc]
  congr 1
  simp only [slotTally, hvpm]
  simp only [complete, vmTally, hflag, Bool.false_eq_true, if_false, if_true, add_zero]
  rw [add_comm]

theorem allRes_not_proxied {b : Bool} (h : At s v i) (hp : ¬ Proxied (s.vms i) v) : ghPopulateAllResInfo s v b = s := by
  rw [ghPopulateAllResInfo, if_neg (by rw [h.initDone]; decide), if_pos (h.not_supports hp)]

/-! ## Unpopulate -/

/-- A slot with one vCPU less that is in use. -/
def dropVcpu (vm : ProxyVm) (j : Nat) (c : ProxyVcpu) : ProxyVm :=
  { vm with vcpu := vm.vcpu.set j { c with virq := IRQ_INVAL } }

theorem slotTally_dropVcpu {j : Nat} {c : ProxyVcpu} (hj : vm.vcpu[j]? = some c) (hc : c.virq ≠ IRQ_INVAL) :
    slotTally i vm = slotTally i (dropVcpu vm j c) + ({(c.virq, .vcpu i j)}, 1, 0) := by
  have hget : (vm.vcpu.mapIdx (vcpuTally i))[j]? = some ({(c.virq, .vcpu i j)}, 1, 0) := by
    rw [List.getElem?_mapIdx, hj, Option.map_some, vcpuTally, if_neg hc]
  have hsum := GH.Cells.sum_set_add hget 0
  have hdrop : vcpuTally i j { c with virq := IRQ_INVAL } = 0 := if_pos rfl
  rw [add_zero] at hsum
  simp only [slotTally, dropVcpu, List.mapIdx_set, hdrop]
  rw [← hsum, show vpmTally _ = vpmTally vm from rfl, show vmTally _ = vmTally vm from rfl]
  abel

/-- The callback for a vCPU of a VM that is complete: the first with the capability
is freed. -/
theorem unpopulateVcpu_moves {c : BitVec 64} (h : At s v i) (hs : Ledger s) (hp : Proxied (s.vms i) v)
    (hflag : (s.vms i).isVcpuInfoPopulated = true) (hnot : ∀ x ∈ (s.vms i).vcpu, x.capId = c → x.virq ≠ IRQ_INVAL) :
    (ghUnpopulateVmVcpuInfo s v c).2.1 = 0 ∧
    (((ghUnpopulateVmVcpuInfo s v c).1 = s ∧ ∀ x ∈ (s.vms i).vcpu, x.capId ≠ c) ∨
      ∃ j x, (s.vms i).vcpu[j]? = some x ∧ x.capId = c ∧
        Moves s i (dropVcpu (s.vms i) j x) (ghUnpopulateVmVcpuInfo s v c).1) := by
  unfold ghUnpopulateVmVcpuInfo
  rw [if_neg (by rw [h.initDone]; decide), if_neg (by rw [h.supports_of hp]; decide)]
  simp only [h.lookup]
  rw [if_pos hflag]
  cases hj : ghGetVcpu (s.vms i) c with
  | none =>
    refine ⟨rfl, .inl ⟨rfl, fun x hx => ?_⟩⟩
    simpa using List.findIdx?_eq_none_iff.mp hj x hx
  | some j =>
    obtain ⟨hlt, hcap, -⟩ := List.findIdx?_eq_some_iff_getElem.mp hj
    have hget : (s.vms i).vcpu[j]? = some (s.vms i).vcpu[j] := List.getElem?_eq_getElem hlt
    have hcap : (s.vms i).vcpu[j].capId = c := by simpa using hcap
    simp only [hget]
    refine ⟨trivial, .inr ⟨j, _, hget, hcap, rfl, ?_, rfl⟩⟩
    have htally := slotTally_dropVcpu (i := i) hget (hnot _ (List.getElem_mem hlt) hcap)
    obtain ⟨r, hr⟩ := hs.slot i
    rw [htally, ← add_assoc] at hr
    have hfree := total_free
      (t := { s.set i (dropVcpu (s.vms i) j (s.vms i).vcpu[j]) with
        nrVcpus := s.nrVcpus - 1
        irqs := s.irqs.erase ((s.vms i).vcpu[j].virq, .vcpu i j) }) hr rfl rfl rfl
    rw [htally, add_comm (slotTally ..), ← add_assoc]
    exact congrArg (· + _) hfree

/-- A VM without its slot has nothing to take back. -/
theorem unpopulateVcpu_not_proxied {c : BitVec 64} (h : At s v i) (hp : ¬ Proxied (s.vms i) v) :
    ghUnpopulateVmVcpuInfo s v c = (s, 0, none) := by
  rw [ghUnpopulateVmVcpuInfo, if_neg (by rw [h.initDone]; decide), if_pos (h.not_supports hp)]

theorem unpopulateVpmGrp_not_proxied (h : At s v i) (hp : ¬ Proxied (s.vms i) v) :
    ghUnpopulateVmVpmGrpInfo s v = (s, 0, none) := by
  rw [ghUnpopulateVmVpmGrpInfo, if_neg (by rw [h.initDone]; decide), if_pos (h.not_supports hp)]

/-- A slot without its VPM group. -/
def dropVpmGrp (vm : ProxyVm) : ProxyVm := { vm with suspResIrq := IRQ_INVAL, isVpmGroupInfoPopulated := false }

theorem slotTally_dropVpmGrp (hflag : vm.isVpmGroupInfoPopulated = true) :
    slotTally i vm = slotTally i (dropVpmGrp vm) + ({(vm.suspResIrq, .vpmGroup)}, 0, 0) := by
  have hgrp : vpmTally vm = ({(vm.suspResIrq, .vpmGroup)}, 0, 0) := if_pos hflag
  have hno : vpmTally (dropVpmGrp vm) = 0 := if_neg Bool.false_ne_true
  rw [slotTally, slotTally, hgrp, hno, show vmTally (dropVpmGrp vm) = vmTally vm from rfl, dropVpmGrp]
  abel

theorem unpopulateVpmGrp_moves (h : At s v i) (hs : Ledger s) (hp : Proxied (s.vms i) v) :
    (ghUnpopulateVmVpmGrpInfo s v).2.1 = 0 ∧
      (((ghUnpopulateVmVpmGrpInfo s v).1 = s ∧ (s.vms i).isVpmGroupInfoPopulated = false) ∨
        Moves s i (dropVpmGrp (s.vms i)) (ghUnpopulateVmVpmGrpInfo s v).1) := by
  unfold ghUnpopulateVmVpmGrpInfo
  rw [if_neg (by rw [h.initDone]; decide), if_neg (by rw [h.supports_of hp]; decide)]
  simp only [h.lookup]
  by_cases hflag : (s.vms i).isVpmGroupInfoPopulated = true
  · rw [if_pos hflag]
    refine ⟨rfl, .inr ⟨rfl, ?_, rfl⟩⟩
    have htally := slotTally_dropVpmGrp (i := i) hflag
    obtain ⟨r, hr⟩ := hs.slot i
    rw [htally, ← add_assoc] at hr
    have hfree := total_free
      (t := { s.set i (dropVpmGrp (s.vms i)) with irqs := s.irqs.erase ((s.vms i).suspResIrq, .vpmGroup) })
      hr rfl rfl rfl
    rw [htally, add_comm (slotTally ..), ← add_assoc]
    exact congrArg (· + _) hfree
  · rw [if_neg hflag]
    exact ⟨rfl, .inl ⟨rfl, by simpa using hflag⟩⟩

/-- A slot that is free accounts for nothing. -/
theorem slotTally_reset (vm : ProxyVm) : slotTally i (ghResetVm vm) = 0 := rfl

/-- The slot of a VM that is complete, and of which nothing else is left, is freed. -/
theorem allRes_reset (h : At s v i) (hs : Ledger s) (hroom : s.nrVms < GH_MAX_VMS) (hp : Proxied (s.vms i) v)
    (htally : slotTally i (s.vms i) = (0, 0, 1)) (hflag : (s.vms i).isVcpuInfoPopulated = true) :
    Moves s i (ghResetVm (s.vms i)) (ghPopulateAllResInfo s v false) := by
  have hres : ghPopulateAllResInfo s v false =
      { s.set i (ghResetVm (s.vms i)) with nrVms := s.nrVms - 1 } := by
    rw [allRes_proxied h hroom hp, if_neg (by decide), if_pos hflag]
  rw [hres]
  refine ⟨rfl, ?_, rfl⟩
  obtain ⟨r, hr⟩ := hs.slot i
  have hcount : s.nrVms = r.2.2 + 1 := by rw [htally] at hr; exact congrArg (·.2.2) hr
  rw [slotTally_reset, htally, add_zero]
  refine Prod.ext (add_zero _) (Prod.ext rfl ?_)
  show s.nrVms - 1 + 1 = s.nrVms
  omega

end GH.Proof.HypRes
