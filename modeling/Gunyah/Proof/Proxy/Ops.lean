import Gunyah.Spec.Proxy.Sched
import Gunyah.Spec.Proxy.Watchdog

/-!
# What the operations on the table of VMs change

Every operation changes at most the slot that the lookup of its VM gives. All
but `gh_vcpu_run`, the filling in of a vCPU and the emptying of the slot keep
the slot's id, its vCPUs and their watchdogs' flags (`Edits`); what those three
do is said by `vcpuRun_rewrites`, `populateVcpu_of` and `allRes_of`.
-/

namespace GH.Proof.Proxy

open GH.Impl GH.Impl.Proxy GH.Spec.Proxy
open GH.Impl.Rm (VmId GH_VMID_INVAL)

variable {s t : Sched} {v : VmId}


/-- At most slot `i` is changed, and not its id. -/
def Rewrites (s : Sched) (i : Slot) (t : Sched) : Prop :=
  ∃ vm, t.vms = Function.update s.vms i vm ∧ vm.id = (s.vms i).id

theorem Rewrites.refl (s : Sched) (i : Slot) : Rewrites s i s := ⟨s.vms i, by simp, rfl⟩

theorem Rewrites.set (s : Sched) (i : Slot) {vm : ProxyVm} (h : vm.id = (s.vms i).id) : Rewrites s i (s.set i vm) :=
  ⟨vm, rfl, h⟩

theorem Rewrites.trans {u : Sched} {i : Slot} (h : Rewrites s i t) (h' : Rewrites t i u) : Rewrites s i u := by
  obtain ⟨vm, ht, hid⟩ := h
  obtain ⟨vm', hu, hid'⟩ := h'
  refine ⟨vm', by rw [hu, ht, Function.update_idem], ?_⟩
  rw [hid', ht, Function.update_self, hid]

theorem Rewrites.id {i : Slot} (h : Rewrites s i t) (j : Slot) : (t.vms j).id = (s.vms j).id := by
  obtain ⟨vm, ht, hid⟩ := h
  rw [ht, Function.update_apply]
  split
  · rename_i e
    rw [e, hid]
  · rfl

theorem Rewrites.getVm {i : Slot} (h : Rewrites s i t) (v : VmId) : ghGetVm t v = ghGetVm s v := by
  unfold ghGetVm
  simp only [h.id]

/-- No vCPU is lost, and the flags of the watchdogs are as before. -/
structure KeepsVcpus (a b : ProxyVm) : Prop where
  count : a.vcpuCount ≤ b.vcpuCount
  frozen (j : Nat) : (b.vcpu[j]?).any (·.wdogFrozen) = (a.vcpu[j]?).any (·.wdogFrozen)

theorem KeepsVcpus.of_eq {a b : ProxyVm} (h : b.vcpu = a.vcpu) : KeepsVcpus a b where
  count := by rw [ProxyVm.vcpuCount, ProxyVm.vcpuCount, h]
  frozen j := by rw [h]

theorem KeepsVcpus.map {a b : ProxyVm} {f : ProxyVcpu → ProxyVcpu} (h : b.vcpu = a.vcpu.map f)
    (hf : ∀ c, (f c).wdogFrozen = c.wdogFrozen) : KeepsVcpus a b where
  count := by rw [ProxyVm.vcpuCount, ProxyVm.vcpuCount, h, List.length_map]
  frozen j := by
    rw [h, List.getElem?_map, Option.any_map]
    exact congrArg (fun g => Option.any g a.vcpu[j]?) (funext hf)

theorem KeepsVcpus.set {a b : ProxyVm} {k : Nat} {c c' : ProxyVcpu} (hk : a.vcpu[k]? = some c)
    (h : b.vcpu = a.vcpu.set k c') (hc : c'.wdogFrozen = c.wdogFrozen) : KeepsVcpus a b where
  count := by rw [ProxyVm.vcpuCount, ProxyVm.vcpuCount, h, List.length_set]
  frozen j := by
    rw [h]
    by_cases e : k = j
    · subst e
      have hlt : k < a.vcpu.length := (List.getElem?_eq_some_iff.mp hk).1
      rw [List.getElem?_set_self hlt, hk, Option.any_some, Option.any_some, hc]
    · rw [List.getElem?_set_ne e]

theorem KeepsVcpus.append {a b : ProxyVm} {c : ProxyVcpu} (h : b.vcpu = a.vcpu ++ [c])
    (hc : c.wdogFrozen = false) : KeepsVcpus a b where
  count := by
    rw [ProxyVm.vcpuCount, ProxyVm.vcpuCount, h, List.length_append]
    omega
  frozen j := by
    rw [h]
    by_cases hj : j < a.vcpu.length
    · rw [List.getElem?_append_left hj]
    · rw [List.getElem?_append_right (Nat.le_of_not_lt hj), List.getElem?_eq_none (Nat.le_of_not_lt hj)]
      cases j - a.vcpu.length <;> simp [hc]

/-- At most slot `i` is changed, and neither its id nor the watchdogs' flags. -/
def Edits (s : Sched) (i : Slot) (t : Sched) : Prop :=
  ∃ vm, t.vms = Function.update s.vms i vm ∧ vm.id = (s.vms i).id ∧ KeepsVcpus (s.vms i) vm

theorem Edits.refl (s : Sched) (i : Slot) : Edits s i s := ⟨s.vms i, by simp, rfl, .of_eq rfl⟩

theorem Edits.rewrites {i : Slot} (h : Edits s i t) : Rewrites s i t := by
  obtain ⟨vm, ht, hid, -⟩ := h
  exact ⟨vm, ht, hid⟩

/-! ## Filling in a vCPU and emptying a slot -/

/-- The slot after `gh_populate_vm_vcpu_info` has filled in a vCPU. -/
def filled (vm : ProxyVm) (p : PopulateVcpu) : ProxyVm :=
  { vm with id := p.vmid, vcpu := vm.vcpu ++ [⟨p.capId, p.cpuIdx, p.virqNum, false, false⟩] }

theorem populateVcpu_of {p : PopulateVcpu} (hp : Populates s p) :
    (ghPopulateVmVcpuInfo s p).1.vms =
      Function.update s.vms (ghGetVm s p.vmid) (filled (s.vms (ghGetVm s p.vmid)) p) := by
  obtain ⟨h₁, h₂, h₃, h₄, h₅, h₆, h₇, h₈⟩ := hp
  rw [ghPopulateVmVcpuInfo, if_neg (by simp [h₁]), if_neg h₂, if_neg (by omega), if_neg h₄]
  simp only
  rw [if_neg (by simp [h₅]), if_neg (by omega), if_neg (by omega), if_neg (by simp [h₈])]
  rfl

theorem populateVcpu_same {p : PopulateVcpu} (hp : ¬ Populates s p) : (ghPopulateVmVcpuInfo s p).1 = s := by
  unfold ghPopulateVmVcpuInfo
  split
  · rfl
  split
  · rfl
  split
  · rfl
  split
  · rfl
  simp only
  split
  · rfl
  split
  · rfl
  split
  · rfl
  split
  · rfl
  rename_i h₁ h₂ h₃ h₄ h₅ h₆ h₇ h₈
  refine absurd ⟨?_, h₂, Nat.lt_of_not_le h₃, h₄, ?_, Nat.lt_of_not_le h₆, Int.not_lt.mp h₇, ?_⟩ hp
  · simpa using h₁
  · simpa using h₅
  · simpa using h₈

theorem allRes_of (hr : Resets s v) : (ghPopulateAllResInfo s v false).vms =
    Function.update s.vms (ghGetVm s v) (ghResetVm (s.vms (ghGetVm s v))) := by
  obtain ⟨h₁, h₂, h₃, h₄⟩ := hr
  rw [ghPopulateAllResInfo, if_neg (by simp [h₁]), if_neg (by simp [h₂]), if_neg (by omega)]
  simp only
  rw [if_neg (by decide), if_pos h₄]
  rfl

theorem allRes_edits {b : Bool} (hr : ¬(b = false ∧ Resets s v)) :
    Edits s (ghGetVm s v) (ghPopulateAllResInfo s v b) := by
  unfold ghPopulateAllResInfo
  split
  · exact .refl s _
  split
  · exact .refl s _
  split
  · exact .refl s _
  simp only
  split
  · split
    · exact .refl s _
    · exact ⟨_, rfl, rfl, .of_eq rfl⟩
  split
  · rename_i h₁ h₂ h₃ hb h₄
    refine absurd ⟨by simpa using hb, by simpa using h₁, by simpa using h₂, Nat.lt_of_not_le h₃, h₄⟩ hr
  · exact .refl s _

/-! ## The other operations -/

theorem unpopulateVcpu_edits (s : Sched) (v : VmId) (c : BitVec 64) :
    Edits s (ghGetVm s v) (ghUnpopulateVmVcpuInfo s v c).1 := by
  unfold ghUnpopulateVmVcpuInfo
  split
  · exact .refl s _
  split
  · exact .refl s _
  simp only
  split
  · split
    · exact .refl s _
    split
    · exact .refl s _
    · rename_i hc
      exact ⟨_, rfl, rfl, .set hc rfl rfl⟩
  · exact .refl s _

theorem populateVpmGrp_edits (s : Sched) (v : VmId) (c : BitVec 64) (irq ret : Int) :
    Edits s (ghGetVm s v) (ghPopulateVmVpmGrpInfo s v c irq ret).1 := by
  unfold ghPopulateVmVpmGrpInfo
  split
  · exact .refl s _
  split
  · exact .refl s _
  split
  · exact .refl s _
  simp only
  split
  · exact .refl s _
  split
  · exact .refl s _
  · exact ⟨_, rfl, rfl, .of_eq rfl⟩

theorem unpopulateVpmGrp_edits (s : Sched) (v : VmId) :
    Edits s (ghGetVm s v) (ghUnpopulateVmVpmGrpInfo s v).1 := by
  unfold ghUnpopulateVmVpmGrpInfo
  split
  · exact .refl s _
  split
  · exact .refl s _
  simp only
  split
  · exact ⟨_, rfl, rfl, .of_eq rfl⟩
  · exact .refl s _

theorem wdogManage_edits (s : Sched) (v : VmId) (c : BitVec 64) (b : Bool) :
    Edits s (ghGetVm s v) (ghWdogManage s v c b).1 := by
  unfold ghWdogManage
  split
  · exact .refl s _
  split
  · exact .refl s _
  · exact ⟨_, rfl, rfl, .of_eq rfl⟩

theorem wakeupAll_edits (s : Sched) (v : VmId) : Edits s (ghGetVm s v) (ghWakeupAllVcpus s v) := by
  unfold ghWakeupAllVcpus
  simp only
  split
  · exact ⟨_, rfl, rfl, .map rfl fun _ => rfl⟩
  · exact .refl s _

/-! ## Running a vCPU -/

theorem modifyVcpu_rewrites (s : Sched) (i : Slot) (j : Nat) (f : ProxyVcpu → ProxyVcpu) :
    Rewrites s i (s.modifyVcpu i j f) := .set s i rfl

/-- Each turn of the loop works on the slot that the VM had at its start. -/
theorem vcpuRunLoop_rewrites {i : Slot} {j : Nat} {ts : List RunTurn} {r : Int} (hi : ghGetVm s v = i)
    (h : ghVcpuRunLoop s v i j ts = some (t, r)) : Rewrites s i t := by
  induction ts generalizing s with
  | nil => cases h
  | cons u ts ih =>
    simp only [ghVcpuRunLoop] at h
    have hmod := modifyVcpu_rewrites s i j fun c => { c with abortSleep := false, wdogFrozen := frozenAfter u }
    generalize s.modifyVcpu i j (fun c => { c with abortSleep := false, wdogFrozen := frozenAfter u }) = s₁ at h hmod
    have hexit : Rewrites s i (if u.vmExit then ghWakeupAllVcpus s₁ v else s₁) := by
      split
      · have hwake := (wakeupAll_edits s₁ v).rewrites
        rw [hmod.getVm, hi] at hwake
        exact hmod.trans hwake
      · exact hmod
    generalize (if u.vmExit then ghWakeupAllVcpus s₁ v else s₁) = s₂ at h hexit
    split at h
    · cases h
      exact hexit.trans (modifyVcpu_rewrites s₂ i j _)
    split at h
    · exact hexit.trans (ih (by rw [hexit.getVm, hi]) h)
    · cases h
      exact hexit

theorem vcpuRun_rewrites {j : Nat} {ts : List RunTurn} {r : Int} (h : ghVcpuRun s v j ts = some (t, r)) :
    Rewrites s (ghGetVm s v) t := by
  unfold ghVcpuRun at h
  simp only at h
  split at h
  · cases h
    exact .refl _ _
  split at h
  · cases h
  split at h
  · cases h
    exact .refl _ _
  · exact vcpuRunLoop_rewrites rfl h

end GH.Proof.Proxy
