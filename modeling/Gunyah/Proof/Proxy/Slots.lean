import Gunyah.Framework.Run
import Gunyah.Framework.Slots
import Gunyah.Proof.Proxy.Ops

/-!
# The slots of the VMs

`gh_get_vm` is the search of `GH.Slots` over the ids of the slots
(`ghGetVm_eq`). Every operation changes at most the slot that the lookup of its
VM gives, and its id only where a vCPU is filled in or the slot is emptied
(`SlotStep`, `schedStep_cases`). So the lookups stay right exactly as long as
the slots stay packed (`slots_iff`).
-/

namespace GH.Proof.Proxy

open GH.Impl GH.Impl.Proxy GH.Spec.Proxy GH.Slots
open GH.Impl.Rm (VmId GH_VMID_INVAL)

/-- The VMs that hold the slots. -/
def keys (s : Sched) : Slot → Option VmId := fun i =>
  if (s.vms i).id = GH_VMID_INVAL then none else some (s.vms i).id

variable {s t : Sched} {v : VmId}

theorem keys_eq_none {i : Slot} : keys s i = none ↔ (s.vms i).id = GH_VMID_INVAL := by
  unfold keys
  split <;> simp [*]

theorem keys_eq_some {i : Slot} (hv : v ≠ GH_VMID_INVAL) : keys s i = some v ↔ (s.vms i).id = v := by
  unfold keys
  split
  · rename_i h
    simp only [reduceCtorEq, false_iff]
    rw [h]
    exact hv.symm
  · simp

theorem ghGetVm_eq (hv : v ≠ GH_VMID_INVAL) : ghGetVm s v = search (keys s) v := by
  unfold ghGetVm search
  refine congrArg (fun o => Option.getD o (Fin.last 4)) (congrArg Fin.find? (funext fun i => ?_))
  rw [decide_eq_decide, keys_eq_some hv, keys_eq_none, eq_comm]

theorem lookupOk_iff_right : LookupOk s ↔ ∀ v, v ≠ GH_VMID_INVAL → Right (keys s) v := by
  refine forall_congr' fun v => forall_congr' fun hv => ?_
  rw [ghGetVm_eq hv]
  constructor
  · rintro ⟨hf, ho⟩
    refine ⟨fun i hi => (keys_eq_some hv).mpr (hf ⟨i, (keys_eq_some hv).mp hi⟩), ?_⟩
    rw [keys_eq_some hv, keys_eq_none]
    exact ho
  · intro h
    refine ⟨fun ⟨i, hi⟩ => (keys_eq_some hv).mp (h.found i ((keys_eq_some hv).mpr hi)), ?_⟩
    have ho := h.own
    rw [keys_eq_some hv, keys_eq_none] at ho
    exact ho

/-! ## What the operations do to the slots -/

/-- What an operation does to the slots. -/
inductive SlotStep (s : Sched) (act : SchedAct) (t : Sched) : Prop where
  | rewrite (hc : StaysPacked s act) (h : Rewrites s (ghGetVm s act.vmid) t)
  | fill {p : PopulateVcpu} {vm : ProxyVm} (ha : act = .populateVcpu p) (hp : Populates s p)
      (h : t.vms = Function.update s.vms (ghGetVm s act.vmid) vm) (hid : vm.id = act.vmid)
  | reset {v : VmId} {vm : ProxyVm} (ha : act = .allRes v false) (hr : Resets s v)
      (h : t.vms = Function.update s.vms (ghGetVm s act.vmid) vm) (hid : vm.id = GH_VMID_INVAL)

theorem populateVcpu_cases (s : Sched) (p : PopulateVcpu) :
    SlotStep s (.populateVcpu p) (ghPopulateVmVcpuInfo s p).1 := by
  by_cases hp : Populates s p
  · exact .fill rfl hp (populateVcpu_of hp) rfl
  · rw [populateVcpu_same hp]
    exact .rewrite (fun h => absurd h hp) (.refl s _)

theorem allRes_cases (s : Sched) (v : VmId) (b : Bool) : SlotStep s (.allRes v b) (ghPopulateAllResInfo s v b) := by
  by_cases hr : b = false ∧ Resets s v
  · obtain ⟨rfl, hr⟩ := hr
    exact .reset rfl hr (allRes_of hr) rfl
  · refine .rewrite ?_ (allRes_edits hr).rewrites
    cases b with
    | true => trivial
    | false => exact fun h => absurd ⟨rfl, h⟩ hr

theorem schedStep_cases {act : SchedAct} (h : schedStep s act = some t) :
    act.vmid ≠ GH_VMID_INVAL ∧ SlotStep s act t := by
  unfold schedStep at h
  split at h
  · cases h
  rename_i hv
  refine ⟨hv, ?_⟩
  cases act with
  | populateVcpu p =>
    cases h
    exact populateVcpu_cases s p
  | unpopulateVcpu v c =>
    cases h
    exact .rewrite trivial (unpopulateVcpu_edits s v c).rewrites
  | populateVpmGrp v c irq ret =>
    cases h
    exact .rewrite trivial (populateVpmGrp_edits s v c irq ret).rewrites
  | unpopulateVpmGrp v =>
    cases h
    exact .rewrite trivial (unpopulateVpmGrp_edits s v).rewrites
  | allRes v b =>
    cases h
    exact allRes_cases s v b
  | wdogManage v c b =>
    cases h
    exact .rewrite trivial (wdogManage_edits s v c b).rewrites
  | wakeupAll v =>
    cases h
    exact .rewrite trivial (wakeupAll_edits s v).rewrites
  | vcpuRun v j ts =>
    obtain ⟨⟨t', r⟩, hr, rfl⟩ := Option.map_eq_some_iff.mp h
    exact .rewrite trivial (vcpuRun_rewrites hr)

/-! ## The slots of a run -/

theorem Rewrites.keys {i : Slot} (h : Rewrites s i t) : keys t = keys s := by
  funext j
  unfold Proxy.keys
  rw [h.id]

theorem keys_update {i : Slot} {vm : ProxyVm} (h : t.vms = Function.update s.vms i vm) :
    keys t = Function.update (keys s) i (if vm.id = GH_VMID_INVAL then none else some vm.id) := by
  funext j
  unfold keys
  rw [h, Function.update_apply, Function.update_apply]
  split <;> rfl

theorem ownSlot_of_update {act : SchedAct} {vm : ProxyVm} (hl : LookupOk s) (hv : act.vmid ≠ GH_VMID_INVAL)
    (h : t.vms = Function.update s.vms (ghGetVm s act.vmid) vm) : OwnSlot s act t := by
  intro i hi
  by_cases e : i = ghGetVm s act.vmid
  · rw [e]
    exact (hl act.vmid hv).2
  · rw [h, Function.update_of_ne e] at hi
    exact absurd rfl hi

theorem lookupOk_of_packed (h : Packed (keys s)) : LookupOk s := lookupOk_iff_right.mpr fun v _ => h.right v

/-- VMIDs that are not all in the table. -/
def someVmids : Finset VmId := {0, 1, 2, 3, 4, 5}

theorem not_lookupOk_of_full (h : ∀ i, keys s i ≠ none) : ¬ LookupOk s := by
  intro hl
  obtain ⟨v, hv, hnew⟩ := exists_new (V := someVmids) (by decide) (keys s)
  have hne : v ≠ GH_VMID_INVAL := by
    rintro rfl
    exact absurd hv (by decide)
  exact not_right_of_full h hnew (lookupOk_iff_right.mp hl v hne)

/-- A slot is filled in for a VM. -/
theorem fill_lookupOk {vm : ProxyVm} (h : Packed (keys s)) (hv : v ≠ GH_VMID_INVAL)
    (ht : t.vms = Function.update s.vms (ghGetVm s v) vm) (hid : vm.id = v) :
    (LookupOk t ↔ (s.vms (ghGetVm s v)).id = v ∨ ghGetVm s v ≠ Fin.last 4) ∧ (LookupOk t → Packed (keys t)) := by
  have hk := keys_update ht
  rw [hid, if_neg hv] at hk
  by_cases hold : (s.vms (ghGetVm s v)).id = v
  · have hsame : keys t = keys s := by
      rw [hk, Function.update_eq_self_iff]
      exact ((keys_eq_some hv).mpr hold).symm
    rw [← hsame] at h
    exact ⟨iff_of_true (lookupOk_of_packed h) (.inl hold), fun _ => h⟩
  have hnew : ∀ i, keys s i ≠ some v := by
    intro i hi
    have hs := h.search_some hi
    rw [← ghGetVm_eq hv] at hs
    exact hold (hs ▸ (keys_eq_some hv).mp hi)
  rw [ghGetVm_eq hv] at hk hold ⊢
  by_cases hlast : search (keys s) v = Fin.last 4
  · have hbad : ¬ LookupOk t := not_lookupOk_of_full fun i => hk ▸ h.full hnew hlast i
    exact ⟨iff_of_false hbad fun hc => hc.elim hold fun hne => hne hlast, fun hl => absurd hl hbad⟩
  · have hp : Packed (keys t) := hk ▸ h.take hnew hlast
    exact ⟨iff_of_true (lookupOk_of_packed hp) (.inr hlast), fun _ => hp⟩

/-- The slot of a VM is emptied. -/
theorem reset_lookupOk {vm : ProxyVm} {i : Slot} (h : Packed (keys s))
    (ht : t.vms = Function.update s.vms i vm) (hid : vm.id = GH_VMID_INVAL) :
    (LookupOk t ↔ ∀ j, i < j → (s.vms j).id = GH_VMID_INVAL) ∧ (LookupOk t → Packed (keys t)) := by
  have hk := keys_update ht
  rw [if_pos hid] at hk
  by_cases hj : ∀ j, i < j → (s.vms j).id = GH_VMID_INVAL
  · have hp : Packed (keys t) := hk ▸ h.free fun j hij => keys_eq_none.mpr (hj j hij)
    exact ⟨iff_of_true (lookupOk_of_packed hp) hj, fun _ => hp⟩
  · obtain ⟨j, hij, hne⟩ : ∃ j, i < j ∧ (s.vms j).id ≠ GH_VMID_INVAL := by simpa using hj
    have hsj : keys s j = some (s.vms j).id := (keys_eq_some hne).mpr rfl
    have hsome : ∀ k w, keys t k = some w → keys s k = some w := by
      intro k w hkw
      rw [hk, Function.update_apply] at hkw
      split at hkw
      · cases hkw
      · exact hkw
    have hbad : ¬ LookupOk t := by
      intro hl
      refine not_right_of_gap hij ?_ ?_ (fun k hkw => ?_) (lookupOk_iff_right.mp hl _ hne)
      · rw [hk, Function.update_self]
      · rw [hk, Function.update_of_ne hij.ne', hsj]
      · exact h.inj k j _ (hsome k _ hkw) hsj
    exact ⟨iff_of_false hbad hj, fun hl => absurd hl hbad⟩

theorem step_lookupOk {act : SchedAct} (h : Packed (keys s)) (hs : schedStep s act = some t) :
    (LookupOk t ∧ OwnSlot s act t ↔ StaysPacked s act) ∧ (StaysPacked s act → Packed (keys t)) := by
  obtain ⟨hv, hstep⟩ := schedStep_cases hs
  have hl := lookupOk_of_packed h
  cases hstep with
  | rewrite hc hrw =>
    have hp : Packed (keys t) := by
      rw [hrw.keys]
      exact h
    obtain ⟨vm, ht, -⟩ := hrw
    exact ⟨iff_of_true ⟨lookupOk_of_packed hp, ownSlot_of_update hl hv ht⟩ hc, fun _ => hp⟩
  | @fill p vm ha hp ht hid =>
    subst ha
    obtain ⟨hiff, hpack⟩ := fill_lookupOk h hv ht hid
    have hc : StaysPacked s (.populateVcpu p) ↔ LookupOk t := by
      rw [hiff]
      exact ⟨fun hc => hc hp, fun hc _ => hc⟩
    rw [hc, and_iff_left (ownSlot_of_update hl hv ht)]
    exact ⟨Iff.rfl, hpack⟩
  | @reset v vm ha hr ht hid =>
    subst ha
    obtain ⟨hiff, hpack⟩ := reset_lookupOk h ht hid
    have hc : StaysPacked s (.allRes v false) ↔ LookupOk t := by
      rw [hiff]
      exact ⟨fun hc => hc hr, fun hc _ => hc⟩
    rw [hc, and_iff_left (ownSlot_of_update hl hv ht)]
    exact ⟨Iff.rfl, hpack⟩

theorem packed_init : Packed (keys .init) where
  held _ _ _ _ := rfl
  last := rfl
  inj _ _ _ h := by cases h

/-- In a run, the lookups are right in every state and every operation keeps to
its own slot exactly when no vCPU of a new VM goes to the last slot and only
the last slot that is not free is emptied. -/
theorem slots_iff (as : List SchedAct) :
    Always schedStep LookupOk .init as ∧ Each schedStep OwnSlot .init as ↔
      Each schedStep (fun s act _ => StaysPacked s act) .init as := by
  rw [always_iff_each, and_iff_right (lookupOk_of_packed packed_init), ← each_and]
  exact each_iff (I := fun s => Packed (keys s)) (fun s act t h hs => (step_lookupOk h hs).2)
    (fun s act t h hs => (step_lookupOk h hs).1) packed_init

/-- Two VMs come, and the first one goes. -/
def firstGoes : List SchedAct :=
  [.populateVcpu { vmid := 45, cpuIdx := 0, capId := 1, virqNum := 101, trustedVm := .ok 45, oemVm := .ok 46 },
    .allRes 45 true,
    .populateVcpu { vmid := 46, cpuIdx := 0, capId := 2, virqNum := 102, trustedVm := .ok 45, oemVm := .ok 46 },
    .allRes 46 true, .unpopulateVcpu 45 1, .allRes 45 false]

/-- The second VM is then in slot 1, and its lookup gives slot 0. -/
theorem lookup_after_firstGoes : ∃ s, exec schedStep .init firstGoes = some s ∧ (s.vms 1).id = 46 ∧
    ghGetVm s 46 = 0 ∧ (s.vms 0).id = GH_VMID_INVAL ∧ ¬ LookupOk s := by
  obtain ⟨s, hs⟩ : ∃ s, exec schedStep .init firstGoes = some s := Option.isSome_iff_exists.mp (by decide +kernel)
  have hget : (exec schedStep .init firstGoes).map (fun s => ((s.vms 1).id, ghGetVm s 46, (s.vms 0).id)) =
      some (46, 0, GH_VMID_INVAL) := by decide +kernel
  rw [hs, Option.map_some, Option.some.injEq, Prod.mk.injEq, Prod.mk.injEq] at hget
  obtain ⟨h₁, h₂, h₃⟩ := hget
  refine ⟨s, hs, h₁, h₂, h₃, fun hl => ?_⟩
  have hfound := (hl 46 (by decide)).1 ⟨1, h₁⟩
  rw [h₂, h₃] at hfound
  exact absurd hfound (by decide)

end GH.Proof.Proxy
