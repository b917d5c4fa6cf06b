import Mathlib.Algebra.Order.BigOperators.Group.Finset
import Mathlib.Data.Multiset.Range
import Mathlib.Tactic.Common
import Gunyah.Spec.Vm.Vcpus
import Gunyah.Framework.Cells
import Gunyah.Framework.Refs

/-!
# Destroying the vCPUs of a VM

Every vCPU is in a slot or has been freed, and `created_vcpus` counts those in slots (`Inv`). The loop
of `gh_destroy_vm` does not move on from an empty slot: it ends exactly if it does not come to one
before it has destroyed all vCPUs (`ends_of_fromZero`, `fromZero_of_ends`).
-/

namespace GH.Proof.Vcpus

open GH.Impl GH.Impl.Main GH.Impl.Vcpus GH.Spec.Vcpus StateTransition

/-! ## The invariant -/

/-- 1 for a slot that is not `NULL`. -/
def present (vcpu : Option GhVcpu) : Nat := if vcpu.isSome then 1 else 0

/-- The vCPU in a slot. -/
def held (vcpu : Option GhVcpu) : Multiset Addr := (vcpu.map fun v => {v.addr}).getD 0

/-- Where each vCPU is that has been allocated. -/
def accounted (vm : VmVcpus) : Multiset Addr := ∑ id, held (vm.vcpus id) + (vm.freed : Multiset Addr)

/-- `created_vcpus` is the number of the entries in use, and each vCPU that was allocated is in one or freed. -/
structure Inv (vm : VmVcpus) : Prop where
  count : vm.createdVcpus.toNat = ∑ id, present (vm.vcpus id)
  vcpuId : ∀ id vcpu, vm.vcpus id = some vcpu → vcpu.vcpuId = id
  own : accounted vm = Multiset.range vm.allocs

theorem inv_new : Inv {} where
  count := rfl
  vcpuId := nofun
  own := rfl

variable {vm vm' : VmVcpus}

theorem card_slots (vm : VmVcpus) : (slots vm).card = ∑ id, present (vm.vcpus id) := Finset.card_filter _ _

theorem sum_present_le (vcpus : Fin GH_MAX_VCPUS → Option GhVcpu) : ∑ id, present (vcpus id) ≤ GH_MAX_VCPUS := by
  have h : ∀ id ∈ Finset.univ, present (vcpus id) ≤ 1 := by
    intro id _
    unfold present
    split
    · exact Nat.le_refl 1
    · exact Nat.zero_le 1
  calc ∑ id, present (vcpus id) ≤ ∑ _id : Fin GH_MAX_VCPUS, 1 := Finset.sum_le_sum h
    _ = GH_MAX_VCPUS := by simp

theorem Inv.created_eq_zero (h : Inv vm) : vm.createdVcpus = 0 ↔ ∀ id, vm.vcpus id = none := by
  rw [← BitVec.toNat_inj, h.count]
  show ∑ id, present (vm.vcpus id) = 0 ↔ _
  simp [present]

section Sums

variable {A : Type*} [AddCommMonoid A] {g : Option GhVcpu → A} {vcpus : Fin GH_MAX_VCPUS → Option GhVcpu}
  {id : Fin GH_MAX_VCPUS}

/-- What is counted in the slots when a vCPU is entered. -/
theorem sum_enter (hg : g none = 0) (hid : vcpus id = none) (vcpu : GhVcpu) :
    ∑ j, g (Function.update vcpus id (some vcpu) j) = ∑ j, g (vcpus j) + g (some vcpu) := by
  have hsum := Cells.sum_update_add (fun _ => g) vcpus id (some vcpu)
  rwa [hid, hg, add_zero] at hsum

/-- What is counted in the slots when a vCPU is cleared. -/
theorem sum_clear (hg : g none = 0) {vcpu : GhVcpu} (hid : vcpus id = some vcpu) :
    ∑ j, g (Function.update vcpus id none j) + g (some vcpu) = ∑ j, g (vcpus j) := by
  have hsum := Cells.sum_update_add (fun _ => g) vcpus id none
  rwa [hid, hg, add_zero] at hsum

end Sums

/-- An object that is allocated and freed again. -/
theorem Inv.kfree_new (h : Inv vm) (id : Fin GH_MAX_VCPUS) :
    Inv (VmVcpus.kfree { vm with allocs := vm.allocs + 1 } ⟨vm.allocs, id⟩) where
  count := h.count
  vcpuId := h.vcpuId
  own := by
    show ∑ id, held (vm.vcpus id) + ((vm.freed ++ [vm.allocs] : List Addr) : Multiset Addr) = Multiset.range (vm.allocs + 1)
    rw [Multiset.range_succ, ← h.own, ← Multiset.coe_add, ← add_assoc, add_comm, Multiset.coe_singleton,
      Multiset.singleton_add]
    rfl

/-- A vCPU is entered into an empty slot. -/
theorem Inv.enter (h : Inv vm) {id : Fin GH_MAX_VCPUS} (hid : vm.vcpus id = none) :
    Inv ⟨Function.update vm.vcpus id (some ⟨vm.allocs, id⟩), vm.createdVcpus + 1, vm.allocs + 1, vm.freed⟩ where
  count := by
    have hle := sum_present_le vm.vcpus
    have hcount := h.count
    have hlt : vm.createdVcpus < BitVec.allOnes 32 := by
      rw [BitVec.lt_def, BitVec.toNat_allOnes, hcount]
      exact Nat.lt_of_le_of_lt hle (by decide)
    show (vm.createdVcpus + 1).toNat = ∑ j, present (Function.update vm.vcpus id (some ⟨vm.allocs, id⟩) j)
    rw [Refs.toNat_succ hlt, hcount, sum_enter rfl hid]
    rfl
  vcpuId := by
    intro j vcpu hj
    have hj : Function.update vm.vcpus id (some ⟨vm.allocs, id⟩) j = some vcpu := hj
    by_cases hji : j = id
    · subst hji
      rw [Function.update_self] at hj
      cases hj
      rfl
    · rw [Function.update_of_ne hji] at hj
      exact h.vcpuId j vcpu hj
  own := by
    show ∑ j, held (Function.update vm.vcpus id (some ⟨vm.allocs, id⟩) j) + (vm.freed : Multiset Addr) =
      Multiset.range (vm.allocs + 1)
    rw [sum_enter rfl hid, Multiset.range_succ, ← h.own, add_right_comm, add_comm]
    rfl

theorem Inv.create (h : Inv vm) (id : BitVec 32) (env : CreateEnv) : Inv (Vcpus.ghVmIoctlCreateVcpu vm id env).1 := by
  unfold Vcpus.ghVmIoctlCreateVcpu
  split
  · simp only
    split
    · exact h
    split
    · exact h
    split
    · exact h.kfree_new _
    · rename_i hid _ _
      split
      · exact h.kfree_new _
      · exact h.enter (Option.not_isSome_iff_eq_none.mp hid)
  · exact h

/-- A vCPU is entered exactly where `gh_vm_ioctl_create_vcpu` gets to `fd_install`, and the error is
returned where it does not. -/
theorem create_main {id : BitVec 32} (hid : id.toNat < GH_MAX_VCPUS) (env : CreateEnv) :
    (∀ err, Main.ghVmIoctlCreateVcpu (fun i => (vm.vcpus i).isSome) ⟨id.toNat, hid⟩ env = .error err →
      (Vcpus.ghVmIoctlCreateVcpu vm id env).2 = err ∧ (Vcpus.ghVmIoctlCreateVcpu vm id env).1.vcpus = vm.vcpus) ∧
    (Main.ghVmIoctlCreateVcpu (fun i => (vm.vcpus i).isSome) ⟨id.toNat, hid⟩ env = .ok () →
      (Vcpus.ghVmIoctlCreateVcpu vm id env).1.vcpus =
        Function.update vm.vcpus ⟨id.toNat, hid⟩ (some ⟨vm.allocs, ⟨id.toNat, hid⟩⟩)) := by
  unfold Main.ghVmIoctlCreateVcpu Vcpus.ghVmIoctlCreateVcpu
  rw [dif_pos hid]
  simp only
  split
  · exact ⟨fun err h => ⟨Except.error.inj h, rfl⟩, nofun⟩
  split
  · exact ⟨fun err h => ⟨Except.error.inj h, rfl⟩, nofun⟩
  split
  · exact ⟨fun err h => ⟨Except.error.inj h, rfl⟩, nofun⟩
  cases env.file with
  | error e => exact ⟨fun err h => ⟨Except.error.inj h, rfl⟩, nofun⟩
  | ok u => exact ⟨nofun, fun _ => rfl⟩

theorem inv_created (calls : List (BitVec 32 × CreateEnv)) : Inv (created calls) := by
  suffices h : ∀ vm, Inv vm → Inv (calls.foldl (fun vm c => (Vcpus.ghVmIoctlCreateVcpu vm c.1 c.2).1) vm) from h {} inv_new
  induction calls with
  | nil => exact fun _ h => h
  | cons c calls ih => exact fun vm h => ih _ (h.create c.1 c.2)

theorem Inv.destroy (h : Inv vm) {id : Fin GH_MAX_VCPUS} {vcpu : GhVcpu} (hid : vm.vcpus id = some vcpu) :
    Inv (ghDestroyVcpu vm vcpu) := by
  obtain rfl : vcpu.vcpuId = id := h.vcpuId id vcpu hid
  constructor
  · have hsum : ∑ j, present (Function.update vm.vcpus vcpu.vcpuId none j) + 1 = ∑ j, present (vm.vcpus j) :=
      sum_clear rfl hid
    have hcount := h.count
    show (vm.createdVcpus - 1).toNat = ∑ j, present (Function.update vm.vcpus vcpu.vcpuId none j)
    rw [Refs.toNat_pred (by omega)]
    omega
  · intro j vcpu' hj
    have hj : Function.update vm.vcpus vcpu.vcpuId none j = some vcpu' := hj
    by_cases hji : j = vcpu.vcpuId
    · subst hji
      rw [Function.update_self] at hj
      cases hj
    · rw [Function.update_of_ne hji] at hj
      exact h.vcpuId j vcpu' hj
  · have hsum : ∑ j, held (Function.update vm.vcpus vcpu.vcpuId none j) + {vcpu.addr} = ∑ j, held (vm.vcpus j) :=
      sum_clear rfl hid
    show ∑ j, held (Function.update vm.vcpus vcpu.vcpuId none j) + ((vm.freed ++ [vcpu.addr] : List Addr) : Multiset Addr) = _
    rw [← Multiset.coe_add, Multiset.coe_singleton, add_comm (vm.freed : Multiset Addr), ← add_assoc, hsum]
    exact h.own

/-! ## The loop -/

theorem turn_none (vcpuId : Nat) : destroyVcpusTurn (vm, vcpuId) = none ↔ vm.createdVcpus = 0 ∨ GH_MAX_VCPUS ≤ vcpuId := by
  unfold destroyVcpusTurn
  split
  · rename_i h
    refine iff_of_false ?_ fun hn => hn.elim h.1 (Nat.not_le.mpr h.2)
    split
    · nofun
    · nofun
  · rename_i h
    rw [not_and_or, not_not, Nat.not_lt] at h
    exact iff_of_true rfl h

/-- The loop stays at an empty slot. -/
theorem turn_stays {id : Fin GH_MAX_VCPUS} (h0 : vm.createdVcpus ≠ 0) (hid : vm.vcpus id = none) :
    destroyVcpusTurn (vm, id.val) = some (vm, id.val) := by
  unfold destroyVcpusTurn
  rw [dif_pos ⟨h0, id.isLt⟩]
  simp only [Fin.eta, hid]

theorem turn_destroys {id : Fin GH_MAX_VCPUS} {vcpu : GhVcpu} (h0 : vm.createdVcpus ≠ 0) (hid : vm.vcpus id = some vcpu) :
    destroyVcpusTurn (vm, id.val) = some (ghDestroyVcpu vm vcpu, id.val + 1) := by
  unfold destroyVcpusTurn
  rw [dif_pos ⟨h0, id.isLt⟩]
  simp only [Fin.eta, hid]

/-- The slots below an index are empty. -/
def ClearedTo (vm : VmVcpus) (vcpuId : Nat) : Prop := ∀ id, id.val < vcpuId → vm.vcpus id = none

/-- From an index on, the slots in use come first. -/
def FromOn (vm : VmVcpus) (vcpuId : Nat) : Prop :=
  ∀ i j, vcpuId ≤ i.val → i ≤ j → (vm.vcpus j).isSome = true → (vm.vcpus i).isSome = true

theorem Inv.vcpus_destroy (h : Inv vm) {id : Fin GH_MAX_VCPUS} {vcpu : GhVcpu} (hid : vm.vcpus id = some vcpu) :
    (ghDestroyVcpu vm vcpu).vcpus = Function.update vm.vcpus id none := by
  rw [← h.vcpuId id vcpu hid]
  rfl

theorem ClearedTo.destroy {id : Fin GH_MAX_VCPUS} (hc : ClearedTo vm id.val) (h : Inv vm) {vcpu : GhVcpu}
    (hid : vm.vcpus id = some vcpu) : ClearedTo (ghDestroyVcpu vm vcpu) (id.val + 1) := by
  intro j hj
  rw [h.vcpus_destroy hid]
  by_cases hji : j = id
  · rw [hji, Function.update_self]
  · rw [Function.update_of_ne hji]
    exact hc j (by omega)

/-- Slots other than the one that is cleared. -/
theorem fromOn_destroy {id : Fin GH_MAX_VCPUS} (h : Inv vm) {vcpu : GhVcpu} (hid : vm.vcpus id = some vcpu) :
    FromOn (ghDestroyVcpu vm vcpu) (id.val + 1) ↔ FromOn vm id.val := by
  have hother : ∀ j : Fin GH_MAX_VCPUS, id < j → (ghDestroyVcpu vm vcpu).vcpus j = vm.vcpus j := fun j hj => by
    rw [h.vcpus_destroy hid, Function.update_of_ne (ne_of_gt hj)]
  constructor
  · intro hf i j hi hij hj
    rcases Nat.eq_or_lt_of_le hi with hi | hi
    · rw [← Fin.ext hi, hid]
      rfl
    · rw [← hother i hi]
      exact hf i j hi hij (by rw [hother j (lt_of_lt_of_le hi hij)]; exact hj)
  · intro hf i j hi hij hj
    rw [hother i hi]
    exact hf i j (Nat.le_of_succ_le hi) hij (by rw [← hother j (lt_of_lt_of_le hi hij)]; exact hj)

/-- Where there are no slots in use, or no slots. -/
theorem Inv.empty_of_end (h : Inv vm) {vcpuId : Nat} (hc : ClearedTo vm vcpuId)
    (hend : vm.createdVcpus = 0 ∨ GH_MAX_VCPUS ≤ vcpuId) (id : Fin GH_MAX_VCPUS) : vm.vcpus id = none := by
  rcases hend with h0 | hlast
  · exact h.created_eq_zero.mp h0 id
  · exact hc id (Nat.lt_of_lt_of_le id.isLt hlast)

/-- If the loop ends, the slots in use come first. -/
theorem fromOn_of_ends {s t : VmVcpus × Nat} (hend : t ∈ eval destroyVcpusTurn s) :
    Inv s.1 → ClearedTo s.1 s.2 → FromOn s.1 s.2 := by
  refine evalInduction hend fun s _ ih => ?_
  obtain ⟨vm, vcpuId⟩ := s
  intro h hc
  cases hturn : destroyVcpusTurn (vm, vcpuId) with
  | none =>
    intro i j _ _ hj
    rw [h.empty_of_end hc ((turn_none vcpuId).mp hturn) j] at hj
    cases hj
  | some s' =>
    have hgo : ¬ (vm.createdVcpus = 0 ∨ GH_MAX_VCPUS ≤ vcpuId) := by
      rw [← turn_none, hturn]
      nofun
    rw [not_or, Nat.not_le] at hgo
    obtain ⟨h0, hlt⟩ := hgo
    cases hid : vm.vcpus ⟨vcpuId, hlt⟩ with
    | none => exact ih (vm, vcpuId) (turn_stays h0 hid) h hc
    | some vcpu =>
      have hnext := ih _ (turn_destroys h0 hid) (h.destroy hid) (ClearedTo.destroy hc h hid)
      exact (fromOn_destroy h hid).mp hnext

/-- If the slots in use come first, the loop ends. -/
theorem ends_of_fromOn (k : Nat) : ∀ (vm : VmVcpus) (vcpuId : Nat), GH_MAX_VCPUS ≤ vcpuId + k → Inv vm →
    ClearedTo vm vcpuId → FromOn vm vcpuId →
    ∃ vm' vcpuId', Reaches destroyVcpusTurn (vm, vcpuId) (vm', vcpuId') ∧ destroyVcpusTurn (vm', vcpuId') = none ∧
      Inv vm' ∧ (∀ id, vm'.vcpus id = none) ∧ vm'.allocs = vm.allocs := by
  induction k with
  | zero =>
    intro vm vcpuId hk h hc _
    exact ⟨vm, vcpuId, .refl, (turn_none vcpuId).mpr (.inr hk), h, h.empty_of_end hc (.inr hk), rfl⟩
  | succ k ih =>
    intro vm vcpuId hk h hc hf
    by_cases hend : vm.createdVcpus = 0 ∨ GH_MAX_VCPUS ≤ vcpuId
    · exact ⟨vm, vcpuId, .refl, (turn_none vcpuId).mpr hend, h, h.empty_of_end hc hend, rfl⟩
    · rw [not_or, Nat.not_le] at hend
      obtain ⟨h0, hlt⟩ := hend
      -- some slot is in use, none below the index, so the one at the index is
      obtain ⟨j, hj⟩ : ∃ j, vm.vcpus j ≠ none := by
        rw [← not_forall]
        exact fun hall => h0 (h.created_eq_zero.mpr hall)
      have hle : vcpuId ≤ j.val := Nat.not_lt.mp fun hlt => hj (hc j hlt)
      obtain ⟨vcpu, hid⟩ := Option.isSome_iff_exists.mp
        (hf ⟨vcpuId, hlt⟩ j (Nat.le_refl _) hle (Option.isSome_iff_ne_none.mpr hj))
      obtain ⟨vm', vcpuId', hreach, hlast, h', hempty, hallocs⟩ := ih (ghDestroyVcpu vm vcpu) (vcpuId + 1) (by omega)
        (h.destroy hid) (ClearedTo.destroy hc h hid) ((fromOn_destroy h hid).mpr hf)
      exact ⟨vm', vcpuId', .head (turn_destroys h0 hid) hreach, hlast, h', hempty, hallocs⟩

/-- Where no slot is in use, all vCPUs have been freed once. -/
theorem Inv.all_destroyed (h : Inv vm') (hempty : ∀ id, vm'.vcpus id = none) (hallocs : vm'.allocs = vm.allocs) :
    AllDestroyed vm vm' where
  createdVcpus := h.created_eq_zero.mpr hempty
  vcpus := hempty
  freed := by
    intro addr haddr
    have hfreed : (vm'.freed : Multiset Addr) = Multiset.range vm'.allocs := by
      rw [← h.own]
      simp [accounted, hempty, held]
    rw [← Multiset.coe_count, hfreed, hallocs]
    exact Multiset.count_eq_one_of_mem (Multiset.nodup_range _) (Multiset.mem_range.mpr haddr)

theorem fromOn_zero : FromOn vm 0 ↔ FromZero vm :=
  ⟨fun h i j => h i j (Nat.zero_le _), fun h i j _ => h i j⟩

/-- `created_vcpus` is the number of vCPUs; and destroying a VM destroys all of them exactly if
their ids are those from 0 on. Otherwise the loop does not end. -/
theorem destroy_terminates_iff (calls : List (BitVec 32 × CreateEnv)) (vmStatus : BitVec 8)
    (hstatus : vmStatus ≠ GH_RM_VM_STATUS_NO_STATE) :
    (created calls).createdVcpus.toNat = (slots (created calls)).card ∧
    ((∃ vm', Destroys vmStatus (created calls) vm' ∧ AllDestroyed (created calls) vm') ↔ FromZero (created calls)) := by
  have h := inv_created calls
  have hc : ClearedTo (created calls) 0 := fun id hid => absurd hid (Nat.not_lt_zero _)
  refine ⟨by rw [h.count, card_slots], ?_⟩
  simp only [Destroys, if_neg hstatus]
  rw [← fromOn_zero]
  constructor
  · rintro ⟨vm', ⟨vcpuId, hend⟩, -⟩
    exact fromOn_of_ends hend h hc
  · intro hf
    obtain ⟨vm', vcpuId, hreach, hlast, h', hempty, hallocs⟩ := ends_of_fromOn GH_MAX_VCPUS _ 0 (by omega) h hc hf
    exact ⟨vm', ⟨vcpuId, mem_eval.mpr ⟨hreach, hlast⟩⟩, h'.all_destroyed hempty hallocs⟩

theorem destroy_terminates_iff_two :
    (created [(1, {}), (0, {})]).createdVcpus.toNat = (slots (created [(1, {}), (0, {})])).card ∧
    ((∃ vm', Destroys GH_RM_VM_STATUS_RUNNING (created [(1, {}), (0, {})]) vm' ∧
      AllDestroyed (created [(1, {}), (0, {})]) vm') ↔ FromZero (created [(1, {}), (0, {})])) :=
  destroy_terminates_iff [(1, {}), (0, {})] GH_RM_VM_STATUS_RUNNING (by decide)

/-- Only vCPU 1 has been created: the loop stays at slot 0. -/
theorem destroy_stuck :
    (created [(1, {})]).createdVcpus = 1 ∧ ¬ ∃ vm', Destroys GH_RM_VM_STATUS_RUNNING (created [(1, {})]) vm' := by
  refine ⟨rfl, ?_⟩
  rintro ⟨vm', hd⟩
  rw [Destroys, if_neg (by decide)] at hd
  obtain ⟨vcpuId, hend⟩ := hd
  have hf := fromOn_of_ends hend (inv_created _) fun id hid => absurd hid (Nat.not_lt_zero _)
  exact absurd (hf 0 1 (Nat.le_refl 0) (by decide) (by decide)) (by decide)

end GH.Proof.Vcpus
