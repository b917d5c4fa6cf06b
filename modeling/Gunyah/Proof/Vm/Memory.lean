import Gunyah.Spec.Vm.Loader

/-!
# Providing memory

What the loops of `gh_provide_mem` and the loop over the shared regions do to
the memory of a device, and what they return. A refusal of the RM is reported
only if the last region does not go back (`provideMem_ret`), and of a shared
region only if it does not (`shmem_cases`).
-/

namespace GH.Proof.Vm

open GH.Impl GH.Impl.Vm GH.Spec.Vm

/-! ## Loops over regions -/

theorem assignRegions_ret {ans : Nat → Int} {dst is : List Nat} {m : DevMem} :
    (assignRegions ans dst is m).2 = 0 ↔ ∀ i ∈ is, ans i = 0 := by
  induction is generalizing m with
  | nil => simp [assignRegions]
  | cons i is ih =>
    rw [assignRegions]
    split
    · rename_i hi
      exact iff_of_false hi fun h => hi (h i (List.mem_cons_self ..))
    · rename_i hi
      rw [ih, List.forall_mem_cons]
      simp [not_not.mp hi]

/-- Only owners change. -/
theorem assignRegions_mem {ans : Nat → Int} {dst is : List Nat} {m : DevMem} :
    (assignRegions ans dst is m).1 = { m with fwOwners := (assignRegions ans dst is m).1.fwOwners } := by
  induction is generalizing m with
  | nil => rfl
  | cons i is ih =>
    rw [assignRegions]
    split
    · rfl
    · rw [ih]

theorem assignRegions_all {ans : Nat → Int} {dst is : List Nat} {m : DevMem} (h : ∀ i ∈ is, ans i = 0) (j : Nat) :
    (assignRegions ans dst is m).1.fwOwners j = if j ∈ is then dst else m.fwOwners j := by
  induction is generalizing m with
  | nil => simp [assignRegions]
  | cons i is ih =>
    rw [List.forall_mem_cons] at h
    rw [assignRegions, if_neg (not_not.mpr h.1), ih h.2]
    by_cases hj : j ∈ is
    · simp [hj]
    · by_cases hji : j = i
      · simp [hji]
      · simp [hj, hji]

theorem assignRegions_head {ans : Nat → Int} {dst is : List Nat} {m : DevMem} {i : Nat} (h : ans i = 0) :
    (assignRegions ans dst (i :: is) m).1.fwOwners i = dst := by
  rw [assignRegions, if_neg (not_not.mpr h)]
  have hkeep : ∀ (l : List Nat) (m : DevMem), m.fwOwners i = dst → (assignRegions ans dst l m).1.fwOwners i = dst := by
    intro l
    induction l with
    | nil => exact fun m hm => hm
    | cons k l ih =>
      intro m hm
      rw [assignRegions]
      split
      · exact hm
      · refine ih _ ?_
        by_cases hk : i = k
        · simp [hk]
        · simpa [hk] using hm
  exact hkeep is _ (by simp)

theorem assignBack_mem {ans : Nat → Int} {is : List Nat} {s : DevMem × Int} :
    (is.foldl (assignBack ans) s).1 = { s.1 with fwOwners := (is.foldl (assignBack ans) s).1.fwOwners } := by
  induction is generalizing s with
  | nil => rfl
  | cons i is ih =>
    rw [List.foldl_cons, ih]
    unfold assignBack
    split <;> rfl

theorem assignBack_owners {ans : Nat → Int} {is : List Nat} {s : DevMem × Int} (j : Nat) :
    (is.foldl (assignBack ans) s).1.fwOwners j =
      if j ∈ is ∧ ans j = 0 then [QCOM_SCM_VMID_HLOS] else s.1.fwOwners j := by
  induction is generalizing s with
  | nil => simp
  | cons i is ih =>
    rw [List.foldl_cons, ih]
    unfold assignBack
    by_cases hji : j = i
    · subst hji
      by_cases hj : ans j = 0
      · simp [hj]
      · simp [hj]
    · by_cases hi : ans i = 0
      · simp [hi, hji]
      · simp [hi, hji]

/-- The error that the second loop was entered with is lost. -/
theorem assignBack_ret {ans : Nat → Int} {n : Nat} {s : DevMem × Int} :
    ((List.range (n + 1)).foldl (assignBack ans) s).2 = 0 ↔ ans n = 0 := by
  rw [List.range_succ, List.foldl_append, List.foldl_cons, List.foldl_nil, assignBack]
  split
  · rename_i h
    exact iff_of_false h h
  · rename_i h
    exact iff_of_true rfl (not_not.mp h)

/-! ## `gh_provide_mem` -/

/-- The first loop. -/
def assignedMem (dev : SecVmDev) (e : LoadAnswers) (vm : GhVm) (m : DevMem) : DevMem × Int :=
  assignRegions e.assign [QCOM_SCM_VMID_HLOS, vm.vmid] (List.range dev.fwMemCount) m

/-- The ways through `gh_provide_mem`. -/
inductive Provides (dev : SecVmDev) (e : LoadAnswers) (vm : GhVm) (m : DevMem) : DevMem × Int → Prop where
  | noMem {ret : Int} (h : e.acl = false ∨ e.sgl = false) (hr : ret ≠ 0) : Provides dev e vm m (m, ret)
  | refused (ha : e.acl = true) (hs : e.sgl = true) (hr : (assignedMem dev e vm m).2 ≠ 0) :
      Provides dev e vm m (assignedMem dev e vm m)
  | undone (h : Assigned dev e) (hshare : e.share ≠ 0) :
      Provides dev e vm m
        ((List.range dev.fwMemCount).foldl (assignBack e.back) ((assignedMem dev e vm m).1, e.share))
  | shared (h : Assigned dev e) (hshare : e.share = 0) :
      Provides dev e vm m ({ (assignedMem dev e vm m).1 with memParcel := true }, 0)

theorem assignedMem_ret {dev : SecVmDev} {e : LoadAnswers} {vm : GhVm} {m : DevMem} :
    (assignedMem dev e vm m).2 = 0 ↔ ∀ i < dev.fwMemCount, e.assign i = 0 := by
  simp only [assignedMem, assignRegions_ret, List.mem_range]

theorem assignedMem_mem {dev : SecVmDev} {e : LoadAnswers} {vm : GhVm} {m : DevMem} :
    (assignedMem dev e vm m).1 = { m with fwOwners := (assignedMem dev e vm m).1.fwOwners } := assignRegions_mem

theorem ghProvideMem_provides (dev : SecVmDev) (e : LoadAnswers) (vm : GhVm) (m : DevMem) :
    Provides dev e vm m (ghProvideMem dev e vm m) := by
  unfold ghProvideMem
  split
  · rename_i h
    exact .noMem (.inl h) (by decide)
  split
  · rename_i h
    exact .noMem (.inr h) (by decide)
  rename_i ha hs
  have ha' := eq_true_of_ne_false ha
  have hs' := eq_true_of_ne_false hs
  simp only
  split
  · rename_i hr
    exact .refused ha' hs' hr
  · rename_i hr
    have hall : Assigned dev e := ⟨ha', hs', assignedMem_ret.mp (not_not.mp hr)⟩
    split
    · rename_i h
      exact .undone hall h
    · rename_i h
      exact .shared hall (not_not.mp h)

theorem count_pos (dev : SecVmDev) : 0 < dev.fwMemCount := Nat.zero_lt_of_lt dev.fwIndex_lt

/-- The first region stays assigned, whatever happens to the others. -/
theorem assignedMem_first {dev : SecVmDev} {e : LoadAnswers} {vm : GhVm} {m : DevMem} (h : e.assign 0 = 0) :
    (assignedMem dev e vm m).1.fwOwners 0 = [QCOM_SCM_VMID_HLOS, vm.vmid] := by
  obtain ⟨n, hn⟩ := Nat.exists_eq_succ_of_ne_zero (Nat.ne_of_gt (count_pos dev))
  rw [assignedMem, hn, List.range_succ_eq_map]
  exact assignRegions_head h

theorem assignedMem_none {dev : SecVmDev} {e : LoadAnswers} {vm : GhVm} {m : DevMem} (h : e.assign 0 ≠ 0) :
    (assignedMem dev e vm m).1 = m := by
  obtain ⟨n, hn⟩ := Nat.exists_eq_succ_of_ne_zero (Nat.ne_of_gt (count_pos dev))
  rw [assignedMem, hn, List.range_succ_eq_map, assignRegions, if_pos h]

theorem assignedMem_all {dev : SecVmDev} {e : LoadAnswers} {vm : GhVm} {m : DevMem} (h : Assigned dev e) {i : Nat}
    (hi : i < dev.fwMemCount) : (assignedMem dev e vm m).1.fwOwners i = [QCOM_SCM_VMID_HLOS, vm.vmid] := by
  rw [assignedMem, assignRegions_all fun i hi => h.2.2 i (List.mem_range.mp hi), if_pos (List.mem_range.mpr hi)]

/-- Once all regions are assigned, they have to go back. -/
theorem memUntaken_iff {dev : SecVmDev} {e : LoadAnswers} (h : Assigned dev e) :
    MemUntaken dev e ↔ e.share ≠ 0 ∧ ∀ i < dev.fwMemCount, e.back i = 0 := by
  refine ⟨?_, fun h' => .inr (.inr (.inr ⟨h.2.2, h'⟩))⟩
  rintro (h' | h' | h' | h')
  · exact absurd (h'.symm.trans h.1) (by decide)
  · exact absurd (h'.symm.trans h.2.1) (by decide)
  · exact absurd (h.2.2 0 (count_pos dev)) h'
  · exact h'.2

theorem provideMem_ret (dev : SecVmDev) (e : LoadAnswers) (vm : GhVm) (m : DevMem) :
    (ghProvideMem dev e vm m).2 = 0 ↔ MemReported dev e := by
  have hp := ghProvideMem_provides dev e vm m
  generalize ghProvideMem dev e vm m = r at hp
  cases hp with
  | noMem h hr =>
    refine iff_of_false hr fun hrep => ?_
    rcases h with h | h
    · exact absurd (h.symm.trans hrep.1.1) (by decide)
    · exact absurd (h.symm.trans hrep.1.2.1) (by decide)
  | refused ha hs hr => exact iff_of_false hr fun hrep => hr (assignedMem_ret.mpr hrep.1.2.2)
  | undone h hshare =>
    obtain ⟨n, hn⟩ := Nat.exists_eq_succ_of_ne_zero (Nat.ne_of_gt (count_pos dev))
    rw [MemReported, hn, assignBack_ret]
    simp [h, hshare]
  | shared h hshare => exact iff_of_true rfl ⟨h, .inl hshare⟩

/-- Only the owners of the regions and the memparcel change. -/
theorem provideMem_mem (dev : SecVmDev) (e : LoadAnswers) (vm : GhVm) (m : DevMem) :
    (ghProvideMem dev e vm m).1 = { m with
      fwOwners := (ghProvideMem dev e vm m).1.fwOwners
      memParcel := (ghProvideMem dev e vm m).1.memParcel } := by
  have hp := ghProvideMem_provides dev e vm m
  generalize ghProvideMem dev e vm m = r at hp
  cases hp with
  | noMem h hr => rfl
  | refused ha hs hr => rw [assignedMem_mem]
  | undone h hshare => rw [assignBack_mem, assignedMem_mem]
  | shared h hshare => rw [assignedMem_mem]

/-- The VM has the memory if the RM takes it. -/
theorem provideMem_provided {dev : SecVmDev} {e : LoadAnswers} (vm : GhVm) {m : DevMem} (h : MemReported dev e)
    (hm : m.memParcel = false) :
    ((∀ i < dev.fwMemCount, (ghProvideMem dev e vm m).1.fwOwners i = [QCOM_SCM_VMID_HLOS, vm.vmid]) ∧
      (ghProvideMem dev e vm m).1.memParcel = true) ↔ e.share = 0 := by
  have hret := (provideMem_ret dev e vm m).mpr h
  have hp := ghProvideMem_provides dev e vm m
  generalize ghProvideMem dev e vm m = r at hp hret
  cases hp with
  | noMem _ hr => exact absurd hret hr
  | refused _ _ hr => exact absurd hret hr
  | undone _ hshare =>
    refine iff_of_false (fun hc => ?_) hshare
    rw [assignBack_mem, assignedMem_mem] at hc
    exact absurd (hm.symm.trans hc.2) (by decide)
  | shared h hshare =>
    exact iff_of_true ⟨fun i hi => assignedMem_all h hi, rfl⟩ hshare

/-- The memory stays with its owner. -/
theorem provideMem_untaken {dev : SecVmDev} (e : LoadAnswers) (vm : GhVm) {m : DevMem}
    (hm : m.memParcel = false) (ho : ∀ i < dev.fwMemCount, m.fwOwners i = [QCOM_SCM_VMID_HLOS]) :
    ((∀ i < dev.fwMemCount, (ghProvideMem dev e vm m).1.fwOwners i = [QCOM_SCM_VMID_HLOS]) ∧
      (ghProvideMem dev e vm m).1.memParcel = false) ↔ MemUntaken dev e := by
  have hp := ghProvideMem_provides dev e vm m
  generalize ghProvideMem dev e vm m = r at hp
  cases hp with
  | noMem h _ => exact iff_of_true ⟨ho, hm⟩ (h.elim .inl fun h => .inr (.inl h))
  | refused ha hs hr =>
    have huntaken : MemUntaken dev e ↔ e.assign 0 ≠ 0 := by
      refine ⟨?_, fun h => .inr (.inr (.inl h))⟩
      rintro (h | h | h | h)
      · exact absurd (h.symm.trans ha) (by decide)
      · exact absurd (h.symm.trans hs) (by decide)
      · exact h
      · exact absurd (assignedMem_ret.mpr h.1) hr
    rw [huntaken]
    constructor
    · intro hc h₀
      have hfirst := hc.1 0 (count_pos dev)
      rw [assignedMem_first h₀] at hfirst
      cases hfirst
    · intro h₀
      rw [assignedMem_none h₀]
      exact ⟨ho, hm⟩
  | undone h hshare =>
    have hparcel : ((List.range dev.fwMemCount).foldl (assignBack e.back)
        ((assignedMem dev e vm m).1, e.share)).1.memParcel = false := by
      rw [assignBack_mem, assignedMem_mem]
      exact hm
    rw [memUntaken_iff h, and_iff_right hshare, and_iff_left hparcel]
    refine forall_congr' fun i => forall_congr' fun hi => ?_
    rw [assignBack_owners, assignedMem_all h hi]
    by_cases hb : e.back i = 0
    · simp [hb, hi]
    · simp [hb]
  | shared h hshare =>
    rw [memUntaken_iff h]
    exact iff_of_false (fun hc => nomatch hc.2) fun hc => hc.1 hshare

/-! ## Shared regions -/

/-- The ways through `gh_provide_shmem`. -/
inductive ProvidesSh (r : Shmem) (a : ShmemAnswers) (vm : GhVm) (i : Nat) (m : DevMem) : DevMem × Int → Prop where
  | refused {ret : Int} (h : ¬ ShAssigned a) (hr : ret ≠ 0) : ProvidesSh r a vm i m (m, ret)
  | stuck (h : ShAssigned a) (hshare : a.share ≠ 0) (hback : a.back ≠ 0) :
      ProvidesSh r a vm i m ({ m with shOwners := Function.update m.shOwners i (r.dstOwners vm.vmid) }, a.back)
  | undone (h : ShAssigned a) (hshare : a.share ≠ 0) (hback : a.back = 0) :
      ProvidesSh r a vm i m ({ m with shOwners := Function.update m.shOwners i r.srcOwners }, 0)
  | shared (h : ShAssigned a) (hshare : a.share = 0) :
      ProvidesSh r a vm i m
        ({ m with shOwners := Function.update m.shOwners i (r.dstOwners vm.vmid)
                  shParcel := Function.update m.shParcel i true }, 0)

theorem shmem_cases (r : Shmem) (a : ShmemAnswers) (vm : GhVm) (i : Nat) (m : DevMem) :
    ProvidesSh r a vm i m (ghProvideShmem r a vm i m) := by
  unfold ghProvideShmem
  split
  · rename_i h
    exact .refused (fun h' => absurd (h.symm.trans h'.1) (by decide)) (by decide)
  split
  · rename_i h
    exact .refused (fun h' => absurd (h.symm.trans h'.2.1) (by decide)) (by decide)
  split
  · rename_i h
    exact .refused (fun h' => absurd (h.symm.trans h'.2.2.1) (by decide)) (by decide)
  split
  · rename_i h
    exact .refused (fun h' => absurd (h.symm.trans h'.2.2.2.1) (by decide)) (by decide)
  split
  · rename_i h
    exact .refused (fun h' => h h'.2.2.2.2) h
  rename_i h₁ h₂ h₃ h₄ h₅
  have h : ShAssigned a :=
    ⟨eq_true_of_ne_false h₁, eq_true_of_ne_false h₂, eq_true_of_ne_false h₃, eq_true_of_ne_false h₄, not_not.mp h₅⟩
  simp only
  split
  · rename_i hshare
    split
    · rename_i hback
      exact .stuck h hshare hback
    · rename_i hback
      simp only [Function.update_idem]
      exact .undone h hshare (not_not.mp hback)
  · rename_i hshare
    exact .shared h (not_not.mp hshare)

theorem provideShmem_ret {r : Shmem} {a : ShmemAnswers} {vm : GhVm} {i : Nat} {m : DevMem} :
    (ghProvideShmem r a vm i m).2 = 0 ↔ ShReported a := by
  have hp := shmem_cases r a vm i m
  generalize ghProvideShmem r a vm i m = s at hp
  cases hp with
  | refused h hr => exact iff_of_false hr fun h' => h h'.1
  | stuck h hshare hback => exact iff_of_false hback fun h' => h'.2.elim hshare hback
  | undone h hshare hback => exact iff_of_true rfl ⟨h, .inr hback⟩
  | shared h hshare => exact iff_of_true rfl ⟨h, .inl hshare⟩

/-- Only what is known of the region changes. -/
theorem provideShmem_mem {r : Shmem} {a : ShmemAnswers} {vm : GhVm} {i : Nat} {m : DevMem} :
    (ghProvideShmem r a vm i m).1 = { m with
      shOwners := Function.update m.shOwners i ((ghProvideShmem r a vm i m).1.shOwners i)
      shParcel := Function.update m.shParcel i ((ghProvideShmem r a vm i m).1.shParcel i) } := by
  have hp := shmem_cases r a vm i m
  generalize ghProvideShmem r a vm i m = s at hp
  cases hp with
  | refused h hr => simp
  | stuck h hshare hback => simp
  | undone h hshare hback => simp
  | shared h hshare => simp

section Shmems

variable {dev : SecVmDev} {e : LoadAnswers} {vm : GhVm}

theorem provideShmems_stop {i : Nat} {is : List Nat} {m : DevMem} {ret : Int} (h : ¬ ShReported (e.shmem i)) :
    provideShmems dev e vm (i :: is) m ret = ghProvideShmem (dev.shMemRegions i) (e.shmem i) vm i m :=
  if_pos (mt provideShmem_ret.mp h)

theorem provideShmems_next {i : Nat} {is : List Nat} {m : DevMem} {ret : Int} (h : ShReported (e.shmem i)) :
    provideShmems dev e vm (i :: is) m ret =
      provideShmems dev e vm is (ghProvideShmem (dev.shMemRegions i) (e.shmem i) vm i m).1 0 := by
  have hr : (ghProvideShmem (dev.shMemRegions i) (e.shmem i) vm i m).2 = 0 := provideShmem_ret.mpr h
  rw [provideShmems]
  generalize ghProvideShmem (dev.shMemRegions i) (e.shmem i) vm i m = p at hr
  obtain ⟨m', ret'⟩ := p
  cases hr
  simp

/-- The error before the loop is lost, if there are shared regions. -/
theorem provideShmems_ret {is : List Nat} {m : DevMem} {ret : Int} :
    (provideShmems dev e vm is m ret).2 = 0 ↔ (∀ i ∈ is, ShReported (e.shmem i)) ∧ (is = [] → ret = 0) := by
  induction is generalizing m ret with
  | nil => simp [provideShmems]
  | cons i is ih =>
    by_cases h : ShReported (e.shmem i)
    · rw [provideShmems_next h, ih, List.forall_mem_cons]
      simp [h]
    · rw [provideShmems_stop h, provideShmem_ret, List.forall_mem_cons]
      simp [h]

variable (dev e vm) in
/-- Only what is known of the shared regions changes. -/
theorem provideShmems_mem (is : List Nat) (m : DevMem) (ret : Int) :
    (provideShmems dev e vm is m ret).1 = { m with
      shOwners := (provideShmems dev e vm is m ret).1.shOwners
      shParcel := (provideShmems dev e vm is m ret).1.shParcel } := by
  induction is generalizing m ret with
  | nil => rfl
  | cons i is ih =>
    by_cases h : ShReported (e.shmem i)
    · rw [provideShmems_next h, ih, provideShmem_mem]
    · rw [provideShmems_stop h, provideShmem_mem]

theorem provideShmem_other (r : Shmem) (a : ShmemAnswers) (vm : GhVm) (m : DevMem) {i j : Nat} (hj : j ≠ i) :
    (ghProvideShmem r a vm i m).1.shOwners j = m.shOwners j ∧
      (ghProvideShmem r a vm i m).1.shParcel j = m.shParcel j := by
  rw [provideShmem_mem]
  exact ⟨Function.update_of_ne hj .., Function.update_of_ne hj ..⟩

variable (dev e vm) in
theorem provideShmems_other {is : List Nat} (m : DevMem) (ret : Int) {j : Nat} (hj : j ∉ is) :
    (provideShmems dev e vm is m ret).1.shOwners j = m.shOwners j ∧
      (provideShmems dev e vm is m ret).1.shParcel j = m.shParcel j := by
  induction is generalizing m ret with
  | nil => exact ⟨rfl, rfl⟩
  | cons i is ih =>
    obtain ⟨hji, hjs⟩ := List.ne_and_not_mem_of_not_mem_cons hj
    have hone := provideShmem_other (dev.shMemRegions i) (e.shmem i) vm m hji
    by_cases h : ShReported (e.shmem i)
    · rw [provideShmems_next h]
      have hrest := ih (ghProvideShmem (dev.shMemRegions i) (e.shmem i) vm i m).1 0 hjs
      exact ⟨hrest.1.trans hone.1, hrest.2.trans hone.2⟩
    · rw [provideShmems_stop h]
      exact hone

variable (vm) in
/-- A region is the VM's exactly when the RM takes it. -/
theorem provideShmem_parcel (r : Shmem) (a : ShmemAnswers) {i : Nat} {m : DevMem} (hm : m.shParcel i = false) :
    (ghProvideShmem r a vm i m).1.shOwners i = r.dstOwners vm.vmid ∧ (ghProvideShmem r a vm i m).1.shParcel i = true ↔
      ShAssigned a ∧ a.share = 0 := by
  have hp := shmem_cases r a vm i m
  generalize ghProvideShmem r a vm i m = s at hp
  cases hp with
  | refused h hr => exact iff_of_false (fun hc => absurd (hm.symm.trans hc.2) (by decide)) fun hc => h hc.1
  | stuck h hshare hback =>
    exact iff_of_false (fun hc => absurd (hm.symm.trans hc.2) (by decide)) fun hc => hshare hc.2
  | undone h hshare hback =>
    exact iff_of_false (fun hc => absurd (hm.symm.trans hc.2) (by decide)) fun hc => hshare hc.2
  | shared h hshare => exact iff_of_true ⟨Function.update_self .., Function.update_self ..⟩ ⟨h, hshare⟩

variable (vm) in
theorem provideShmem_untaken {r : Shmem} (a : ShmemAnswers) {i : Nat} {m : DevMem}
    (hm : m.shOwners i = r.srcOwners ∧ m.shParcel i = false) :
    (ghProvideShmem r a vm i m).1.shOwners i = r.srcOwners ∧ (ghProvideShmem r a vm i m).1.shParcel i = false ↔
      ¬ ShTaken r a vm.vmid := by
  have hp := shmem_cases r a vm i m
  generalize ghProvideShmem r a vm i m = s at hp
  cases hp with
  | refused h hr => exact iff_of_true hm fun hc => h hc.1
  | stuck h hshare hback =>
    simp only [Function.update_self, ShTaken, h, hshare, hm.2, and_true, true_and, false_or]
    simp [hback]
  | undone h hshare hback =>
    refine iff_of_true ⟨Function.update_self .., hm.2⟩ fun hc => ?_
    exact hc.2.elim hshare fun h' => h'.1 hback
  | shared h hshare => exact iff_of_false (fun hc => by simp at hc) fun hc => hc ⟨h, .inl hshare⟩

variable (dev e vm) in
/-- All regions of the loop are the VM's exactly when the RM takes each. -/
theorem provideShmems_provided {is : List Nat} (hd : is.Nodup) {m : DevMem} (ret : Int)
    (hm : ∀ i ∈ is, m.shParcel i = false) :
    (∀ i ∈ is, (provideShmems dev e vm is m ret).1.shOwners i = (dev.shMemRegions i).dstOwners vm.vmid ∧
      (provideShmems dev e vm is m ret).1.shParcel i = true) ↔
      ∀ i ∈ is, ShAssigned (e.shmem i) ∧ (e.shmem i).share = 0 := by
  induction is generalizing m ret with
  | nil => simp
  | cons i is ih =>
    obtain ⟨hi, hd⟩ := List.nodup_cons.mp hd
    rw [List.forall_mem_cons] at hm
    have hone := provideShmem_parcel vm (dev.shMemRegions i) (e.shmem i) hm.1
    by_cases h : ShReported (e.shmem i)
    · rw [provideShmems_next h, List.forall_mem_cons, List.forall_mem_cons]
      have hsame := provideShmems_other dev e vm (ghProvideShmem (dev.shMemRegions i) (e.shmem i) vm i m).1 0 hi
      refine and_congr ?_ (ih hd 0 fun j hj => ?_)
      · rw [hsame.1, hsame.2]
        exact hone
      · rw [(provideShmem_other _ _ vm m fun hji : j = i => hi (hji ▸ hj)).2]
        exact hm.2 j hj
    · rw [provideShmems_stop h]
      have hno : ¬ (ShAssigned (e.shmem i) ∧ (e.shmem i).share = 0) := fun hs => h ⟨hs.1, .inl hs.2⟩
      refine iff_of_false (fun hc => hno (hone.mp (hc i (List.mem_cons_self ..)))) fun hc => ?_
      exact hno (hc i (List.mem_cons_self ..))

/-- No region of the loop is left with the VM. -/
def UntakenIn (dev : SecVmDev) (e : LoadAnswers) (vmid : Nat) : List Nat → Prop
  | [] => True
  | i :: is =>
    ¬ ShTaken (dev.shMemRegions i) (e.shmem i) vmid ∧ (ShReported (e.shmem i) → UntakenIn dev e vmid is)

variable (dev e vm) in
theorem provideShmems_untaken {is : List Nat} (hd : is.Nodup) {m : DevMem} (ret : Int)
    (hm : ∀ i ∈ is, m.shOwners i = (dev.shMemRegions i).srcOwners ∧ m.shParcel i = false) :
    (∀ i ∈ is, (provideShmems dev e vm is m ret).1.shOwners i = (dev.shMemRegions i).srcOwners ∧
      (provideShmems dev e vm is m ret).1.shParcel i = false) ↔ UntakenIn dev e vm.vmid is := by
  induction is generalizing m ret with
  | nil => simp [UntakenIn]
  | cons i is ih =>
    obtain ⟨hi, hd⟩ := List.nodup_cons.mp hd
    rw [List.forall_mem_cons] at hm
    have hone := provideShmem_untaken vm (e.shmem i) hm.1
    have hkeep : ∀ j ∈ is, (ghProvideShmem (dev.shMemRegions i) (e.shmem i) vm i m).1.shOwners j =
        (dev.shMemRegions j).srcOwners ∧
        (ghProvideShmem (dev.shMemRegions i) (e.shmem i) vm i m).1.shParcel j = false := by
      intro j hj
      have hother := provideShmem_other (dev.shMemRegions i) (e.shmem i) vm m fun hji : j = i => hi (hji ▸ hj)
      rw [hother.1, hother.2]
      exact hm.2 j hj
    rw [UntakenIn]
    by_cases h : ShReported (e.shmem i)
    · rw [provideShmems_next h, List.forall_mem_cons]
      have hsame := provideShmems_other dev e vm (ghProvideShmem (dev.shMemRegions i) (e.shmem i) vm i m).1 0 hi
      refine and_congr ?_ ((ih hd 0 hkeep).trans (by simp [h]))
      rw [hsame.1, hsame.2]
      exact hone
    · rw [provideShmems_stop h, List.forall_mem_cons]
      exact and_congr hone (iff_of_true hkeep fun h' => absurd h' h)

theorem untakenIn_range' {vmid k n : Nat} :
    UntakenIn dev e vmid (List.range' k n) ↔
      ∀ i, k ≤ i → i < k + n → (∀ j, k ≤ j → j < i → ShReported (e.shmem j)) →
        ¬ ShTaken (dev.shMemRegions i) (e.shmem i) vmid := by
  induction n generalizing k with
  | zero =>
    refine iff_of_true trivial fun i hk hn => ?_
    omega
  | succ n ih =>
    rw [List.range'_succ, UntakenIn, ih]
    constructor
    · rintro ⟨h, hrest⟩ i hk hn hrep
      by_cases hi : i = k
      · exact hi ▸ h
      · exact hrest (hrep k (by omega) (by omega)) i (by omega) (by omega) fun j hj hji => hrep j (by omega) hji
    · intro h
      refine ⟨h k (by omega) (by omega) fun j hj hjk => by omega, fun hrep i hk hn hreps => ?_⟩
      refine h i (by omega) (by omega) fun j hj hji => ?_
      by_cases hjk : j = k
      · exact hjk ▸ hrep
      · exact hreps j (by omega) hji

end Shmems

end GH.Proof.Vm
