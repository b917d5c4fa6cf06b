import Gunyah.Spec.Vm.Shmem

/-!
# Provide and reclaim are inverse

Each bitmap of `gh_provide_shmem` and `gh_reclaim_shmem` names the owners in the array that
is filled in with it (`named_setVmpermBits`, `named_setVmpermBit`), and the bitmap that
`gh_reclaim_shmem` makes without an array is the one `gh_provide_shmem` made for the
destinations (`reclaimSrc_eq`). So each function takes the region from those to whom the other
gave it (`reclaim_inverts_provide`).
-/

namespace GH.Proof.Shmem

open GH.Impl GH.Impl.Rm GH.Impl.Vm GH.Impl.Shmem GH.Spec.Shmem

/-! ## Bitmaps of owners -/

theorem getLsbD_bit {n : Nat} (hn : n < 64) (v : Nat) : (bit n).getLsbD v = true ↔ n = v := by
  show (BitVec.twoPow 64 n).getLsbD v = true ↔ n = v
  rw [BitVec.getLsbD_twoPow]
  simp [hn]

/-- The bitmap names the owners in the array. -/
def Named (o : Owners) : Prop := Names o.bitVmid o.vmperm

theorem named_empty : Named {} := fun v => by simp

theorem named_setVmpermBit {o : Owners} {vmid : VmId} (ho : Named o) (hv : vmid.toNat < 64) (perm : BitVec 32) :
    Named (setVmpermBit o vmid perm) := by
  intro v
  have hb := getLsbD_bit hv v
  simp [setVmpermBit, ho v, hb, or_and_right, exists_or]

theorem setVmpermBits_succ (vmids perms : Nat → BitVec 32) (n : Nat) :
    setVmpermBits vmids perms (n + 1) =
      setVmpermBit (setVmpermBits vmids perms n) ((vmids n).setWidth 16) (perms n) := by
  simp [setVmpermBits, List.range_succ]

theorem vmperm_setVmpermBits (vmids perms : Nat → BitVec 32) (n : Nat) :
    (setVmpermBits vmids perms n).vmperm = (List.range n).map fun i => ⟨(vmids i).setWidth 16, perms i⟩ := by
  induction n with
  | zero => rfl
  | succ n ih =>
    rw [setVmpermBits_succ, List.range_succ, List.map_append, ← ih]
    rfl

/-- A VMID that has a bit fits into 16 bits. -/
theorem toNat_setWidth {v : BitVec 32} (hv : v.toNat < 64) : (v.setWidth 16).toNat = v.toNat := by
  rw [BitVec.toNat_setWidth, Nat.mod_eq_of_lt (by omega)]

theorem named_setVmpermBits {vmids perms : Nat → BitVec 32} {n : Nat} (h : ∀ i < n, (vmids i).toNat < 64) :
    Named (setVmpermBits vmids perms n) := by
  induction n with
  | zero => exact named_empty
  | succ n ih =>
    rw [setVmpermBits_succ]
    apply named_setVmpermBit (ih fun i hi => h i (by omega))
    rw [toNat_setWidth (h n (by omega))]
    exact h n (by omega)

/-- The bitmap of a descriptor's VMIDs, made without an array. -/
theorem bitVmid_setVmpermBits {vmids : Nat → BitVec 32} {n : Nat} (perms : Nat → BitVec 32)
    (h : ∀ i < n, (vmids i).toNat < 64) :
    (setVmpermBits vmids perms n).bitVmid = (List.range n).foldl (fun b i => b ||| bit (vmids i).toNat) 0 := by
  induction n with
  | zero => rfl
  | succ n ih =>
    rw [setVmpermBits_succ, List.range_succ, List.foldl_append, ← ih fun i hi => h i (by omega)]
    show _ ||| bit ((vmids n).setWidth 16).toNat = _
    rw [toNat_setWidth (h n (by omega))]
    rfl

/-! ## The owners of a descriptor -/

variable {r : GhShmem} {vmid : VmId}

theorem vmperm_provideSrc : (provideSrc r).vmperm = sources r := by
  show (setVmpermBits _ _ _).vmperm ++ [_] = _
  rw [vmperm_setVmpermBits, sources]

theorem vmperm_provideDst : (provideDst r vmid).vmperm = destinations r vmid := by
  unfold provideDst destinations
  by_cases hs : r.isShared = true
  · rw [if_pos hs, if_pos hs, ← vmperm_setVmpermBits]
    rfl
  · rw [if_neg hs, if_neg hs, ← vmperm_setVmpermBits, List.append_nil]
    rfl

theorem hlos_lt : HLOS.toNat < 64 := by decide

theorem named_provideSrc (hr : Valid r) : Named (provideSrc r) :=
  named_setVmpermBit (named_setVmpermBits hr.src) hlos_lt _

theorem named_provideDst (hr : Valid r) (hv : vmid.toNat < 64) : Named (provideDst r vmid) := by
  have hd : Named (setVmpermBits r.dstVmids r.dstPerms r.dstVmidsCount) := named_setVmpermBits hr.dst
  unfold provideDst
  by_cases hs : r.isShared = true
  · rw [if_pos hs]
    exact named_setVmpermBit (named_setVmpermBit hd hlos_lt _) hv _
  · rw [if_neg hs]
    exact named_setVmpermBit hd hv _

theorem names_sources (hr : Valid r) : Names (provideSrc r).bitVmid (sources r) := by
  rw [← vmperm_provideSrc]
  exact named_provideSrc hr

theorem names_destinations (hr : Valid r) (hv : vmid.toNat < 64) :
    Names (provideDst r vmid).bitVmid (destinations r vmid) := by
  rw [← vmperm_provideDst]
  exact named_provideDst hr hv

/-- The bitmap of the owners that `gh_reclaim_shmem` takes the region from. HLOS and the VM
are added to it in the other order. -/
theorem reclaimSrc_eq (hr : Valid r) : reclaimSrc r vmid = (provideDst r vmid).bitVmid := by
  unfold reclaimSrc provideDst
  rw [← bitVmid_setVmpermBits r.dstPerms hr.dst]
  by_cases hs : r.isShared = true
  · rw [if_pos hs, if_pos hs]
    show (_ ||| bit vmid.toNat) ||| bit HLOS.toNat = (_ ||| bit HLOS.toNat) ||| bit vmid.toNat
    rw [BitVec.or_assoc, BitVec.or_assoc, BitVec.or_comm (bit vmid.toNat)]
  · rw [if_neg hs, if_neg hs]
    rfl

/-! ## The calls -/

theorem owned_two {owners owners' owners'' : List VmPerm} {c c' : ShmemCall} (h : OwnersAfter r owners c owners')
    (h' : OwnersAfter r owners' c' owners'') : Owned r owners [c, c'] owners'' :=
  .cons h (.cons h' (.nil _))

theorem assign_succeeds {owners newvm : List VmPerm} {srcvm : BitVec 64} {ret : Int} (h : Names srcvm owners)
    (hret : ret = 0) : OwnersAfter r owners (.assignMem r.base r.size srcvm newvm ret) newvm := by
  show if ret = 0 then _ else _
  rw [if_pos hret]
  exact ⟨rfl, rfl, h, rfl⟩

theorem ghProvideShmem_assigned {a : ShmemAnswers} (ha : Assigned a) :
    ghProvideShmem vmid r a =
      let src := provideSrc r
      let dst := provideDst r vmid
      let assign := ShmemCall.assignMem r.base r.size src.bitVmid dst.vmperm a.assign
      let share :=
        if r.isShared then ShmemCall.memShare r.gunyahLabel (aclEntries dst) [⟨r.base, r.size⟩] a.share
        else ShmemCall.memLend r.gunyahLabel (aclEntries dst) [⟨r.base, r.size⟩] a.share
      if a.share ≠ 0 then
        ([assign, share, .assignMem r.base r.size dst.bitVmid src.vmperm a.back], a.back)
      else ([assign, share], 0) := by
  unfold Shmem.ghProvideShmem
  rw [if_neg (by simp [ha.srcVM]), if_neg (by simp [ha.dstVM]), if_neg (by simp [ha.acl]),
    if_neg (by simp [ha.sgl]), if_neg (by simp [ha.assign])]

/-- Neither `gh_rm_mem_share` nor `gh_rm_mem_lend` changes the owners. -/
theorem share_keeps (r' : GhShmem) (acl : List AclEntry) (sgl : List SglEntry) (ret : Int) (owners : List VmPerm) :
    OwnersAfter r owners
      (if r'.isShared then .memShare r'.gunyahLabel acl sgl ret else .memLend r'.gunyahLabel acl sgl ret) owners := by
  split
  · rfl
  · rfl

theorem provide_gives (hr : Valid r) {a : ShmemAnswers} (ha : Assigned a) (hs : a.share = 0) :
    Owned r (sources r) (ghProvideShmem vmid r a).1 (destinations r vmid) := by
  rw [ghProvideShmem_assigned ha]
  simp only
  rw [if_neg (not_not.mpr hs), ← vmperm_provideDst]
  exact owned_two (assign_succeeds (names_sources hr) ha.assign) (share_keeps r _ _ _ _)

theorem provide_rolls_back (hr : Valid r) (hv : vmid.toNat < 64) {a : ShmemAnswers} (ha : Assigned a)
    (hs : a.share ≠ 0) (hb : a.back = 0) : Owned r (sources r) (ghProvideShmem vmid r a).1 (sources r) := by
  rw [ghProvideShmem_assigned ha]
  simp only
  rw [if_pos hs]
  apply Owned.cons (assign_succeeds (names_sources hr) ha.assign)
  apply Owned.cons (share_keeps r _ _ _ _)
  rw [vmperm_provideDst, vmperm_provideSrc]
  exact .cons (assign_succeeds (names_destinations hr hv) hb) (.nil _)

theorem reclaim_restores (hr : Valid r) (hv : vmid.toNat < 64) (reclaim : Int) :
    Owned r (destinations r vmid) (ghReclaimShmem vmid r true reclaim 0).1 (sources r) := by
  have hsrc : Names (reclaimSrc r vmid) (destinations r vmid) := by
    rw [reclaimSrc_eq hr]
    exact names_destinations hr hv
  have hdst : (reclaimDst r).vmperm = sources r := vmperm_provideSrc
  show Owned r _ [_, .assignMem r.base r.size (reclaimSrc r vmid) (reclaimDst r).vmperm 0] _
  rw [hdst]
  exact owned_two rfl (assign_succeeds hsrc rfl)

/-- What one of `gh_provide_shmem` and `gh_reclaim_shmem` gives, the other takes, with the same
permissions. -/
theorem reclaim_inverts_provide {r : GhShmem} (hr : Valid r) {vmid : VmId} (hv : vmid.toNat < 64) :
    reclaimSrc r vmid = (provideDst r vmid).bitVmid ∧ (reclaimDst r).vmperm = (provideSrc r).vmperm ∧
    (∀ a, Assigned a → a.share = 0 → Owned r (sources r) (ghProvideShmem vmid r a).1 (destinations r vmid)) ∧
    (∀ reclaim, Owned r (destinations r vmid) (ghReclaimShmem vmid r true reclaim 0).1 (sources r)) ∧
    ∀ a, Assigned a → a.share ≠ 0 → a.back = 0 → Owned r (sources r) (ghProvideShmem vmid r a).1 (sources r) :=
  ⟨reclaimSrc_eq hr, rfl, fun _ ha hs => provide_gives hr ha hs, fun reclaim => reclaim_restores hr hv reclaim,
    fun _ ha hs hb => provide_rolls_back hr hv ha hs hb⟩

/-- A region shared with VM 7 and VM 9, of which VM 5 had it before. -/
def sharedRegion : GhShmem where
  base := 0x8000
  size := 0x1000
  srcVmids := fun _ => 5
  srcVmidsCount := 1
  dstVmids := fun _ => 7
  dstVmidsCount := 1
  srcPerms := fun _ => 6
  dstPerms := fun _ => 4
  gunyahLabel := 2
  isShared := true
  shmemHandle := 11

theorem reclaim_inverts_provide_shared :
    Owned sharedRegion [⟨7, 4⟩, ⟨3, 7⟩, ⟨9, 7⟩] (ghReclaimShmem 9 sharedRegion true 0 0).1 [⟨5, 6⟩, ⟨3, 7⟩] := by
  have hr : Valid sharedRegion := by
    constructor
    · decide
    · decide
    · intro i _
      show (5 : BitVec 32).toNat < 64
      decide
    · intro i _
      show (7 : BitVec 32).toNat < 64
      decide
  exact (reclaim_inverts_provide hr (by decide)).2.2.2.1 0

/-! ## Loading -/

/-- What a load of a VM keeps of a descriptor. -/
def region (r : GhShmem) : Impl.Vm.Shmem where
  srcVmids := (List.range r.srcVmidsCount).map fun i => ((r.srcVmids i).setWidth 16).toNat
  dstVmids := (List.range r.dstVmidsCount).map fun i => ((r.dstVmids i).setWidth 16).toNat
  isShared := r.isShared

/-- The VMIDs of a list of owners, as a load keeps them. -/
def vmidsOf (owners : List VmPerm) : List Nat := owners.map fun p => p.vmid.toNat

theorem toNat_hlos : HLOS.toNat = QCOM_SCM_VMID_HLOS := rfl

theorem vmidsOf_sources : vmidsOf (sources r) = (region r).srcOwners := by
  simp [vmidsOf, sources, region, Vm.Shmem.srcOwners, toNat_hlos, Function.comp_def]

theorem vmidsOf_destinations : vmidsOf (destinations r vmid) = (region r).dstOwners vmid.toNat := by
  unfold destinations Vm.Shmem.dstOwners
  by_cases hs : r.isShared = true
  · rw [if_pos hs, if_pos (show (region r).isShared = true from hs)]
    simp [vmidsOf, region, toNat_hlos, Function.comp_def]
  · rw [if_neg hs, if_neg (show ¬ (region r).isShared = true from hs)]
    simp [vmidsOf, region, Function.comp_def]

/-- An assignment that fails changes nothing. -/
theorem assign_fails {owners newvm : List VmPerm} {phys size srcvm : BitVec 64} {ret : Int} (hret : ret ≠ 0) :
    OwnersAfter r owners (.assignMem phys size srcvm newvm ret) owners := by
  show if ret = 0 then _ else _
  rw [if_neg hret]

/-- A load has the region in the hands of those that the calls of `gh_provide_shmem` give it to, and
takes the same value as its result. -/
theorem load_provides (hr : Valid r) (hv : vmid.toNat < 64) (a : ShmemAnswers) {vm : GhVm} (hvm : vm.vmid = vmid.toNat)
    (i : Nat) {m : DevMem} (hm : m.shOwners i = vmidsOf (sources r)) :
    (Vm.ghProvideShmem (region r) a vm i m).2 = (Shmem.ghProvideShmem vmid r a).2 ∧
    ∃ owners, Owned r (sources r) (Shmem.ghProvideShmem vmid r a).1 owners ∧
      (Vm.ghProvideShmem (region r) a vm i m).1.shOwners i = vmidsOf owners := by
  by_cases hok : a.srcVM = true ∧ a.dstVM = true ∧ a.acl = true ∧ a.sgl = true
  · obtain ⟨h₁, h₂, h₃, h₄⟩ := hok
    unfold Vm.ghProvideShmem
    rw [if_neg (by simp [h₁]), if_neg (by simp [h₂]), if_neg (by simp [h₃]), if_neg (by simp [h₄])]
    by_cases hassign : a.assign = 0
    · have ha : Assigned a := ⟨h₁, h₂, h₃, h₄, hassign⟩
      rw [if_neg (not_not.mpr hassign)]
      by_cases hs : a.share = 0
      · refine ⟨?_, destinations r vmid, provide_gives hr ha hs, ?_⟩
        · rw [ghProvideShmem_assigned ha]
          simp [hs]
        · simp [hs, hvm, vmidsOf_destinations]
      by_cases hb : a.back = 0
      · refine ⟨?_, sources r, provide_rolls_back hr hv ha hs hb, ?_⟩
        · rw [ghProvideShmem_assigned ha]
          simp [hs, hb]
        · simp [hs, hb, vmidsOf_sources]
      · refine ⟨?_, destinations r vmid, ?_, ?_⟩
        · rw [ghProvideShmem_assigned ha]
          simp [hs, hb]
        · rw [ghProvideShmem_assigned ha]
          simp only
          rw [if_pos hs, ← vmperm_provideDst]
          apply Owned.cons (assign_succeeds (names_sources hr) hassign)
          exact owned_two (share_keeps r _ _ _ _) (assign_fails hb)
        · simp [hs, hb, hvm, vmidsOf_destinations]
    · rw [if_pos hassign]
      have he : Shmem.ghProvideShmem vmid r a =
          ([.assignMem r.base r.size (provideSrc r).bitVmid (provideDst r vmid).vmperm a.assign], a.assign) := by
        unfold Shmem.ghProvideShmem
        rw [if_neg (by simp [h₁]), if_neg (by simp [h₂]), if_neg (by simp [h₃]), if_neg (by simp [h₄])]
        exact if_pos hassign
      rw [he]
      exact ⟨rfl, sources r, .cons (assign_fails hassign) (.nil _), hm⟩
  · have hfail : Shmem.ghProvideShmem vmid r a = ([], -ENOMEM) ∧ Vm.ghProvideShmem (region r) a vm i m = (m, -ENOMEM) := by
      unfold Shmem.ghProvideShmem Vm.ghProvideShmem
      cases h₁ : a.srcVM with
      | false => exact ⟨if_pos rfl, if_pos rfl⟩
      | true =>
        cases h₂ : a.dstVM with
        | false => simp
        | true =>
          cases h₃ : a.acl with
          | false => simp
          | true =>
            cases h₄ : a.sgl with
            | false => simp
            | true => exact absurd ⟨h₁, h₂, h₃, h₄⟩ hok
    rw [hfail.1, hfail.2]
    exact ⟨rfl, sources r, .nil _, hm⟩

end GH.Proof.Shmem
