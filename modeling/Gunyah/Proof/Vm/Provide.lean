import Gunyah.Spec.Vm.Provide
import Gunyah.Proof.Rm.Share
import Gunyah.Proof.Vm.Shmem

/-!
# All or nothing

What the two loops of `gh_provide_mem` do to the owners of the parcels (`assigned_keeps`,
`back_restores`), and what the RM's interface makes of its request (`provideRm_result`). The memory
stays with the VM where an assignment fails after another has succeeded; and 0 is returned where
the RM refuses and the parcels go back, since the way back overwrites the error.
-/

namespace GH.Proof.Provide

open GH.Impl GH.Impl.Rm GH.Impl.Vm GH.Impl.Shmem GH.Impl.Provide GH.Spec.Rm GH.Spec.Shmem GH.Spec.Provide
  GH.Proof.Rm

section Mem

variable {vmid : VmId} {ans : Nat → Int}

/-! ## The loops -/

theorem owned_append (calls calls' : List ProvideCall) (owners : GhMemParcel → List VmPerm) :
    (calls ++ calls').foldl ownersAfter owners = calls'.foldl ownersAfter (calls.foldl ownersAfter owners) :=
  List.foldl_append ..

/-- The RM does not change who owns the parcels. -/
theorem owned_rm (sent : List CallArgs) (owners : GhMemParcel → List VmPerm) :
    (sent.map ProvideCall.rm).foldl ownersAfter owners = owners := by
  induction sent with
  | nil => rfl
  | cons args sent ih => exact ih

theorem assignParcels_fails {i : Nat} {p : GhMemParcel} {ps : List GhMemParcel} (h : ans i ≠ 0) :
    assignParcels ans vmid i (p :: ps) = ([.assignMem p srcvmid (destVM vmid) (ans i)], ans i) := by
  rw [assignParcels, if_pos h]

theorem assignParcels_next {i : Nat} {p : GhMemParcel} {ps : List GhMemParcel} (h : ans i = 0) :
    assignParcels ans vmid i (p :: ps) =
      (.assignMem p srcvmid (destVM vmid) 0 :: (assignParcels ans vmid (i + 1) ps).1,
        (assignParcels ans vmid (i + 1) ps).2) := by
  rw [assignParcels, if_neg (not_not.mpr h), h]

/-- The first loop succeeds exactly if each of its calls does. -/
theorem assignParcels_ret (vmid : VmId) (ps : List GhMemParcel) :
    ∀ i, (assignParcels ans vmid i ps).2 = 0 ↔ ∀ k < ps.length, ans (i + k) = 0 := by
  induction ps with
  | nil => exact fun i => iff_of_true rfl fun k hk => absurd hk (Nat.not_lt_zero k)
  | cons p ps ih =>
    intro i
    by_cases h : ans i = 0
    · rw [assignParcels_next h, ih]
      constructor
      · intro hall k hk
        cases k with
        | zero => exact h
        | succ k =>
          rw [show i + (k + 1) = i + 1 + k by omega]
          exact hall k (Nat.lt_of_succ_lt_succ hk)
      · intro hall k hk
        rw [show i + 1 + k = i + (k + 1) by omega]
        exact hall (k + 1) (Nat.succ_lt_succ hk)
    · rw [assignParcels_fails h]
      exact iff_of_false h fun hall => h (hall 0 (Nat.zero_lt_succ _))

/-- A parcel that is the VM's stays so in the first loop. -/
theorem assigned_keeps (ps : List GhMemParcel) (q : GhMemParcel) :
    ∀ (i : Nat) (owners : GhMemParcel → List VmPerm), owners q = destVM vmid →
      (assignParcels ans vmid i ps).1.foldl ownersAfter owners q = destVM vmid := by
  induction ps with
  | nil => exact fun _ _ h => h
  | cons p ps ih =>
    intro i owners hq
    have hupdate : Function.update owners p (destVM vmid) q = destVM vmid := by
      by_cases hp : q = p
      · rw [hp, Function.update_self]
      · rw [Function.update_of_ne hp, hq]
    by_cases h : ans i = 0
    · rw [assignParcels_next h]
      exact ih (i + 1) _ hupdate
    · rw [assignParcels_fails h]
      show ownersAfter owners (.assignMem p srcvmid (destVM vmid) (ans i)) q = _
      rw [ownersAfter, if_neg h, hq]

/-- Once its call has succeeded, the first parcel is the VM's. -/
theorem assigned_first (vmid : VmId) {i : Nat} (h : ans i = 0) (p : GhMemParcel) (ps : List GhMemParcel)
    (owners : GhMemParcel → List VmPerm) :
    (assignParcels ans vmid i (p :: ps)).1.foldl ownersAfter owners p = destVM vmid := by
  rw [assignParcels_next h]
  exact assigned_keeps ps p (i + 1) _ (Function.update_self ..)

/-- What the second loop returns is 0, if its calls succeed and there are any. -/
theorem back_ret (ps : List GhMemParcel) : ∀ (i : Nat) (ret : Int), (∀ k < ps.length, ans (i + k) = 0) →
    (assignParcelsBack ans vmid i ps ret).2 = if ps = [] then ret else 0 := by
  induction ps with
  | nil => exact fun _ _ _ => rfl
  | cons p ps ih =>
    intro i ret h
    have h₀ : ans i = 0 := h 0 (Nat.zero_lt_succ _)
    rw [assignParcelsBack, if_neg (List.cons_ne_nil p ps)]
    show (assignParcelsBack ans vmid (i + 1) ps (ans i)).2 = 0
    rw [ih (i + 1) (ans i) fun k hk => by
      rw [show i + 1 + k = i + (k + 1) by omega]
      exact h (k + 1) (Nat.succ_lt_succ hk), h₀, ite_self]

/-! ## The RM's interface -/

/-- An SG list of `n` entries is passed to the helper, with no flags and an ACL that it takes. -/
structure Passes (a : MemArgs) (n : Nat) : Prop where
  memType : a.memType = GH_RM_MEM_TYPE_NORMAL
  flags : a.flags = 0
  acl : 0 < (aclOf a.aclDesc).length ∧ (aclOf a.aclDesc).length < 2 ^ 16
  sgl : a.sglDesc.isSome = true ∧ (sglOf a.sglDesc).length = n
  attr : a.memAttrDesc = none
  handle : a.handle = true

theorem Passes.invalid {a : MemArgs} {n : Nat} (h : Passes a n) : a.invalid = true ↔ n = 0 := by
  obtain ⟨hacl, -⟩ := h.acl
  obtain ⟨hsome, hlen⟩ := h.sgl
  cases hd : a.aclDesc with
  | none =>
    rw [hd] at hacl
    exact absurd hacl (Nat.lt_irrefl 0)
  | some d =>
    cases hs : a.sglDesc with
    | none =>
      rw [hs] at hsome
      cases hsome
    | some sgl =>
      have hne : d.aclEntries ≠ [] := by
        rw [hd] at hacl
        exact List.ne_nil_of_length_pos hacl
      rw [hs] at hlen
      have hnil : sgl.sglEntries = [] ↔ n = 0 := by
        rw [← hlen]
        exact List.length_eq_zero_iff.symm
      simp [MemArgs.invalid, h.memType, h.attr, h.handle, hd, hs, hne, hnil]

/-- The helper returns 0, and a handle with it, exactly if the RM takes the SG list. -/
theorem share_takes {fnId : BitVec 32} (hfn : ShareId fnId) {a : MemArgs} {n : Nat} (h : Passes a n) (env : ShareEnv)
    (xs : Nat → Outcome) :
    ∃ sent ret handle, ((ghRmMemShareLendHelper fnId a env).run fun k => (xs k).callRet) = (sent, some (ret, handle)) ∧
      (ret = 0 ↔ handle.isSome = true) ∧ (ret = 0 ↔ Takes env n xs) := by
  by_cases hn : n = 0
  · rw [share_invalid env (h.invalid.mpr hn)]
    exact ⟨[], -EINVAL, none, rfl, by decide, iff_of_false (by decide) fun ht => ht.some hn⟩
  · have hflags : shareFlagsInvalid fnId a.flags = false := by
      rw [h.flags]
      rcases hfn with rfl | rfl | rfl <;> decide
    obtain ⟨sent, ret, handle, hrun, hhandle, hret⟩ := share_result hfn
      (Bool.eq_false_iff.mpr fun hi => hn (h.invalid.mp hi)) hflags h.acl.2 env xs
    refine ⟨sent, ret, handle, hrun, hhandle, hret.trans ?_⟩
    rw [h.sgl.2]
    exact ⟨fun h => ⟨hn, h.1, h.2.1, h.2.2⟩, fun ht => ⟨ht.alloc, ht.shared, ht.appends⟩⟩

theorem passes_provideArgs (vmid : VmId) (parcels : List GhMemParcel) :
    Passes (provideArgs vmid parcels) (parcels.length % 2 ^ 16) where
  memType := rfl
  flags := rfl
  acl := by simp [aclOf, provideArgs, provideAcl]
  sgl := by
    refine ⟨rfl, ?_⟩
    show (provideSgl parcels).sglEntries.length = _
    rw [provideSgl, List.length_map, List.length_take]
    omega
  attr := rfl
  handle := rfl

/-- What the function of the RM's interface makes of the request of `gh_provide_mem`. A donation is refused:
its ACL has two entries. -/
theorem provideRm_result (vmid : VmId) (parcels : List GhMemParcel) (isSystemVm : Bool) (env : ShareEnv) (xs : Nat → Outcome) :
    ∃ sent ret handle, ((provideRm vmid parcels isSystemVm env).run fun k => (xs k).callRet) =
        (sent, some (ret, handle)) ∧ (ret = 0 ↔ handle.isSome = true) ∧
      (ret = 0 ↔ isSystemVm = false ∧ Takes env (parcels.length % 2 ^ 16) xs) := by
  cases isSystemVm with
  | true => exact ⟨[], -EINVAL, none, rfl, by decide, iff_of_false (by decide) fun h => absurd h.1 (by decide)⟩
  | false =>
    obtain ⟨sent, ret, handle, hrun, hhandle, hret⟩ :=
      share_takes (.inl rfl) (passes_provideArgs vmid parcels) env xs
    exact ⟨sent, ret, handle, hrun, hhandle, hret.trans (and_iff_right rfl).symm⟩

/-! ## `gh_provide_mem` -/

section Provide

variable {parcels : List GhMemParcel} {isSystemVm : Bool} {a : ProvideAnswers}

theorem provide_unallocated (h : ¬ Allocated a parcels.length) (rets : Nat → CallRet) :
    ghProvideMem vmid parcels isSystemVm a rets = some { calls := [], ret := -ENOMEM } := by
  unfold Provide.ghProvideMem kzalloc
  cases hacl : a.acl with
  | false => rfl
  | true =>
    have hno : ¬ (a.sgl = true ∧ sglSize parcels.length ≤ KMALLOC_MAX_SIZE) := fun hs => h ⟨hacl, hs⟩
    rw [if_pos ⟨rfl, by decide⟩, if_neg hno]

/-- An assignment fails: the parcels before it stay with the VM. -/
theorem provide_assign_fails (h : Allocated a parcels.length) (hret : (assignParcels a.assign vmid 0 parcels).2 ≠ 0)
    (rets : Nat → CallRet) :
    ghProvideMem vmid parcels isSystemVm a rets =
      some { calls := (assignParcels a.assign vmid 0 parcels).1, ret := (assignParcels a.assign vmid 0 parcels).2 } := by
  unfold Provide.ghProvideMem kzalloc
  rw [if_pos ⟨h.1, by decide⟩, if_pos h.2]
  exact if_pos hret

/-- The RM takes the parcels. -/
theorem provide_taken (h : Allocated a parcels.length) (hret : (assignParcels a.assign vmid 0 parcels).2 = 0)
    {rets : Nat → CallRet} {sent : List CallArgs} {handle : Option (BitVec 32)}
    (hrun : (provideRm vmid parcels isSystemVm a.env).run rets = (sent, some (0, handle))) :
    ghProvideMem vmid parcels isSystemVm a rets =
      some { calls := (assignParcels a.assign vmid 0 parcels).1 ++ sent.map ProvideCall.rm, rm := some (0, handle), ret := 0 } := by
  unfold Provide.ghProvideMem kzalloc
  rw [if_pos ⟨h.1, by decide⟩, if_pos h.2]
  simp only [hret, ne_eq, not_true_eq_false, if_false, hrun]

/-- The RM refuses the parcels: what is returned is what the way back makes of its error. -/
theorem provide_refused (h : Allocated a parcels.length) (hret : (assignParcels a.assign vmid 0 parcels).2 = 0)
    {rets : Nat → CallRet} {sent : List CallArgs} {ret : Int} {handle : Option (BitVec 32)} (hne : ret ≠ 0)
    (hrun : (provideRm vmid parcels isSystemVm a.env).run rets = (sent, some (ret, handle))) :
    ghProvideMem vmid parcels isSystemVm a rets =
      some { calls := (assignParcels a.assign vmid 0 parcels).1 ++ sent.map ProvideCall.rm ++
               (assignParcelsBack a.back vmid 0 parcels ret).1
             rm := some (ret, handle)
             ret := (assignParcelsBack a.back vmid 0 parcels ret).2 } := by
  unfold Provide.ghProvideMem kzalloc
  rw [if_pos ⟨h.1, by decide⟩, if_pos h.2]
  simp only [hret, ne_eq, not_true_eq_false, if_false, hrun, hne, not_false_eq_true, if_true]

theorem destVM_ne (vmid : VmId) : destVM vmid ≠ srcVM := by simp [destVM, srcVM]

/-- Where an assignment fails, the memory stays with its owners exactly if it is the first. -/
theorem assign_fails_iff {p : GhMemParcel} {ps : List GhMemParcel} {ans : Nat → Int} {owners : GhMemParcel → List VmPerm}
    (howners : Original owners (p :: ps)) (hret : (assignParcels ans vmid 0 (p :: ps)).2 ≠ 0) :
    AllOrNothing ⟨(assignParcels ans vmid 0 (p :: ps)).1, none, (assignParcels ans vmid 0 (p :: ps)).2⟩
      (Original ((assignParcels ans vmid 0 (p :: ps)).1.foldl ownersAfter owners) (p :: ps)) ↔ ans 0 ≠ 0 := by
  by_cases h0 : ans 0 = 0
  · refine iff_of_false (fun hn => destVM_ne vmid ?_) (not_not.mpr h0)
    rw [← assigned_first vmid h0 p ps owners]
    exact hn.back hret p List.mem_cons_self
  · refine iff_of_true ⟨iff_of_false hret ?_, fun _ => ?_⟩ h0
    · rintro ⟨hd, hrm⟩
      cases hrm
    · rw [assignParcels_fails h0]
      show Original (ownersAfter owners (.assignMem p srcvmid (destVM vmid) (ans 0))) (p :: ps)
      rw [ownersAfter, if_neg h0]
      exact howners

/-- Where the RM refuses the parcels and they go back, 0 is returned, unless there are none. -/
theorem refused_iff {ret : Int} {handle : Option (BitVec 32)} (hne : ret ≠ 0) (hback : ∀ k < parcels.length, a.back k = 0)
    (calls : List ProvideCall) (owners : GhMemParcel → List VmPerm) :
    AllOrNothing ⟨calls, some (ret, handle), (assignParcelsBack a.back vmid 0 parcels ret).2⟩
      (Original owners parcels) ↔ parcels = [] := by
  have hrm : ¬ ∃ hd, some (ret, handle) = some ((0 : Int), some hd) := by
    rintro ⟨hd, hrm⟩
    cases hrm
    exact hne rfl
  rw [back_ret parcels 0 ret fun k hk => by rw [Nat.zero_add]; exact hback k hk]
  by_cases hnil : parcels = []
  · subst hnil
    exact iff_of_true ⟨iff_of_false hne hrm, fun _ q hq => absurd hq List.not_mem_nil⟩ rfl
  · rw [if_neg hnil]
    exact iff_of_false (fun hn => hrm (hn.ret.mp rfl)) hnil

/-- `gh_provide_mem` is all or nothing exactly under `MemHolds`, where all that it does to go back
succeeds. -/
theorem mem_all_or_nothing_iff (vmid : VmId) (isSystemVm : Bool) (xs : Nat → Outcome)
    {owners : GhMemParcel → List VmPerm} (howners : Original owners parcels)
    (hback : ∀ k < parcels.length, a.back k = 0) :
    ∃ p, ghProvideMem vmid parcels isSystemVm a (fun k => (xs k).callRet) = some p ∧
      (AllOrNothing p (Original (p.calls.foldl ownersAfter owners) parcels) ↔ MemHolds parcels isSystemVm a xs) := by
  by_cases halloc : Allocated a parcels.length
  · have hholds : MemHolds parcels isSystemVm a xs ↔ parcels = [] ∨ a.assign 0 ≠ 0 ∨
        (∀ k < parcels.length, a.assign k = 0) ∧ isSystemVm = false ∧ Takes a.env (parcels.length % 2 ^ 16) xs :=
      or_iff_right (not_not.mpr halloc)
    have hall : (assignParcels a.assign vmid 0 parcels).2 = 0 ↔ _ := assignParcels_ret vmid parcels 0
    simp only [Nat.zero_add] at hall
    rw [hholds]
    by_cases hassign : (assignParcels a.assign vmid 0 parcels).2 = 0
    · have hall := hall.mp hassign
      obtain ⟨sent, ret, handle, hrun, hhandle, hret⟩ := provideRm_result vmid parcels isSystemVm a.env xs
      by_cases h0 : ret = 0
      · subst h0
        obtain ⟨hd, rfl⟩ := Option.isSome_iff_exists.mp (hhandle.mp rfl)
        exact ⟨_, provide_taken halloc hassign hrun, iff_of_true ⟨iff_of_true rfl ⟨hd, rfl⟩, fun hne => absurd rfl hne⟩
          (.inr (.inr ⟨hall, hret.mp rfl⟩))⟩
      · refine ⟨_, provide_refused halloc hassign h0 hrun, (refused_iff h0 hback _ _).trans ⟨.inl, ?_⟩⟩
        rintro (hnil | hno | ⟨-, hsys⟩)
        · exact hnil
        · by_contra hnil
          exact hno (hall 0 (List.length_pos_iff.mpr hnil))
        · exact absurd (hret.mpr hsys) h0
    · refine ⟨_, provide_assign_fails halloc hassign _, ?_⟩
      cases parcels with
      | nil => exact absurd rfl hassign
      | cons p ps =>
        refine (assign_fails_iff howners hassign).trans ⟨fun h => .inr (.inl h), ?_⟩
        rintro (hno | hno | ⟨hyes, -⟩)
        · exact absurd hno (List.cons_ne_nil p ps)
        · exact hno
        · exact absurd (hall.mpr hyes) hassign
  · refine ⟨_, provide_unallocated halloc _, iff_of_true ⟨iff_of_false (by decide) ?_, fun _ => howners⟩ (.inl halloc)⟩
    rintro ⟨hd, hrm⟩
    cases hrm

end Provide

end Mem

/-! ## `gh_provide_shmem` -/

section Shmem

variable {r : GhShmem} {vmid : VmId}

theorem length_provideDst (vmid : VmId) (hr : r.dstVmidsCount ≤ GH_MAX_VMIDS) :
    0 < (aclEntries (provideDst r vmid)).length ∧ (aclEntries (provideDst r vmid)).length < 2 ^ 16 := by
  have hlen : (aclEntries (provideDst r vmid)).length = (destinations r vmid).length := by
    rw [aclEntries, List.length_map, Shmem.vmperm_provideDst]
  simp only [hlen, destinations, List.length_append, List.length_map, List.length_range, List.length_singleton,
    GH_MAX_VMIDS] at hr ⊢
  split
  · simp only [List.length_singleton]
    omega
  · simp only [List.length_nil]
    omega

theorem passes_shmemArgs (vmid : VmId) (hr : r.dstVmidsCount ≤ GH_MAX_VMIDS) : Passes (shmemArgs vmid r) 1 where
  memType := rfl
  flags := rfl
  acl := by
    have hlen := length_provideDst vmid hr
    have hlt : (aclEntries (provideDst r vmid)).length < 2 ^ 32 := Nat.lt_trans hlen.2 (by decide)
    have hacl : (shmemArgs vmid r).aclDesc = some ⟨_, hlt⟩ := dif_pos hlt
    rw [hacl]
    exact hlen
  sgl := ⟨rfl, rfl⟩
  attr := rfl
  handle := rfl

theorem shmemRm_result (vmid : VmId) (hr : r.dstVmidsCount ≤ GH_MAX_VMIDS) (env : ShareEnv) (xs : Nat → Outcome) :
    ∃ sent ret handle, ((shmemRm vmid r env).run fun k => (xs k).callRet) = (sent, some (ret, handle)) ∧
      (ret = 0 ↔ handle.isSome = true) ∧ (ret = 0 ↔ Takes env 1 xs) := by
  unfold shmemRm
  split
  · exact share_takes (.inl rfl) (passes_shmemArgs vmid hr) env xs
  · exact share_takes (.inr (.inl rfl)) (passes_shmemArgs vmid hr) env xs

/-- Where the region is not assigned, there is an error, and the RM is not called. -/
theorem shmem_unassigned (r : GhShmem) (vmid : VmId) {a : ShmemAnswers} (h : ¬ Assigned a) :
    (Shmem.ghProvideShmem vmid r a).2 ≠ 0 ∧ (Shmem.ghProvideShmem vmid r a).1.any isRmCall = false ∧
      Owned r (sources r) (Shmem.ghProvideShmem vmid r a).1 (sources r) := by
  have hnone : -ENOMEM ≠ 0 ∧ ([] : List ShmemCall).any isRmCall = false ∧ Owned r (sources r) [] (sources r) :=
    ⟨by decide, rfl, .nil _⟩
  unfold Shmem.ghProvideShmem
  split
  · exact hnone
  split
  · exact hnone
  split
  · exact hnone
  split
  · exact hnone
  rename_i h₁ h₂ h₃ h₄
  have hassign : a.assign ≠ 0 := fun h0 =>
    h ⟨by simpa using h₁, by simpa using h₂, by simpa using h₃, by simpa using h₄, h0⟩
  simp only
  rw [if_pos hassign]
  exact ⟨hassign, rfl, .cons (Shmem.assign_fails hassign) (.nil _)⟩

/-- Where the region is assigned, the RM is called; if it refuses, what is returned is what the way
back makes of it. -/
theorem shmem_assigned (r : GhShmem) (vmid : VmId) {a : ShmemAnswers} (h : Assigned a) :
    (Shmem.ghProvideShmem vmid r a).2 = (if a.share ≠ 0 then a.back else 0) ∧
      (Shmem.ghProvideShmem vmid r a).1.any isRmCall = true := by
  rw [Shmem.ghProvideShmem_assigned h]
  by_cases h0 : a.share = 0
  · cases hs : r.isShared <;> simp [h0, isRmCall]
  · cases hs : r.isShared <;> simp [h0, isRmCall]

theorem provideShmem_run {env : ShareEnv} {rets : Nat → CallRet} {share : Int} {handle : Option (BitVec 32)}
    (h : ((shmemRm vmid r env).run rets).2 = some (share, handle)) (a : ShmemAnswers) :
    let calls := (Shmem.ghProvideShmem vmid r { a with share := share }).1
    ghProvideShmem vmid r a env rets =
      some ⟨calls, if calls.any isRmCall then some (share, handle) else none,
        (Shmem.ghProvideShmem vmid r { a with share := share }).2⟩ := by
  unfold Provide.ghProvideShmem
  rw [h]

/-- `gh_provide_shmem` is all or nothing exactly under `ShmemHolds`, where all that it does to go
back succeeds. -/
theorem shmem_all_or_nothing_iff (vmid : VmId) (hr : r.dstVmidsCount ≤ GH_MAX_VMIDS) {a : ShmemAnswers}
    (hback : a.back = 0) (env : ShareEnv) (xs : Nat → Outcome) :
    ∃ p, ghProvideShmem vmid r a env (fun k => (xs k).callRet) = some p ∧
      (AllOrNothing p (Owned r (sources r) p.calls (sources r)) ↔ ShmemHolds a env xs) := by
  obtain ⟨sent, share, handle, hrun, hhandle, hshare⟩ := shmemRm_result vmid hr env xs
  refine ⟨_, provideShmem_run (congrArg Prod.snd hrun) a, ?_⟩
  by_cases ha : Assigned a
  · have ha' : Assigned { a with share := share } := ⟨ha.srcVM, ha.dstVM, ha.acl, ha.sgl, ha.assign⟩
    have hholds : ShmemHolds a env xs ↔ share = 0 := ⟨fun h => hshare.mpr (h ha), fun h0 _ => hshare.mp h0⟩
    obtain ⟨hret, hcalled⟩ := shmem_assigned r vmid ha'
    have hret0 : (Shmem.ghProvideShmem vmid r { a with share := share }).2 = 0 := by
      rw [hret]
      show (if share ≠ 0 then a.back else 0) = 0
      rw [hback, ite_self]
    rw [hholds, if_pos hcalled]
    constructor
    · intro hn
      obtain ⟨hd, hrm⟩ := hn.ret.mp hret0
      exact congrArg Prod.fst (Option.some.inj hrm)
    · rintro rfl
      obtain ⟨hd, rfl⟩ := Option.isSome_iff_exists.mp (hhandle.mp rfl)
      exact ⟨iff_of_true hret0 ⟨hd, rfl⟩, fun hne => absurd hret0 hne⟩
  · have ha' : ¬ Assigned { a with share := share } := fun h => ha ⟨h.srcVM, h.dstVM, h.acl, h.sgl, h.assign⟩
    obtain ⟨hret, hcalled, howned⟩ := shmem_unassigned r vmid ha'
    rw [if_neg (ne_true_of_eq_false hcalled)]
    refine iff_of_true ⟨iff_of_false hret ?_, fun _ => howned⟩ fun h => absurd h ha
    rintro ⟨hd, hrm⟩
    cases hrm

end Shmem

/-! ## The memory of a load -/

section Load

/-- A load knows each parcel by its index: it has it in the hands of the same owners. -/
def Agrees (parcels : List GhMemParcel) (owners : GhMemParcel → List VmPerm) (m : DevMem) : Prop :=
  ∀ k q, parcels[k]? = some q → m.fwOwners k = Shmem.vmidsOf (owners q)

variable {parcels : List GhMemParcel} {owners : GhMemParcel → List VmPerm} {m : DevMem} {vmid : VmId}

theorem Agrees.update (h : Agrees parcels owners m) (hnodup : parcels.Nodup) {i : Nat} {p : GhMemParcel}
    (hp : parcels[i]? = some p) (new : List VmPerm) :
    Agrees parcels (Function.update owners p new)
      { m with fwOwners := Function.update m.fwOwners i (Shmem.vmidsOf new) } := by
  intro k q hq
  by_cases hk : k = i
  · subst hk
    obtain rfl : p = q := Option.some.inj (hp.symm.trans hq)
    rw [Function.update_self]
    exact Function.update_self ..
  · have hne : q ≠ p := fun he => hk ((List.getElem?_inj (List.getElem?_eq_some_iff.mp hq).1 hnodup).mp
      (by rw [hq, hp, he]))
    rw [Function.update_of_ne hne, ← h k q hq]
    exact Function.update_of_ne hk ..

/-- The first loop of a load does what the first loop of `gh_provide_mem` does. -/
theorem assignRegions_agrees (vmid : VmId) (hnodup : parcels.Nodup) (ans : Nat → Int) (ps : List GhMemParcel) :
    ∀ (i : Nat) (owners : GhMemParcel → List VmPerm) (m : DevMem), parcels.drop i = ps → Agrees parcels owners m →
      let load := assignRegions ans (Shmem.vmidsOf (destVM vmid)) (List.range' i ps.length) m
      load.2 = (assignParcels ans vmid i ps).2 ∧ load.1.memParcel = m.memParcel ∧
        Agrees parcels ((assignParcels ans vmid i ps).1.foldl ownersAfter owners) load.1 := by
  induction ps with
  | nil => exact fun i owners m _ h => ⟨rfl, rfl, h⟩
  | cons p ps ih =>
    intro i owners m hdrop h
    have hp : parcels[i]? = some p := by
      rw [← Nat.add_zero i, ← List.getElem?_drop, hdrop]
      rfl
    have hdrop' : parcels.drop (i + 1) = ps := by rw [← List.tail_drop, hdrop, List.tail_cons]
    by_cases h0 : ans i = 0
    · rw [assignParcels_next h0, List.length_cons, List.range'_succ, assignRegions, if_neg (not_not.mpr h0)]
      exact ih (i + 1) _ _ hdrop' (h.update hnodup hp _)
    · rw [assignParcels_fails h0, List.length_cons, List.range'_succ, assignRegions, if_pos h0]
      refine ⟨rfl, rfl, ?_⟩
      show Agrees parcels (ownersAfter owners (.assignMem p srcvmid (destVM vmid) (ans i))) m
      rw [ownersAfter, if_neg h0]
      exact h

/-- The second loop of a load does what the second loop of `gh_provide_mem` does. -/
theorem assignBack_agrees (vmid : VmId) (hnodup : parcels.Nodup) (ans : Nat → Int) (ps : List GhMemParcel) :
    ∀ (i : Nat) (owners : GhMemParcel → List VmPerm) (m : DevMem) (ret : Int), parcels.drop i = ps →
      Agrees parcels owners m →
      let load := (List.range' i ps.length).foldl (assignBack ans) (m, ret)
      load.2 = (assignParcelsBack ans vmid i ps ret).2 ∧ load.1.memParcel = m.memParcel ∧
        Agrees parcels ((assignParcelsBack ans vmid i ps ret).1.foldl ownersAfter owners) load.1 := by
  induction ps with
  | nil => exact fun i owners m ret _ h => ⟨rfl, rfl, h⟩
  | cons p ps ih =>
    intro i owners m ret hdrop h
    have hp : parcels[i]? = some p := by
      rw [← Nat.add_zero i, ← List.getElem?_drop, hdrop]
      rfl
    have hdrop' : parcels.drop (i + 1) = ps := by rw [← List.tail_drop, hdrop, List.tail_cons]
    rw [List.length_cons, List.range'_succ, List.foldl_cons]
    by_cases h0 : ans i = 0
    · rw [assignBack, if_neg (not_not.mpr h0), assignParcelsBack, h0]
      exact ih (i + 1) _ _ 0 hdrop' (h.update hnodup hp _)
    · rw [assignBack, if_pos h0, assignParcelsBack]
      refine ih (i + 1) _ m (ans i) hdrop' ?_
      rw [ownersAfter, if_neg h0]
      exact h

/-- What a load makes of the memory is what the calls of `gh_provide_mem` do to it, and it takes the
same value as the result. -/
theorem load_provides_mem {dev : SecVmDev} (hlen : parcels.length = dev.fwMemCount) (hnodup : parcels.Nodup)
    {e : LoadAnswers} {a : ProvideAnswers} (hacl : e.acl = a.acl)
    (hsgl : e.sgl = (a.sgl && decide (sglSize parcels.length ≤ KMALLOC_MAX_SIZE)))
    (hassign : e.assign = a.assign) (hback : e.back = a.back) {isSystemVm : Bool} {rets : Nat → CallRet}
    {handle : Option (BitVec 32)}
    (hshare : ((provideRm vmid parcels isSystemVm a.env).run rets).2 = some (e.share, handle))
    {vm : GhVm} (hvm : vm.vmid = vmid.toNat) (hm : Agrees parcels owners m) :
    ∃ p, ghProvideMem vmid parcels isSystemVm a rets = some p ∧ (Vm.ghProvideMem dev e vm m).2 = p.ret ∧
      Agrees parcels (p.calls.foldl ownersAfter owners) (Vm.ghProvideMem dev e vm m).1 ∧
      ((Vm.ghProvideMem dev e vm m).1.memParcel = true ↔ m.memParcel = true ∨ p.rm = some (0, handle)) := by
  have hdst : [QCOM_SCM_VMID_HLOS, vm.vmid] = Shmem.vmidsOf (destVM vmid) := by
    rw [hvm]
    rfl
  have hrange : List.range dev.fwMemCount = List.range' 0 parcels.length := by rw [hlen, List.range_eq_range']
  by_cases halloc : Allocated a parcels.length
  · have hsgl' : e.sgl = true := by
      rw [hsgl, halloc.2.1, decide_eq_true halloc.2.2]
      rfl
    obtain ⟨hret, hkept, hagrees⟩ := assignRegions_agrees vmid hnodup a.assign parcels 0 owners m rfl hm
    unfold Vm.ghProvideMem
    rw [if_neg (by simp [hacl, halloc.1]), if_neg (by simp [hsgl']), hdst, hrange, hassign]
    simp only
    by_cases h0 : (assignParcels a.assign vmid 0 parcels).2 = 0
    · rw [if_neg (by rw [hret]; exact not_not.mpr h0)]
      have hrun : (provideRm vmid parcels isSystemVm a.env).run rets =
          (((provideRm vmid parcels isSystemVm a.env).run rets).1, some (e.share, handle)) := by rw [← hshare]
      by_cases hs : e.share = 0
      · rw [hs] at hrun
        refine ⟨_, provide_taken halloc h0 hrun, ?_⟩
        rw [if_neg (not_not.mpr hs), owned_append, owned_rm]
        exact ⟨rfl, hagrees, iff_of_true rfl (.inr rfl)⟩
      · refine ⟨_, provide_refused halloc h0 hs hrun, ?_⟩
        obtain ⟨hret', hkept', hagrees'⟩ := assignBack_agrees vmid hnodup a.back parcels 0 _ _ e.share rfl hagrees
        rw [if_pos hs, hback, owned_append, owned_append, owned_rm]
        refine ⟨hret', hagrees', ?_⟩
        rw [hkept', hkept]
        refine (or_iff_left fun hrm => hs ?_).symm
        exact congrArg Prod.fst (Option.some.inj hrm)
    · rw [if_pos (by rw [hret]; exact h0)]
      refine ⟨_, provide_assign_fails halloc h0 _, hret, hagrees, ?_⟩
      rw [hkept]
      exact (or_iff_left nofun).symm
  · refine ⟨_, provide_unallocated halloc _, ?_⟩
    have hfail : Vm.ghProvideMem dev e vm m = (m, -ENOMEM) := by
      unfold Vm.ghProvideMem
      by_cases h : e.acl = false
      · exact if_pos h
      · rw [if_neg h]
        refine if_pos ?_
        by_contra hs
        rw [hsgl, Bool.not_eq_false, Bool.and_eq_true, decide_eq_true_iff] at hs
        exact halloc ⟨by rw [← hacl]; exact Bool.not_eq_false _ ▸ h, hs⟩
    rw [hfail]
    exact ⟨rfl, hm, (or_iff_left nofun).symm⟩

end Load

/-! ## Both -/

/-- Providing memory is all or nothing exactly where it does not get past its first call, or nothing
fails: the parcels that have been assigned when another cannot be stay with the VM, and where the RM
refuses, 0 is returned. -/
theorem provide_all_or_nothing_iff (vmid : VmId) (parcels : List GhMemParcel) (isSystemVm : Bool)
    (a : ProvideAnswers) (xs : Nat → Outcome) (owners : GhMemParcel → List VmPerm) (howners : Original owners parcels)
    (hback : ∀ k < parcels.length, a.back k = 0) (r : GhShmem) (hr : r.dstVmidsCount ≤ GH_MAX_VMIDS)
    (ar : ShmemAnswers) (hback' : ar.back = 0) (env : ShareEnv) (ys : Nat → Outcome) :
    (∃ p, ghProvideMem vmid parcels isSystemVm a (fun k => (xs k).callRet) = some p ∧
      (AllOrNothing p (Original (p.calls.foldl ownersAfter owners) parcels) ↔ MemHolds parcels isSystemVm a xs)) ∧
    ∃ p, ghProvideShmem vmid r ar env (fun k => (ys k).callRet) = some p ∧
      (AllOrNothing p (Owned r (sources r) p.calls (sources r)) ↔ ShmemHolds ar env ys) :=
  ⟨mem_all_or_nothing_iff vmid isSystemVm xs howners hback, shmem_all_or_nothing_iff vmid hr hback' env ys⟩

/-- Two parcels, and an RM that has nothing against them. -/
def twoParcels : List GhMemParcel := [⟨0x80000000, 0x1000⟩, ⟨0x90000000, 0x2000⟩]

/-- Memory and variables that hold 0 before the calls. -/
def willing : ShareEnv where
  heap := fun _ _ => 0
  out := ⟨0, 0⟩
  appendOut := fun _ => ⟨0, 0⟩

theorem provide_all_or_nothing_iff_two :
    (∃ p, ghProvideMem 45 twoParcels false { env := willing } (fun k => (sharedReplies k).callRet) = some p ∧
      AllOrNothing p (Original (p.calls.foldl ownersAfter fun _ => srcVM) twoParcels)) ∧
    ∃ p, ghProvideShmem 45 Shmem.sharedRegion {} willing (fun k => (sharedReplies k).callRet) = some p ∧
      AllOrNothing p (Owned Shmem.sharedRegion (sources Shmem.sharedRegion) p.calls (sources Shmem.sharedRegion)) := by
  have htakes (n : Nat) (hn : n ≠ 0) (hle : n ≤ GH_RM_MEM_MAX_SGL_ENTRIES) : Takes willing n sharedReplies :=
    ⟨hn, rfl, ⟨5, _, rfl, by decide⟩, fun j hj => absurd hj (by simp only [GH_RM_MEM_MAX_SGL_ENTRIES] at *; omega)⟩
  obtain ⟨⟨p, hp, hmem⟩, q, hq, hshmem⟩ := provide_all_or_nothing_iff 45 twoParcels false { env := willing }
    sharedReplies (fun _ => srcVM) (fun _ _ => rfl) (fun _ _ => rfl) Shmem.sharedRegion (by decide) {} rfl willing
    sharedReplies
  refine ⟨⟨p, hp, hmem.mpr (.inr (.inr (.inr ⟨fun _ _ => rfl, rfl, htakes _ (by decide) (by decide)⟩)))⟩, q, hq, ?_⟩
  exact hshmem.mpr fun _ => htakes 1 (by decide) (by decide)

/-- A system VM: the donation is refused, since its ACL has two entries, the parcels go back, and 0 is
returned, without a handle. -/
theorem donate_reports_nothing :
    ∃ p, ghProvideMem 45 twoParcels true { env := willing } (fun k => (sharedReplies k).callRet) = some p ∧
      p.ret = 0 ∧ p.rm = some (-EINVAL, none) ∧
      ¬ AllOrNothing p (Original (p.calls.foldl ownersAfter fun _ => srcVM) twoParcels) := by
  refine ⟨_, rfl, rfl, rfl, fun hn => ?_⟩
  obtain ⟨hd, hrm⟩ := hn.ret.mp rfl
  cases hrm

end GH.Proof.Provide
