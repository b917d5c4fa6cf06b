import Gunyah.Proof.Rm.Iface

/-!
# The table of VM names

The table holds the VMID of each name that has one, and `GH_VMID_INVAL` for the
others (`NamesInv`, over every run in which the RM gives distinct VMIDs).
`gh_rm_get_vmid` takes 0 for a missing VMID, so it finds one for every name:
the two lookups are right for the names that have a VMID, and for no other
(`vm_names_iff`).
-/

namespace GH.Proof.Rm

open GH.Impl GH.Impl.Rm GH.Spec.Rm

/-- The table holds the names' VMIDs, which are distinct. -/
structure NamesInv (s : NameState) : Prop where
  vmid : ∀ n, n ≠ .max → (s.table n).vmid = (s.assigned n).getD GH_VMID_INVAL
  max : s.assigned .max = none
  valid : ∀ n v, s.assigned n = some v → v ≠ GH_VMID_INVAL ∧ (n ≠ .selfVm → v ≠ 0)
  distinct : ∀ n m v, s.assigned n = some v → s.assigned m = some v → n = m

theorem init_assigned {n : VmName} {v : VmId} (h : NameState.init.assigned n = some v) : n = .selfVm ∧ v = 0 := by
  cases n with
  | selfVm => exact ⟨rfl, (Option.some.inj h).symm⟩
  | _ => cases h

theorem NamesInv.init : NamesInv NameState.init where
  vmid n hn := by
    cases n with
    | max => exact absurd rfl hn
    | _ => rfl
  max := rfl
  valid n v h := by
    obtain ⟨rfl, rfl⟩ := init_assigned h
    exact ⟨by decide, fun hs => absurd rfl hs⟩
  distinct n m v hn hm := by rw [(init_assigned hn).1, (init_assigned hm).1]

theorem mem_names {n : VmName} (hn : n ≠ .max) : n ∈ VmName.selfVm :: VmName.peers := by
  cases n with
  | max => exact absurd rfl hn
  | _ => decide

theorem mem_peers {n : VmName} (hn : n ≠ .max) (hs : n ≠ .selfVm) : n ∈ VmName.peers :=
  (List.mem_cons.mp (mem_names hn)).resolve_left hs

theorem peers_ne {n : VmName} (h : n ∈ VmName.peers) : n ≠ .max ∧ n ≠ .selfVm := by
  constructor
  all_goals
    intro e
    subst e
    exact absurd h (by decide)

/-- The first element a search finds, where there is only one to find. -/
theorem find?_eq_of_unique {α : Type} {p : α → Bool} {l : List α} {a : α} (ha : a ∈ l) (hp : p a)
    (hu : ∀ b ∈ l, p b → b = a) : l.find? p = some a := by
  obtain ⟨b, hb⟩ := Option.isSome_iff_exists.mp (List.find?_isSome.mpr ⟨a, ha, hp⟩)
  rw [hb, hu b (List.mem_of_find?_eq_some hb) (List.find?_some hb)]

section

variable {s : NameState} (h : NamesInv s)
include h

/-- The name whose entry holds a VMID is the one that has it. -/
theorem NamesInv.holder {n m : VmName} {v : VmId} (hn : s.assigned n = some v) (hm : m ≠ .max)
    (he : (s.table m).vmid = v) : m = n := by
  rw [h.vmid m hm] at he
  cases ha : s.assigned m with
  | none =>
    rw [ha] at he
    exact absurd he.symm (h.valid n v hn).1
  | some w =>
    rw [ha, Option.getD_some] at he
    exact h.distinct m n v (he ▸ ha) hn

/-- A name gets a VMID that no other name has. -/
theorem NamesInv.give {n : VmName} {p : VmProperty} (hn : n ≠ .max)
    (hf : GivesFresh s ⟨Function.update s.table n ((s.table n).merge p), s.assigned.give n p.vmid⟩) :
    NamesInv ⟨Function.update s.table n ((s.table n).merge p), s.assigned.give n p.vmid⟩ := by
  by_cases h₀ : p.vmid = 0
  · have hg : s.assigned.give n p.vmid = s.assigned := if_pos h₀
    rw [hg]
    refine ⟨fun m hm => ?_, h.max, h.valid, h.distinct⟩
    simp only [Function.update_apply]
    split
    · rename_i e
      subst e
      rw [← h.vmid m hm]
      exact if_neg (not_not.mpr h₀)
    · exact h.vmid m hm
  have hg : s.assigned.give n p.vmid = Function.update s.assigned n (some p.vmid) := if_neg h₀
  rw [hg] at hf ⊢
  have hcases : ∀ m v, Function.update s.assigned n (some p.vmid) m = some v →
      (m = n ∧ v = p.vmid) ∨ (m ≠ n ∧ s.assigned m = some v) := by
    intro m v hm
    rw [Function.update_apply] at hm
    split at hm
    · exact .inl ⟨by assumption, (Option.some.inj hm).symm⟩
    · exact .inr ⟨by assumption, hm⟩
  -- giving a name the VMID it has already needs nothing of the RM
  have hfresh : p.vmid ≠ GH_VMID_INVAL ∧ ∀ m, m ≠ n → s.assigned m ≠ some p.vmid := by
    by_cases he : s.assigned n = some p.vmid
    · exact ⟨(h.valid n _ he).1, fun m hm hm' => hm (h.distinct m n _ hm' he)⟩
    · exact hf n p.vmid (Function.update_self ..) he
  refine ⟨fun m hm => ?_, ?_, fun m v hm => ?_, fun m k v hm hk => ?_⟩
  · by_cases e : m = n
    · subst e
      simp only [Function.update_self, Option.getD_some]
      exact if_pos h₀
    · simp only [Function.update_of_ne e]
      exact h.vmid m hm
  · simp only [Function.update_of_ne hn.symm]
    exact h.max
  · rcases hcases m v hm with ⟨rfl, rfl⟩ | ⟨-, hm⟩
    · exact ⟨hfresh.1, fun _ => h₀⟩
    · exact h.valid m v hm
  · rcases hcases m v hm with ⟨rfl, rfl⟩ | ⟨hne, hm'⟩
    · rcases hcases k _ hk with ⟨rfl, -⟩ | ⟨hne, hk'⟩
      · rfl
      · exact absurd hk' (hfresh.2 k hne)
    · rcases hcases k _ hk with ⟨rfl, rfl⟩ | ⟨-, hk'⟩
      · exact absurd hm' (hfresh.2 m hne)
      · exact h.distinct m k v hm' hk'

omit h in
theorem take_some {n : VmName} {v w : VmId} (hn : s.assigned.take v n = some w) : s.assigned n = some w := by
  unfold Names.take at hn
  split at hn
  · cases hn
  · exact hn

omit h in
theorem take_of_ne {n : VmName} {v : VmId} (hn : n ≠ .selfVm → s.assigned n ≠ some v) :
    s.assigned.take v n = s.assigned n :=
  if_neg fun hc => hn hc.1 hc.2

/-- The reset of a VMID finds the name that has it. -/
theorem NamesInv.take (v : VmId) : NamesInv ⟨ghResetVmPropTableEntry s.table v, s.assigned.take v⟩ := by
  refine ⟨fun m hm => ?_, ?_, fun n w hn => h.valid n w (take_some hn),
    fun n m w hn hm => h.distinct n m w (take_some hn) (take_some hm)⟩
  · simp only [ghResetVmPropTableEntry]
    cases hf : VmName.peers.find? fun n => v = (s.table n).vmid with
    | none =>
      rw [take_of_ne fun hs ha => ?_]
      · exact h.vmid m hm
      · have := List.find?_eq_none.mp hf m (mem_peers hm hs)
        exact this (by simp [h.vmid m hm, ha])
    | some n =>
      have hn := peers_ne (List.mem_of_find?_eq_some hf)
      have hv : v = (s.table n).vmid := by simpa using List.find?_some hf
      by_cases e : m = n
      · subst e
        simp only [Function.update_self]
        cases ha : s.assigned m with
        | none => rw [take_of_ne (by simp [ha]), ha, Option.getD_none]
        | some w =>
          rw [h.vmid m hm, ha, Option.getD_some] at hv
          rw [Names.take, if_pos ⟨hn.2, by rw [ha, hv]⟩, Option.getD_none]
      · simp only [Function.update_of_ne e]
        rw [take_of_ne fun hs ha => e (h.holder ha hn.1 hv.symm).symm]
        exact h.vmid m hm
  · simp only [take_of_ne (s := s) (n := .max) (v := v) (by simp [h.max]), h.max]

end

/-! ## Steps -/

/-- What a step does to the table and the names. -/
inductive NameChange (s : NameState) : NameState → Prop where
  | same : NameChange s s
  | give {n : VmName} (p : VmProperty) (hn : n ≠ .max) :
      NameChange s ⟨Function.update s.table n ((s.table n).merge p), s.assigned.give n p.vmid⟩
  | take (v : VmId) : NameChange s ⟨ghResetVmPropTableEntry s.table v, s.assigned.take v⟩

theorem get_of_ne {t : VmTable} {n : VmName} (hn : n ≠ .max) : VmTable.get t n = some (t n) := by
  cases n with
  | max => exact absurd rfl hn
  | _ => rfl

theorem update_cases {t t' : VmTable} {n : VmName} {p : Option VmProperty} {ret : Int}
    (h : ghUpdateVmPropTable t n p = some (t', ret)) :
    (t' = t ∧ ret ≠ 0) ∨
      ∃ q, p = some q ∧ n ≠ .max ∧ t' = Function.update t n ((t n).merge q) ∧ ret = 0 := by
  unfold ghUpdateVmPropTable at h
  cases p with
  | none =>
    cases h
    exact .inl ⟨rfl, by decide⟩
  | some q =>
    by_cases hn : n = .max
    · subst hn
      cases h
    · rw [get_of_ne hn] at h
      simp only [Option.bind_eq_bind, Option.bind_some] at h
      split at h
      · cases h
        exact .inl ⟨rfl, by decide⟩
      · cases h
        exact .inr ⟨q, rfl, hn, rfl, rfl⟩

/-- The reply of an allocation: an error, or an update with the VMID that is
stored in `*vmid`. -/
theorem allocReply_cases {t t' : VmTable} {n : VmName} {vmid vmid' : Int} {o : Out} {x : Outcome} {ret : Int}
    (h : ghRmVmAllocVmidReply t n vmid o x.callRet = some (t', vmid', ret)) :
    (t' = t ∧ ret ≠ 0) ∨
      n ≠ .max ∧ t' = Function.update t n ((t n).merge { vmid := BitVec.ofInt 16 vmid' }) ∧ ret = 0 := by
  have hfail : x.callRet.isErr = true → x.callRet.ptrErr ≠ 0 := by
    cases x with
    | early e he => exact fun _ => Int.ne_of_lt he
    | aborted => exact fun _ => by decide
    | refused e he => exact fun _ h₀ => toInt_ne_zero he (ghRemapError_eq_zero h₀)
    | answered p n => exact fun h => by cases h
  have hcode : x.callRet.isErr = false → (x.callRet.out o).replyErrCode = 0 := by
    cases x with
    | answered p n => exact fun _ => rfl
    | _ => exact fun h => by cases h
  simp only [ghRmVmAllocVmidReply] at h
  split at h
  · rename_i hc
    cases h
    refine .inl ⟨rfl, hfail ?_⟩
    rcases hc with hc | hc
    · exact Bool.not_eq_false _ ▸ fun hf => hc (hcode hf)
    · exact hc
  split at h
  · cases h
    exact .inl ⟨rfl, by decide⟩
  split at h
  · cases h
  · rename_i hu
    cases h
    rcases update_cases hu with ⟨rfl, hne⟩ | ⟨q, hq, hn, rfl, rfl⟩
    · exact .inl ⟨rfl, by rw [if_pos hne]; decide⟩
    · cases hq
      exact .inr ⟨hn, rfl, rfl⟩

theorem nameStep_change {s t : NameState} {act : NameAct} (h : nameStep s act = some t) : NameChange s t := by
  cases act with
  | update n p =>
    obtain ⟨⟨t', ret⟩, hu, rfl⟩ := Option.map_eq_some_iff.mp h
    rcases update_cases hu with ⟨rfl, hne⟩ | ⟨q, rfl, hn, rfl, rfl⟩
    · simp only [if_neg hne]
      exact .same
    · simp only [if_true]
      exact .give q hn
  | alloc n vmid o x =>
    obtain ⟨⟨t', vmid', ret⟩, hu, rfl⟩ := Option.map_eq_some_iff.mp h
    unfold ghRmVmAllocVmid at hu
    split at hu
    · cases hu
    split at hu
    · cases hu
      exact .same
    · rcases allocReply_cases hu with ⟨rfl, hne⟩ | ⟨hn, rfl, rfl⟩
      · simp only [if_neg hne]
        exact .same
      · simp only [if_true]
        exact .give _ hn
  | dealloc vmid o x =>
    cases h
    simp only [ghRmVmDeallocVmid, RmCall.run]
    cases noPayloadReply o x.callRet with
    | error e => exact .same
    | ok u => exact .take vmid
  | reset vmid =>
    cases h
    exact .take vmid

theorem NamesInv.step (s : NameState) (act : NameAct) (t : NameState) (h : NamesInv s)
    (hs : nameStep s act = some t) (hf : GivesFresh s t) : NamesInv t := by
  cases nameStep_change hs with
  | same => exact h
  | give p hn => exact h.give hn hf
  | take v => exact h.take v

/-! ## The lookups -/

section

variable {s : NameState} (h : NamesInv s) {n : VmName}
include h

theorem getVmid_some {v : VmId} (hn : n ≠ .selfVm) (ha : s.assigned n = some v) :
    ghRmGetVmid s.table true n = some (.ok v) := by
  have hm : n ≠ .max := by
    rintro rfl
    rw [h.max] at ha
    cases ha
  have hv : (s.table n).vmid = v := by rw [h.vmid n hm, ha, Option.getD_some]
  have h₀ : ¬(v = 0 ∧ n ≠ .selfVm) := fun hc => (h.valid n v ha).2 hn hc.1
  simp only [ghRmGetVmid, get_of_ne hm, hv, Option.bind_eq_bind, Option.bind_some]
  rw [if_neg (by decide), if_neg h₀]
  rfl

/-- A name without a VMID is found too. -/
theorem getVmid_none (hm : n ≠ .max) (ha : s.assigned n = none) :
    ghRmGetVmid s.table true n = some (.ok GH_VMID_INVAL) := by
  have hv : (s.table n).vmid = GH_VMID_INVAL := by rw [h.vmid n hm, ha, Option.getD_none]
  have h₀ : ¬(GH_VMID_INVAL = 0 ∧ n ≠ .selfVm) := fun hc => absurd hc.1 (by decide)
  simp only [ghRmGetVmid, get_of_ne hm, hv, Option.bind_eq_bind, Option.bind_some]
  rw [if_neg (by decide), if_neg h₀]
  rfl

theorem getVmName_some {v : VmId} (ha : s.assigned n = some v) : ghRmGetVmName s.table v = .ok n := by
  have hm : n ≠ .max := by
    rintro rfl
    rw [h.max] at ha
    cases ha
  have hv : (s.table n).vmid = v := by rw [h.vmid n hm, ha, Option.getD_some]
  have hfind := find?_eq_of_unique (p := fun m => (s.table m).vmid = v) (mem_names hm) (by simpa using hv)
    fun m hmem hp => ?_
  · rw [ghRmGetVmName, hfind]
  · refine h.holder ha ?_ (by simpa using hp)
    rcases List.mem_cons.mp hmem with rfl | hmem
    · decide
    · exact (peers_ne hmem).1

theorem lookupOk_iff (initialized : Bool) (hn : n ≠ .selfVm) :
    LookupOk s initialized n ↔ n ≠ .max ∧ (initialized = false ∨ (s.assigned n).isSome) := by
  by_cases hm : n = .max
  · subst hm
    refine iff_of_false (fun hl => ?_) (by simp)
    cases hl.vmid
  simp only [ne_eq, hm, not_false_eq_true, true_and]
  cases initialized with
  | false =>
    have hget : ghRmGetVmid s.table false n = some (.error (-EPROBE_DEFER)) := by
      simp [ghRmGetVmid, get_of_ne hm]
    refine iff_of_true ⟨hget, fun v hv => ?_⟩ (.inl rfl)
    rw [hget] at hv
    cases hv
  | true =>
    cases ha : s.assigned n with
    | some v =>
      have hget := getVmid_some h hn ha
      refine iff_of_true ⟨?_, fun w hw => ?_⟩ (by simp)
      · rw [hget]
        simp [getVmidDoc, ha]
      · rw [hget] at hw
        cases hw
        exact getVmName_some h ha
    | none =>
      refine iff_of_false (fun hl => ?_) (by simp)
      have hvmid := hl.vmid
      rw [getVmid_none h hm ha] at hvmid
      simp [getVmidDoc, ha] at hvmid

end

/-- In every run in which the RM gives distinct VMIDs, the lookups of a name
are right exactly when the name has a VMID (or the driver is not set up yet). -/
theorem vm_names_iff {as : List NameAct} {s : NameState} (h : exec nameStep .init as = some s)
    (hf : Each nameStep (fun s _ t => GivesFresh s t) .init as) {n : VmName} (hn : n ≠ .selfVm)
    (initialized : Bool) :
    LookupOk s initialized n ↔ n ≠ .max ∧ (initialized = false ∨ (s.assigned n).isSome) := by
  have hinv := inv_each NamesInv.step NamesInv.init hf as [] s (by simp) h
  exact lookupOk_iff hinv initialized hn

/-- Before any VM is loaded, the trusted VM has the VMID `0xFFFF`. -/
theorem getVmid_of_no_vm : exec nameStep .init [] = some .init ∧
    Each nameStep (fun s _ t => GivesFresh s t) .init [] ∧ NameState.init.assigned .trustedVm = none ∧
    ghRmGetVmid NameState.init.table true .trustedVm = some (.ok GH_VMID_INVAL) ∧
    ¬ LookupOk .init true .trustedVm := by
  refine ⟨rfl, each_nil _ _, rfl, rfl, fun h => ?_⟩
  cases h.vmid

/-- Once the trusted VM has been given the VMID 45, it is found. -/
theorem vm_names_trusted : ∃ s, exec nameStep .init [.update .trustedVm (some { vmid := 45 })] = some s ∧
    LookupOk s true .trustedVm := by
  have hf : Each nameStep (fun s _ t => GivesFresh s t) .init [.update .trustedVm (some { vmid := 45 })] := by
    rw [each_cons]
    intro t ht
    cases ht
    refine ⟨fun n v hv hne => ?_, each_nil _ _⟩
    cases n with
    | trustedVm =>
      cases hv
      refine ⟨by decide, fun m hm => ?_⟩
      cases m <;> decide
    | _ => exact absurd hv hne
  have hiff := @vm_names_iff [.update .trustedVm (some { vmid := 45 })] _ rfl hf .trustedVm (by decide) true
  exact ⟨_, rfl, hiff.mpr ⟨by decide, .inr rfl⟩⟩

end GH.Proof.Rm
