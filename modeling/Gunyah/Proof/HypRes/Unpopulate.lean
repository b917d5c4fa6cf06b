import Gunyah.Proof.HypRes.Populate

/-!
# Unpopulating a VM

The loop of `ghRmUnpopulateHypRes` gets over the entries that have been
populated, and empties their cells (`Wipes`). Behind them it may fail, where
nothing is left to be done. Of a VM that is complete it frees every vCPU
(`Left`), and so its slot in the end.
-/

namespace GH.Proof.HypRes

open GH.Impl GH.Impl.Rm GH.Impl.Proxy GH.Spec.Rm

variable {s t u : Tables} {v : VmId} {i : Slot} {ret irq : Int} {e : ResEntry} {P Q R : List ResEntry}

/-! ## Cells -/

/-- The cells of the entries `P` are emptied, and no other is changed. -/
structure Wipes (P : List ResEntry) (s t : Tables) : Prop where
  inv : TablesInv t
  cells : ∀ n, (∀ e ∈ P, name e ≠ some n) → cell t n = cell s n
  cleared : ∀ e ∈ P, ∀ n, name e = some n → cell t n = empty
  callbacks : t.callbacks = s.callbacks

/-- Nothing is to be done where all cells are empty. -/
theorem Wipes.of_empty (h : TablesInv s) (hP : ∀ e ∈ P, ∀ n, name e = some n → cell s n = empty) : Wipes P s s :=
  ⟨h, fun _ _ => rfl, hP, rfl⟩

theorem Wipes.append (h : Wipes P s t) (h' : Wipes Q t u) : Wipes (P ++ Q) s u where
  inv := h'.inv
  cells := fun n hn =>
    (h'.cells n fun e he => hn e (List.mem_append_right P he)).trans
      (h.cells n fun e he => hn e (List.mem_append_left Q he))
  cleared := by
    intro e he n hn
    by_cases hlater : ∀ e' ∈ Q, name e' ≠ some n
    · rcases List.mem_append.mp he with he | he
      · exact (h'.cells n hlater).trans (h.cleared e he n hn)
      · exact h'.cleared e he n hn
    · simp only [not_forall, not_not] at hlater
      obtain ⟨e', he', hn'⟩ := hlater
      exact h'.cleared e' he' n hn'
  callbacks := h'.callbacks.trans h.callbacks

/-- A cell that is empty stays so. -/
theorem Wipes.keeps_empty (h : Wipes P s t) {n : Name} (hn : cell s n = empty) : cell t n = empty := by
  by_cases hP : ∀ e ∈ P, name e ≠ some n
  · exact (h.cells n hP).trans hn
  · simp only [not_forall, not_not] at hP
    obtain ⟨e, he, hne⟩ := hP
    exact h.cleared e he n hne

theorem Wipes.of_empties {n : Name} {r : Tables × Int} (hn : name e = some n) (h : Empties n s r)
    (hr : 0 ≤ r.2 ∨ cell s n = empty) : Wipes [e] s r.1 where
  inv := h.sets.inv
  cells := fun m hm => h.sets.cells m fun hmn => hm e (List.mem_singleton_self e) (by rw [hn, hmn])
  cleared := by
    intro e' he' m hm
    rw [List.mem_singleton.mp he', hn, Option.some.injEq] at hm
    exact hm ▸ hr.elim h.emptied h.stays
  callbacks := h.sets.callbacks

/-- An entry that names nothing. -/
theorem Wipes.of_sched {sched : Sched} (h : TablesInv s) (hn : name e = none) : Wipes [e] s { s with sched := sched } where
  inv := ⟨h.msgq, h.dbl⟩
  cells := fun _ _ => rfl
  cleared := by
    intro e' he' m hm
    rw [List.mem_singleton.mp he', hn] at hm
    cases hm
  callbacks := rfl

/-! ## The slot -/

/-- An entry of which nothing is left in the slot. -/
theorem Left.skip {vm : ProxyVm} (h : Left v (e :: R) vm)
    (hvcpu : e.resType = .vcpu → ∀ c ∈ vm.vcpu, c.capId ≠ e.capId)
    (hvpm : e.resType = .vpmgrp → vm.isVpmGroupInfoPopulated = false) : Left v R vm where
  proxied := h.proxied
  flag := h.flag
  nodup := h.nodup
  irq := by
    intro c hc
    rw [h.irq c hc, List.exists_mem_cons_iff]
    exact or_iff_right fun he => hvcpu he.1 c hc he.2.symm
  vpm := by
    intro hflag
    refine ((List.exists_mem_cons_iff ..).mp (h.vpm hflag)).resolve_left fun ht => ?_
    rw [hvpm ht] at hflag
    cases hflag

theorem Left.dropVcpu {vm : ProxyVm} {j : Nat} {c : ProxyVcpu} (h : Left v (e :: R) vm) (ht : e.resType = .vcpu)
    (hR : ∀ e' ∈ R, e'.resType = .vcpu → e.capId ≠ e'.capId) (hj : vm.vcpu[j]? = some c) (hc : c.capId = e.capId) :
    Left v R (dropVcpu vm j c) := by
  obtain ⟨hlt, rfl⟩ := List.getElem?_eq_some_iff.mp hj
  have hlen : j < (vm.vcpu.map (·.capId)).length := by rwa [List.length_map]
  have hcaps : (HypRes.dropVcpu vm j vm.vcpu[j]).vcpu.map (·.capId) = vm.vcpu.map (·.capId) := by
    have hself : vm.vcpu[j].capId = (vm.vcpu.map (·.capId))[j] := (List.getElem_map ..).symm
    simp only [HypRes.dropVcpu, List.map_set]
    rw [hself, List.set_getElem_self]
  refine ⟨⟨h.proxied.1, fun hnil => h.proxied.2 ((List.set_eq_nil_iff ..).mp hnil)⟩, h.flag, hcaps ▸ h.nodup, ?_, ?_⟩
  · intro c hcmem
    obtain ⟨k, hk, rfl⟩ := List.getElem_of_mem hcmem
    simp only [HypRes.dropVcpu, List.length_set] at hk
    by_cases hkj : j = k
    · subst hkj
      simp only [HypRes.dropVcpu, List.getElem_set_self, ne_eq, not_true_eq_false, false_iff]
      rintro ⟨e', he', ht', hcap⟩
      exact hR e' he' ht' (hc.symm.trans hcap.symm)
    · simp only [HypRes.dropVcpu, List.getElem_set_ne hkj]
      rw [h.irq _ (List.getElem_mem hk), List.exists_mem_cons_iff]
      refine or_iff_right fun he => hkj ?_
      have hlen' : k < (vm.vcpu.map (·.capId)).length := by rwa [List.length_map]
      have hcap : (vm.vcpu.map (·.capId))[j] = (vm.vcpu.map (·.capId))[k] := by
        rw [List.getElem_map, List.getElem_map, hc, he.2]
      exact (h.nodup.getElem_inj_iff).mp hcap
  · intro hvpm
    refine ((List.exists_mem_cons_iff ..).mp (h.vpm hvpm)).resolve_left fun ht' => ?_
    rw [ht] at ht'
    cases ht'

theorem Left.dropVpmGrp {vm : ProxyVm} (h : Left v (e :: R) vm) (ht : e.resType = .vpmgrp) : Left v R (dropVpmGrp vm) where
  proxied := h.proxied
  flag := h.flag
  nodup := h.nodup
  irq := by
    intro c hc
    refine (h.irq c hc).trans ((List.exists_mem_cons_iff ..).trans (or_iff_right fun he => ?_))
    rw [ht] at he
    cases he.1
  vpm := fun hflag => absurd hflag Bool.false_ne_true

/-- Nothing is left but the VM. -/
theorem Left.tally {vm : ProxyVm} (h : Left v [] vm) : slotTally i vm = (0, 0, 1) := by
  have hvcpus : (vm.vcpu.mapIdx (vcpuTally i)).sum = 0 := by
    refine List.sum_eq_zero fun x hx => ?_
    obtain ⟨j, hj, rfl⟩ := List.mem_mapIdx.mp hx
    refine if_pos (not_not.mp fun hne => ?_)
    obtain ⟨e, he, -⟩ := (h.irq _ (List.getElem_mem hj)).mp hne
    exact absurd he List.not_mem_nil
  have hvpm : vpmTally vm = 0 := by
    refine if_neg fun hflag => ?_
    obtain ⟨e, he, -⟩ := h.vpm hflag
    exact absurd he List.not_mem_nil
  rw [slotTally, hvcpus, hvpm, zero_add, zero_add]
  exact if_pos h.flag

/-! ## Entries -/

/-- Two entries that are populated: they are for different things, but for doorbells
that are sent to. -/
structure Distinct (e e' : ResEntry) : Prop where
  name : ∀ n, name e = some n → GH.Spec.Rm.name e' = some n → ∃ l, n = .dbl l .tx
  vcpu : e.resType = .vcpu → e'.resType = .vcpu → e.capId ≠ e'.capId

/-- An entry after one that is taken back can still be taken back. -/
theorem Wipes.recorded {e' : ResEntry} {n : Name} (h : Wipes [e] s t) (hd : Distinct e e') (hn : name e' = some n)
    (hr : Recorded s n) : Recorded t n := by
  by_cases he : name e = some n
  · obtain ⟨l, rfl⟩ := hd.name n he hn
    exact hr
  · exact hr.congr (h.cells n fun e'' he'' => by rwa [List.mem_singleton.mp he''])

/-- An entry that names nothing, of a VM without a slot: nothing happens. -/
theorem resetEntry_unslotted (ret : Int) (hat : At s.sched v i) (hno : ¬ Proxied (s.sched.vms i) v) (hn : name e = none) :
    (resetEntry v e s ret).1 = s ∧
      (Passes s.callbacks False e → 0 ≤ ret → 0 ≤ (resetEntry v e s ret).2.1) := by
  unfold resetEntry
  cases ht : e.resType with
  | vcpu =>
    simp only [unpopulateVcpu_not_proxied hat hno]
    split
    · exact ⟨rfl, fun _ _ => Int.le_refl 0⟩
    · exact ⟨rfl, fun _ => id⟩
  | vpmgrp =>
    simp only [unpopulateVpmGrp_not_proxied hat hno]
    split
    · exact ⟨rfl, fun _ _ => Int.le_refl 0⟩
    · exact ⟨rfl, fun _ => id⟩
  | virtioMmio => exact ⟨rfl, fun _ => id⟩
  | watchdog =>
    obtain ⟨-, hw⟩ := (wdogManage_moves (c := e.capId) (b := false) hat).resolve_right fun hp => hno hp.1
    simp only [hw]
    split
    · rename_i hcb
      exact ⟨rfl, fun hpass => (hpass.2 ht hcb).elim⟩
    · exact ⟨rfl, fun _ => id⟩
  | unknown => exact ⟨rfl, fun hpass => absurd ht hpass.1⟩
  | mqTx | mqRx | dbTx | dbRx =>
    unfold name at hn
    rw [ht] at hn
    cases hn

/-- An entry that names nothing, of a VM that is complete: it is taken back from the slot. -/
theorem resetEntry_slotted (hat : At s.sched v i) (hs : Ledger s.sched) (hcb : Together s.callbacks)
    (hset : s.callbacks.vcpuAffinitySet = true) (hleft : Left v (e :: R) (s.sched.vms i)) (hknown : e.resType ≠ .unknown)
    (hR : ∀ e' ∈ R, Distinct e e') (hn : name e = none) (hret : 0 ≤ ret) :
    ∃ sched, (resetEntry v e s ret).1 = { s with sched := sched } ∧ 0 ≤ (resetEntry v e s ret).2.1 ∧
      Moves s.sched i (sched.vms i) sched ∧ Left v R (sched.vms i) := by
  obtain ⟨hreset, hvpm, hwdog, -⟩ := hcb.all hset
  have hsame : (∀ c ∈ (s.sched.vms i).vcpu, e.resType = .vcpu → c.capId ≠ e.capId) →
      (e.resType = .vpmgrp → (s.sched.vms i).isVpmGroupInfoPopulated = false) →
      Moves s.sched i (s.sched.vms i) s.sched ∧ Left v R (s.sched.vms i) := fun hvcpu hvpm =>
    ⟨.refl s.sched i, hleft.skip (fun ht c hc => hvcpu c hc ht) hvpm⟩
  unfold resetEntry
  simp only [hreset, hvpm, hwdog, if_true]
  cases ht : e.resType with
  | vcpu =>
    have hnot : ∀ c ∈ (s.sched.vms i).vcpu, c.capId = e.capId → c.virq ≠ IRQ_INVAL := fun c hc hcap =>
      (hleft.irq c hc).mpr ⟨e, List.mem_cons_self, ht, hcap.symm⟩
    obtain ⟨hret', hmoves⟩ := unpopulateVcpu_moves hat hs hleft.proxied hleft.flag hnot
    refine ⟨_, rfl, hret'.ge, ?_⟩
    rcases hmoves with ⟨hs', hno⟩ | ⟨j, c, hj, hc, hmoves⟩
    · simp only [hs']
      exact hsame (fun c hc _ => hno c hc) fun hv => by rw [ht] at hv; cases hv
    · simp only [hmoves.self]
      exact ⟨hmoves, hleft.dropVcpu ht (fun e' he' ht' => (hR e' he').vcpu ht ht') hj hc⟩
  | vpmgrp =>
    obtain ⟨hret', hmoves⟩ := unpopulateVpmGrp_moves hat hs hleft.proxied
    refine ⟨_, rfl, hret'.ge, ?_⟩
    rcases hmoves with ⟨hs', hno⟩ | hmoves
    · simp only [hs']
      exact hsame (fun c hc hv => by rw [ht] at hv; cases hv) fun _ => hno
    · simp only [hmoves.self]
      exact ⟨hmoves, hleft.dropVpmGrp ht⟩
  | virtioMmio =>
    obtain ⟨hmoves, hleft'⟩ := hsame (fun c hc hv => by rw [ht] at hv; cases hv) fun hv => by rw [ht] at hv; cases hv
    exact ⟨s.sched, rfl, hret, hmoves, hleft'⟩
  | watchdog =>
    obtain ⟨-, t, w, hmoves, hw⟩ := (wdogManage_moves (c := e.capId) (b := false) hat).resolve_left
      fun hno => hno.1 hleft.proxied
    simp only [hw]
    obtain ⟨-, hleft'⟩ := hsame (fun c hc hv => by rw [ht] at hv; cases hv) fun hv => by rw [ht] at hv; cases hv
    refine ⟨t, rfl, Int.le_refl 0, ?_⟩
    rw [hmoves.self]
    exact ⟨hmoves, hleft'.proxied, hleft'.flag, hleft'.nodup, hleft'.irq, hleft'.vpm⟩
  | unknown => exact absurd ht hknown
  | mqTx | mqRx | dbTx | dbRx =>
    unfold name at hn
    rw [ht] at hn
    cases hn

/-! ## The loop -/

/-- One turn of the loop, over the entry `e`. -/
theorem resetEntries_cons (v : VmId) (e : ResEntry) (P : List ResEntry) (s : Tables) (ret irq : Int) :
    ∃ puts irq', resetEntries v (e :: P) s ret irq =
      if (resetEntry v e s ret).2.1 < 0 then ((resetEntry v e s ret).1, (resetEntry v e s ret).2.1)
      else resetEntries v P { (resetEntry v e s ret).1 with puts := puts } (resetEntry v e s ret).2.1 irq' := by
  simp only [resetEntries]
  by_cases hirq : (resetEntry v e s ret).2.2.getD irq ≥ 0
  · simp only [if_pos hirq]
    exact ⟨_, _, rfl⟩
  · simp only [if_neg hirq]
    exact ⟨_, _, rfl⟩

theorem Wipes.of_puts {puts : List (ResEntry × Int)} (h : Wipes P { s with puts := puts } t) : Wipes P s t :=
  ⟨h.inv, h.cells, h.cleared, h.callbacks⟩

/-- The entries that have not been populated, of a VM without a slot. -/
theorem resetEntries_unused (hinv : TablesInv s) (hat : At s.sched v i) (hno : ¬ Proxied (s.sched.vms i) v)
    (hQ : ∀ e ∈ Q, ∀ n, name e = some n → cell s n = empty) :
    Wipes Q s (resetEntries v Q s ret irq).1 ∧ (resetEntries v Q s ret irq).1.sched = s.sched := by
  induction Q generalizing s ret irq with
  | nil => exact ⟨.of_empty hinv hQ, rfl⟩
  | cons e Q ih =>
    obtain ⟨he, hQ⟩ := List.forall_mem_cons.mp hQ
    have hwipes : Wipes [e] s (resetEntry v e s ret).1 ∧ (resetEntry v e s ret).1.sched = s.sched := by
      cases hn : name e with
      | some n =>
        have hempties := resetEntry_named v ret hinv hn
        exact ⟨.of_empties hn hempties (.inr (he n hn)), hempties.sets.sched⟩
      | none =>
        rw [(resetEntry_unslotted ret hat hno hn).1]
        exact ⟨.of_sched hinv hn, rfl⟩
    obtain ⟨hwipes, hsched⟩ := hwipes
    have hQ' : ∀ e' ∈ Q, ∀ n, name e' = some n → cell (resetEntry v e s ret).1 n = empty := fun e' he' n hn =>
      hwipes.keeps_empty (hQ e' he' n hn)
    obtain ⟨puts, irq', heq⟩ := resetEntries_cons v e Q s ret irq
    rw [heq]
    split
    · exact ⟨hwipes.append (.of_empty hwipes.inv hQ'), hsched⟩
    · obtain ⟨hrest, hsched'⟩ := ih (s := { (resetEntry v e s ret).1 with puts := puts })
        ⟨hwipes.inv.msgq, hwipes.inv.dbl⟩ (hsched ▸ hat) (hsched ▸ hno) hQ'
      exact ⟨hwipes.append hrest.of_puts, hsched'.trans hsched⟩

/-- The entries of a VM without a slot: `P` has been populated, and `Q` has not. -/
theorem resetEntries_unslotted (irq : Int) (hinv : TablesInv s) (hat : At s.sched v i) (hno : ¬ Proxied (s.sched.vms i) v)
    (hP : ∀ e ∈ P, ∀ n, name e = some n → Recorded s n) (hpass : ∀ e ∈ P, Passes s.callbacks False e)
    (hdist : P.Pairwise Distinct)
    (hQ : ∀ e ∈ Q, ∀ n, name e = some n → (∀ e' ∈ P, name e' ≠ some n) → cell s n = empty) (hret : 0 ≤ ret) :
    Wipes (P ++ Q) s (resetEntries v (P ++ Q) s ret irq).1 ∧
      (resetEntries v (P ++ Q) s ret irq).1.sched = s.sched := by
  induction P generalizing s ret irq with
  | nil => exact resetEntries_unused hinv hat hno fun e he n hn => hQ e he n hn fun _ he' => absurd he' List.not_mem_nil
  | cons e P ih =>
    obtain ⟨he, hP⟩ := List.forall_mem_cons.mp hP
    obtain ⟨hpasse, hpass⟩ := List.forall_mem_cons.mp hpass
    obtain ⟨hfirst, hdist⟩ := List.pairwise_cons.mp hdist
    have hentry : Wipes [e] s (resetEntry v e s ret).1 ∧ (resetEntry v e s ret).1.sched = s.sched ∧
        0 ≤ (resetEntry v e s ret).2.1 := by
      cases hn : name e with
      | some n =>
        have hempties := resetEntry_named v ret hinv hn
        have hret' : 0 ≤ (resetEntry v e s ret).2.1 := (hempties.goesWell (he n hn)).ge
        exact ⟨.of_empties hn hempties (.inl hret'), hempties.sets.sched, hret'⟩
      | none =>
        obtain ⟨hsame, hret'⟩ := resetEntry_unslotted ret hat hno hn
        refine ⟨?_, congrArg (·.sched) hsame, hret' hpasse hret⟩
        rw [hsame]
        exact .of_sched hinv hn
    obtain ⟨hwipes, hsched, hret'⟩ := hentry
    have hQ' : ∀ e' ∈ Q, ∀ n, name e' = some n → (∀ e'' ∈ P, name e'' ≠ some n) →
        cell (resetEntry v e s ret).1 n = empty := by
      intro e' he' n hn hno'
      by_cases hne : name e = some n
      · exact hwipes.cleared e (List.mem_singleton_self e) n hne
      · exact hwipes.keeps_empty (hQ e' he' n hn (List.forall_mem_cons.mpr ⟨hne, hno'⟩))
    obtain ⟨puts, irq', heq⟩ := resetEntries_cons v e (P ++ Q) s ret irq
    obtain ⟨hrest, hsched'⟩ := ih (s := { (resetEntry v e s ret).1 with puts := puts }) irq'
      ⟨hwipes.inv.msgq, hwipes.inv.dbl⟩ (hsched ▸ hat) (hsched ▸ hno)
      (fun e' he' n hn => (hwipes.recorded (hfirst e' he') hn (hP e' he' n hn)).congr rfl)
      (fun e' he' => by rw [hwipes.callbacks]; exact hpass e' he') hdist hQ' hret'
    rw [List.cons_append, heq, if_neg (Int.not_lt.mpr hret')]
    exact ⟨hwipes.append hrest.of_puts, hsched'.trans hsched⟩

/-- The entries of a VM that is complete: nothing but the VM is left in its slot. -/
theorem resetEntries_slotted (irq : Int) (hinv : TablesInv s) (hat : At s.sched v i) (hs : Ledger s.sched)
    (hcb : Together s.callbacks) (hset : s.callbacks.vcpuAffinitySet = true)
    (hP : ∀ e ∈ P, ∀ n, name e = some n → Recorded s n) (hknown : ∀ e ∈ P, e.resType ≠ .unknown)
    (hdist : P.Pairwise Distinct) (hleft : Left v P (s.sched.vms i)) (hret : 0 ≤ ret) :
    Wipes P s (resetEntries v P s ret irq).1 ∧ 0 ≤ (resetEntries v P s ret irq).2 ∧
      Moves s.sched i ((resetEntries v P s ret irq).1.sched.vms i) (resetEntries v P s ret irq).1.sched ∧
      Left v [] ((resetEntries v P s ret irq).1.sched.vms i) := by
  induction P generalizing s ret irq with
  | nil => exact ⟨.of_empty hinv fun _ he => absurd he List.not_mem_nil, hret, .refl s.sched i, hleft⟩
  | cons e P ih =>
    obtain ⟨he, hP⟩ := List.forall_mem_cons.mp hP
    obtain ⟨hknowne, hknown⟩ := List.forall_mem_cons.mp hknown
    obtain ⟨hfirst, hdist⟩ := List.pairwise_cons.mp hdist
    have hentry : Wipes [e] s (resetEntry v e s ret).1 ∧ 0 ≤ (resetEntry v e s ret).2.1 ∧
        Moves s.sched i ((resetEntry v e s ret).1.sched.vms i) (resetEntry v e s ret).1.sched ∧
        Left v P ((resetEntry v e s ret).1.sched.vms i) := by
      cases hn : name e with
      | some n =>
        have hempties := resetEntry_named v ret hinv hn
        have hret' : 0 ≤ (resetEntry v e s ret).2.1 := (hempties.goesWell (he n hn)).ge
        have hsched : (resetEntry v e s ret).1.sched = s.sched := hempties.sets.sched
        refine ⟨.of_empties hn hempties (.inl hret'), hret', ?_⟩
        rw [hsched]
        refine ⟨.refl s.sched i, hleft.skip (fun ht => ?_) fun ht => ?_⟩ <;>
        · rw [name, ht] at hn
          cases hn
      | none =>
        obtain ⟨sched, hsame, hret', hmoves, hleft'⟩ := resetEntry_slotted hat hs hcb hset hleft hknowne hfirst hn hret
        refine ⟨?_, hret', ?_⟩
        · rw [hsame]
          exact .of_sched hinv hn
        · rw [hsame]
          exact ⟨hmoves, hleft'⟩
    obtain ⟨hwipes, hret', hmoves, hleft'⟩ := hentry
    obtain ⟨puts, irq', heq⟩ := resetEntries_cons v e P s ret irq
    obtain ⟨hrest, hret'', hmoves', hleft''⟩ := ih (s := { (resetEntry v e s ret).1 with puts := puts }) irq'
      ⟨hwipes.inv.msgq, hwipes.inv.dbl⟩ (hat.moves hmoves (.inl hleft'.proxied.1)) (hmoves.ledger hs)
      (hwipes.callbacks ▸ hcb) (hwipes.callbacks ▸ hset)
      (fun e' he' n hn => (hwipes.recorded (hfirst e' he') hn (hP e' he' n hn)).congr rfl) hknown hdist hleft' hret'
    rw [heq, if_neg (Int.not_lt.mpr hret')]
    exact ⟨hwipes.append hrest.of_puts, hret'', hmoves.trans hmoves', hleft''⟩

/-! ## The whole list -/

theorem unpopulate_unslotted (hinv : TablesInv s) (hat : At s.sched v i) (hno : ¬ Proxied (s.sched.vms i) v)
    (hP : ∀ e ∈ P, ∀ n, name e = some n → Recorded s n) (hpass : ∀ e ∈ P, Passes s.callbacks False e)
    (hdist : P.Pairwise Distinct)
    (hQ : ∀ e ∈ Q, ∀ n, name e = some n → (∀ e' ∈ P, name e' ≠ some n) → cell s n = empty) :
    Wipes (P ++ Q) s (ghRmUnpopulateHypRes s v none (P ++ Q)).1 ∧
      (ghRmUnpopulateHypRes s v none (P ++ Q)).1.sched = s.sched := by
  obtain ⟨hwipes, hsched⟩ := resetEntries_unslotted (-1) hinv hat hno hP hpass hdist hQ (Int.le_refl 0)
  have hall := allRes_keeps (s := (resetEntries v (P ++ Q) s 0 (-1)).1) (i := i) false (by rwa [hsched]) (by rwa [hsched])
  simp only [ghRmUnpopulateHypRes, hall]
  split <;> exact ⟨hwipes, hsched⟩

theorem unpopulate_slotted (hinv : TablesInv s) (hat : At s.sched v i) (hs : Ledger s.sched)
    (hcb : Together s.callbacks) (hset : s.callbacks.vcpuAffinitySet = true)
    (hP : ∀ e ∈ P, ∀ n, name e = some n → Recorded s n) (hknown : ∀ e ∈ P, e.resType ≠ .unknown)
    (hdist : P.Pairwise Distinct) (hleft : Left v P (s.sched.vms i)) (hfree : ∃ k, Free (s.sched.vms k)) :
    Wipes P s (ghRmUnpopulateHypRes s v none P).1 ∧
      ∃ vm, Free vm ∧ Moves s.sched i vm (ghRmUnpopulateHypRes s v none P).1.sched := by
  obtain ⟨hwipes, hret, hmoves, hleft'⟩ := resetEntries_slotted (-1) hinv hat hs hcb hset hP hknown
    hdist hleft (Int.le_refl 0)
  obtain ⟨k, hk⟩ := hfree
  have hki : k ≠ i := by
    rintro rfl
    exact hat.valid (hleft.proxied.1.symm.trans hk.id)
  have hat' := hat.moves hmoves (.inl hleft'.proxied.1)
  have hs' := hmoves.ledger hs
  have hroom := hs'.vm_room (i := k) (by rw [hmoves.vms, Function.update_of_ne hki, hk.flag])
  have hreset := allRes_reset hat' hs' hroom hleft'.proxied hleft'.tally hleft'.flag
  have hall : allResPopulated v false (resetEntries v P s 0 (-1)).1 = { (resetEntries v P s 0 (-1)).1 with
      sched := ghPopulateAllResInfo (resetEntries v P s 0 (-1)).1.sched v false } := by
    have hcb' := (hcb.all hset).2.2.2
    rw [← hwipes.callbacks] at hcb'
    exact if_pos hcb'
  simp only [ghRmUnpopulateHypRes, if_neg (Int.not_lt.mpr hret), hall]
  exact ⟨⟨⟨hwipes.inv.msgq, hwipes.inv.dbl⟩, hwipes.cells, hwipes.cleared, hwipes.callbacks⟩, _,
    ⟨rfl, rfl, rfl, rfl⟩, hmoves.trans hreset⟩

end GH.Proof.HypRes
