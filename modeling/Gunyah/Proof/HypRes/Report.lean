import Gunyah.Proof.HypRes.Populate
import Gunyah.Spec.Rm.Report

/-!
# What populating reports

The two loops of `gh_rm_populate_hyp_res` end without an error exactly if every entry is handled
(`populateVcpus_done`, `populateEntries_done`). What is returned then is what the last entry has left in
`ret`: 0, or its interrupt, where the `switch` writes nothing (`retryEntry_ret`).
-/

namespace GH.Proof.HypRes

open GH.Impl GH.Impl.Rm GH.Impl.Msgq GH.Impl.Dbl GH.Impl.Proxy GH.Spec.Rm

variable {s t : Tables} {v : VmId} {r ret : Int} {x : ResEntry × EntryAnswers} {res : List (ResEntry × EntryAnswers)}

/-! ## The first loop -/

theorem populateVcpus_done (h : populateVcpus v res s r = some (t, ret)) (hr : 0 ≤ r) :
    (0 ≤ ret → VcpusDone v res s t) ∧ ∀ t', VcpusDone v res s t' → t' = t ∧ 0 ≤ ret := by
  induction res generalizing s r with
  | nil =>
    simp only [populateVcpus, Option.some.injEq, Prod.mk.injEq] at h
    obtain ⟨rfl, rfl⟩ := h
    refine ⟨fun _ => .nil s, fun t' hd => ?_⟩
    cases hd
    exact ⟨rfl, hr⟩
  | cons x res ih =>
    obtain ⟨hx, hrest⟩ | ⟨hx, ⟨hirq, rfl, hret⟩ | ⟨hirq, s', r', hset, hnext⟩⟩ := populateVcpus_cons h
    · obtain ⟨hdone, hall⟩ := ih hrest hr
      refine ⟨fun hret => .other hx (hdone hret), fun t' hd => ?_⟩
      cases hd with
      | other _ hd => exact hall t' hd
      | unset hx' | set hx' => exact absurd hx' hx
    · refine ⟨fun h => absurd hret (Int.not_lt.mpr h), fun t' hd => ?_⟩
      cases hd with
      | other hx' => exact absurd hx hx'
      | unset _ hirq' | set _ hirq' => exact absurd hirq (Int.not_lt.mpr hirq')
    · rcases hset with ⟨hcb, rfl, rfl⟩ | ⟨hcb, hset⟩
      · rcases hnext with ⟨hlt, -⟩ | ⟨hge, hnext⟩
        · exact absurd hlt (Int.not_lt.mpr hirq)
        · obtain ⟨hdone, hall⟩ := ih hnext hge
          refine ⟨fun hret => .unset hx hirq hcb (hdone hret), fun t' hd => ?_⟩
          cases hd with
          | other hx' => exact absurd hx hx'
          | unset _ _ _ hd => exact hall t' hd
          | set _ _ hcb' => exact absurd (hcb.symm.trans hcb') (by decide)
      · have hnot : ∀ t', VcpusDone v (x :: res) s t' → 0 ≤ r' ∧ VcpusDone v res s' t' := by
          intro t' hd
          cases hd with
          | other hx' => exact absurd hx hx'
          | unset _ _ hcb' => exact absurd (hcb'.symm.trans hcb) (by decide)
          | set _ _ _ hset' hret' hd =>
            rw [hset] at hset'
            cases hset'
            exact ⟨hret', hd⟩
        rcases hnext with ⟨hlt, rfl, rfl⟩ | ⟨hge, hnext⟩
        · exact ⟨fun h => absurd hlt (Int.not_lt.mpr h), fun t' hd => absurd hlt (Int.not_lt.mpr (hnot t' hd).1)⟩
        · obtain ⟨hdone, hall⟩ := ih hnext hge
          exact ⟨fun hret => .set hx hirq hcb hset hge (hdone hret), fun t' hd => hall t' (hnot t' hd).2⟩

/-! ## The second loop -/

theorem populateEntries_done (h : populateEntries v res s r = some (t, ret)) (hr : 0 ≤ r) :
    (0 ≤ ret → EntriesDone v res s t) ∧ ∀ t', EntriesDone v res s t' → t' = t ∧ 0 ≤ ret := by
  induction res generalizing s r with
  | nil =>
    simp only [populateEntries, Option.some.injEq, Prod.mk.injEq] at h
    obtain ⟨rfl, rfl⟩ := h
    refine ⟨fun _ => .nil s, fun t' hd => ?_⟩
    cases hd
    exact ⟨rfl, hr⟩
  | cons x res ih =>
    obtain ⟨hirq, rfl, hret⟩ | ⟨hirq, s', r', hs', hnext⟩ := populateEntries_cons h
    · refine ⟨fun h => absurd hret (Int.not_lt.mpr h), fun t' hd => ?_⟩
      cases hd with
      | cons hirq' => exact absurd hirq (Int.not_lt.mpr hirq')
    · have hnot : ∀ t', EntriesDone v (x :: res) s t' → 0 ≤ r' ∧ EntriesDone v res s' t' := by
        intro t' hd
        cases hd with
        | cons _ hentry hret' hd =>
          have heq := hs'.symm.trans hentry
          cases heq
          exact ⟨hret', hd⟩
      rcases hnext with ⟨hlt, rfl, rfl⟩ | ⟨hge, hnext⟩
      · exact ⟨fun h => absurd hlt (Int.not_lt.mpr h), fun t' hd => absurd hlt (Int.not_lt.mpr (hnot t' hd).1)⟩
      · obtain ⟨hdone, hall⟩ := ih hnext hge
        exact ⟨fun hret => .cons hirq hs' hge (hdone hret), fun t' hd => hall t' (hnot t' hd).2⟩

/-! ## What an entry leaves in `ret` -/

theorem einval_le : -EINVAL ≤ 0 := by decide

theorem enxio_le : - ENXIO ≤ 0 := by decide

theorem populateMsgq_le (s : Registry) (p : Populate) : (ghMsgqPopulateCapInfo s p).2 ≤ 0 := by
  unfold ghMsgqPopulateCapInfo
  split
  · exact einval_le
  split
  · exact enxio_le
  split
  · rename_i hf
    have hnomem : -ENOMEM ≤ 0 := by decide
    unfold Registry.findOrAlloc ghMsgqAllocEntry at hf
    split at hf
    · cases hf
    split at hf
    · cases hf
    · cases hf
      exact hnomem
  split
  · split
    · rename_i h
      exact Int.le_of_lt h
    · exact Int.le_refl 0
  · exact einval_le

theorem populateDbl_le (s : Doorbells) (label : BitVec 32) (capId : BitVec 64) (direction rxIrq : Int) {irqRet : Int}
    (h : irqRet ≤ 0) : (ghDblPopulateCapInfo s label capId direction rxIrq irqRet).2 ≤ 0 := by
  have hagain : -EAGAIN ≤ 0 := by decide
  unfold ghDblPopulateCapInfo
  split
  · exact hagain
  split
  · simp only
    split
    · split
      · exact enxio_le
      · exact Int.le_refl 0
    split
    · split
      · exact enxio_le
      split
      · exact h
      · exact h
    · exact einval_le
  · exact einval_le

theorem populateVpmGrp_le (s : Sched) (vmid : VmId) (capId : BitVec 64) (virqNum : Int) {irqRet : Int} (h : irqRet ≤ 0) :
    (ghPopulateVmVpmGrpInfo s vmid capId virqNum irqRet).2 ≤ 0 := by
  unfold ghPopulateVmVpmGrpInfo
  split
  · exact enxio_le
  split
  · exact Int.le_refl 0
  split
  · exact einval_le
  simp only
  split
  · exact Int.le_refl 0
  split
  · exact h
  · exact h

theorem wdogManage_le (s : Sched) (vmid : VmId) (capId : BitVec 64) (populate : Bool) :
    (ghWdogManage s vmid capId populate).2 ≤ 0 := by
  unfold ghWdogManage
  split
  · exact enxio_le
  split
  · exact einval_le
  · exact Int.le_refl 0

theorem populateMsgq_spec (s : Tables) (p : Populate) :
    (populateMsgq s p).2 = (ghMsgqPopulateCapInfo s.msgq p).2 ∧ (populateMsgq s p).1.callbacks = s.callbacks := by
  unfold populateMsgq
  simp only
  split
  · split
    · exact ⟨rfl, rfl⟩
    · exact ⟨rfl, rfl⟩
  · exact ⟨rfl, rfl⟩

/-- What a turn for an entry leaves in `ret`: its interrupt, or nothing positive. -/
theorem populateEntry_ret (v : VmId) (e : ResEntry) (irq : Int) (s : Tables) {u : EntryTry} (hirq : u.irqRet ≤ 0)
    (hvirtio : u.virtio ≤ 0) :
    (KeepsIrq s.callbacks e → (populateEntry v e irq s u).2 = irq) ∧
      (¬ KeepsIrq s.callbacks e → (populateEntry v e irq s u).2 ≤ 0) := by
  unfold populateEntry KeepsIrq
  cases e.resType with
  | mqTx | mqRx =>
    refine ⟨False.elim, fun _ => ?_⟩
    rw [(populateMsgq_spec s _).1]
    exact populateMsgq_le _ _
  | dbTx | dbRx => exact ⟨False.elim, fun _ => populateDbl_le _ _ _ _ _ hirq⟩
  | vcpu => exact ⟨fun _ => rfl, fun h => absurd trivial h⟩
  | vpmgrp =>
    cases hcb : s.callbacks.vpmGrpSet with
    | true => exact ⟨nofun, fun _ => populateVpmGrp_le _ _ _ _ hirq⟩
    | false => exact ⟨fun _ => rfl, fun h => absurd rfl h⟩
  | virtioMmio =>
    cases hcb : s.callbacks.virtioMmio with
    | true => exact ⟨nofun, fun _ => hvirtio⟩
    | false => exact ⟨fun _ => rfl, fun h => absurd rfl h⟩
  | watchdog =>
    cases hcb : s.callbacks.wdogManage with
    | true => exact ⟨nofun, fun _ => wdogManage_le _ _ _ _⟩
    | false => exact ⟨fun _ => rfl, fun h => absurd rfl h⟩
  | unknown => exact ⟨False.elim, fun _ => einval_le⟩

theorem populateEntry_callbacks (v : VmId) (e : ResEntry) (irq : Int) (s : Tables) (u : EntryTry) :
    (populateEntry v e irq s u).1.callbacks = s.callbacks := by
  unfold populateEntry
  cases e.resType with
  | mqTx | mqRx => exact (populateMsgq_spec s _).2
  | dbTx | dbRx | vcpu | unknown => rfl
  | vpmgrp => cases s.callbacks.vpmGrpSet <;> rfl
  | virtioMmio => cases s.callbacks.virtioMmio <;> rfl
  | watchdog => cases s.callbacks.wdogManage <;> rfl

/-- What the loop for an entry leaves in `ret`, if it does not fail. -/
theorem retryEntry_ret {irq : Int} (htries : ∀ u ∈ x.2.tries, u.irqRet ≤ 0 ∧ u.virtio ≤ 0)
    (h : retry (populateEntry v x.1 irq) x.2.tries s = some (t, r)) (hr : 0 ≤ r) :
    t.callbacks = s.callbacks ∧ (KeepsIrq s.callbacks x.1 → r = irq) ∧ (¬ KeepsIrq s.callbacks x.1 → r = 0) := by
  obtain ⟨last, hmem, u, hu, heq, -⟩ := retry_ends (P := fun u => u.callbacks = s.callbacks) h rfl fun w _ u hu _ =>
    (populateEntry_callbacks v x.1 irq u w).trans hu
  obtain ⟨hirq, hvirtio⟩ := htries last hmem
  obtain ⟨hkeeps, hwrites⟩ := populateEntry_ret v x.1 irq u hirq hvirtio
  obtain ⟨rfl, rfl⟩ := Prod.mk.inj heq
  rw [hu] at hkeeps hwrites
  exact ⟨(populateEntry_callbacks v x.1 irq u last).trans hu, hkeeps, fun hno => le_antisymm (hwrites hno) hr⟩

/-- What the second loop returns, if it does not fail, is what the last entry leaves. -/
theorem populateEntries_ret (hpos : NonePositive res) (h : populateEntries v res s r = some (t, ret)) (hret : 0 ≤ ret) :
    (res = [] → ret = r) ∧ ∀ x, res.getLast? = some x →
      (KeepsIrq s.callbacks x.1 → ret = entryIrq x) ∧ (¬ KeepsIrq s.callbacks x.1 → ret = 0) := by
  induction res generalizing s r with
  | nil =>
    simp only [populateEntries, Option.some.injEq, Prod.mk.injEq] at h
    exact ⟨fun _ => h.2.symm, fun _ hx => by cases hx⟩
  | cons x res ih =>
    refine ⟨fun hnil => absurd hnil (List.cons_ne_nil x res), ?_⟩
    obtain ⟨-, -, hlt⟩ | ⟨-, s', r', hs', ⟨hlt, -, rfl⟩ | ⟨hge, hnext⟩⟩ := populateEntries_cons h
    · exact absurd hlt (Int.not_lt.mpr hret)
    · exact absurd hlt (Int.not_lt.mpr hret)
    obtain ⟨hcb, hx⟩ := retryEntry_ret (hpos x List.mem_cons_self) hs' hge
    obtain ⟨hnil, hlast⟩ := ih (fun y hy => hpos y (List.mem_cons_of_mem x hy)) hnext
    cases res with
    | nil =>
      intro y hy
      obtain rfl : x = y := Option.some.inj hy
      rw [hnil rfl]
      exact hx
    | cons y res =>
      rw [List.getLast?_cons_cons, ← hcb]
      exact hlast

theorem populateVcpu_callbacks (v : VmId) (e : ResEntry) (irq : Int) (s : Tables) (u : VcpuTry) :
    (populateVcpu v e irq s u).1.callbacks = s.callbacks := rfl

theorem populateVcpus_callbacks (h : populateVcpus v res s r = some (t, ret)) : t.callbacks = s.callbacks := by
  induction res generalizing s r with
  | nil =>
    simp only [populateVcpus, Option.some.injEq, Prod.mk.injEq] at h
    rw [h.1]
  | cons x res ih =>
    obtain ⟨-, hrest⟩ | ⟨-, ⟨-, rfl, -⟩ | ⟨-, s', r', hset, hnext⟩⟩ := populateVcpus_cons h
    · exact ih hrest
    · rfl
    · have hcb : s'.callbacks = s.callbacks := by
        rcases hset with ⟨-, rfl, -⟩ | ⟨-, hset⟩
        · rfl
        · obtain ⟨last, -, u, hu, heq, -⟩ := retry_ends (P := fun u => u.callbacks = s.callbacks) hset rfl
            fun w _ u hu _ => (populateVcpu_callbacks v x.1 _ u w).trans hu
          obtain ⟨rfl, -⟩ := Prod.mk.inj heq
          exact (populateVcpu_callbacks v x.1 _ u last).trans hu
      rcases hnext with ⟨-, rfl, -⟩ | ⟨-, hnext⟩
      · exact hcb
      · exact (ih hnext).trans hcb

/-! ## `gh_rm_populate_hyp_res` -/

/-- `gh_rm_populate_hyp_res` returns 0 if every entry is handled, and an error otherwise, exactly if the
last entry does not leave its interrupt in `ret` then. -/
theorem populate_reports_iff (v : VmId) (s : Tables) {res : List (ResEntry × EntryAnswers)} (hpos : NonePositive res)
    {t : Tables} {ret : Int} (h : ghRmPopulateHypRes s v none res = some (t, ret)) :
    Reports (Handled v s res) ret ↔ (Handled v s res → LastWithoutIrq s.callbacks res) := by
  obtain ⟨s₁, r₁, h₁, ⟨hlt, -, rfl⟩ | ⟨hge, s₂, h₂, -⟩⟩ := populate_cases h
  · -- the first loop fails
    have hno : ¬ Handled v s res := fun hh =>
      hh.elim fun t' hd => absurd hlt (Int.not_lt.mpr ((populateVcpus_done h₁ (Int.le_refl 0)).2 t' hd.choose_spec.1).2)
    exact iff_of_true ⟨fun hh => absurd hh hno, fun _ => hlt⟩ fun hh => absurd hh hno
  · obtain ⟨hdone, hall⟩ := populateVcpus_done h₁ (Int.le_refl 0)
    obtain ⟨hdone', hall'⟩ := populateEntries_done h₂ hge
    have hiff : Handled v s res ↔ 0 ≤ ret := by
      constructor
      · rintro ⟨s₁', s₂', hv, he⟩
        obtain ⟨rfl, -⟩ := hall s₁' hv
        exact (hall' s₂' he).2
      · exact fun hret => ⟨s₁, s₂, hdone hge, hdone' hret⟩
    rw [hiff]
    constructor
    · intro hreports hret x hx hkeeps
      have hval := (populateEntries_ret hpos h₂ hret).2 x hx
      rw [populateVcpus_callbacks h₁] at hval
      rw [← hreports.ok hret]
      exact (hval.1 hkeeps).symm
    · intro hlast
      refine ⟨fun hret => ?_, Int.not_le.mp⟩
      obtain ⟨hnil, hval⟩ := populateEntries_ret hpos h₂ hret
      cases hx : res.getLast? with
      | none =>
        obtain rfl := List.getLast?_eq_none_iff.mp hx
        rw [hnil rfl]
        simp only [populateVcpus, Option.some.injEq, Prod.mk.injEq] at h₁
        exact h₁.2.symm
      | some x =>
        have hval := hval x hx
        rw [populateVcpus_callbacks h₁] at hval
        by_cases hkeeps : KeepsIrq s.callbacks x.1
        · rw [hval.1 hkeeps]
          exact hlast hret x hx hkeeps
        · exact hval.2 hkeeps

/-- A vCPU with an interrupt, in a list of its own. -/
def lastVcpu : List (ResEntry × EntryAnswers) :=
  [(⟨.vcpu, 0, 7, 0, 1, 40⟩, { vcpuIrq := { irq := 12 }, irq := { irq := 12 } })]

theorem populate_reports_iff_vcpu :
    Reports (Handled 45 (HypRes.init false false).tables lastVcpu) 12 ↔
      (Handled 45 (HypRes.init false false).tables lastVcpu →
        LastWithoutIrq (HypRes.init false false).tables.callbacks lastVcpu) :=
  populate_reports_iff 45 _ (by simp [NonePositive, lastVcpu]) (t := (HypRes.init false false).tables) rfl

/-- The only resource is a vCPU, and no callback is registered: it is handled, and its interrupt is returned. -/
theorem populate_returns_irq :
    ghRmPopulateHypRes (HypRes.init false false).tables 45 none lastVcpu = some ((HypRes.init false false).tables, 12) ∧
      Handled 45 (HypRes.init false false).tables lastVcpu ∧
      ¬ Reports (Handled 45 (HypRes.init false false).tables lastVcpu) 12 := by
  have hhandled : Handled 45 (HypRes.init false false).tables lastVcpu :=
    ⟨_, _, .unset rfl (by decide) rfl (.nil _), .cons (by decide) rfl (by decide) (.nil _)⟩
  exact ⟨rfl, hhandled, fun hn => absurd (hn.ok hhandled) (by decide)⟩

end GH.Proof.HypRes
