import Gunyah.Spec.Rm.HypRes
import Gunyah.Spec.Rm.Report

/-!
# The interrupts that unpopulating puts

The loop of `gh_rm_unpopulate_hyp_res` keeps the interrupt of an entry for the next ones
(`putsOf`): an entry that hands back nothing has that of an earlier one put with it. The calls
of `gh_rm_put_irq` are right exactly if there is no such entry (`putsOf_handed`, `stale_of_puts`).
-/

namespace GH.Proof.HypRes

open GH.Impl GH.Impl.Rm GH.Impl.Dbl GH.Spec.Rm

/-! ## The calls -/

/-- The calls of `gh_rm_put_irq`, where `irq` was handed back last. -/
def putsOf : List Reset → Int → List (ResEntry × Int)
  | [], _ => []
  | r :: rs, irq =>
    let irq := r.handed.getD irq
    if 0 ≤ irq then (r.entry, irq) :: putsOf rs irq else putsOf rs irq

theorem resetMsgq_puts (s : Tables) (puts : List (ResEntry × Int)) (label direction : Int) :
    resetMsgq { s with puts := puts } label direction =
      ({ (resetMsgq s label direction).1 with puts := puts }, (resetMsgq s label direction).2) := by
  unfold resetMsgq
  simp only
  split
  · rename_i hi
    simp only [hi]
  · rfl

/-- The calls that have been made do not matter for an entry. -/
theorem resetEntry_puts (v : VmId) (e : ResEntry) (s : Tables) (puts : List (ResEntry × Int)) (ret : Int) :
    resetEntry v e { s with puts := puts } ret =
      ({ (resetEntry v e s ret).1 with puts := puts }, (resetEntry v e s ret).2) := by
  unfold resetEntry
  cases e.resType with
  | mqTx | mqRx => exact resetMsgq_puts ..
  | dbTx | dbRx | virtioMmio | unknown => rfl
  | vcpu => cases s.callbacks.vcpuAffinityReset <;> rfl
  | vpmgrp => cases s.callbacks.vpmGrpReset <;> rfl
  | watchdog => cases s.callbacks.wdogManage <;> rfl

theorem resets_puts (v : VmId) (es : List ResEntry) (s : Tables) (puts : List (ResEntry × Int)) (ret : Int) :
    resets v es { s with puts := puts } ret = resets v es s ret := by
  induction es generalizing s ret with
  | nil => rfl
  | cons e es ih =>
    simp only [resets, resetEntry_puts]
    rw [ih]

theorem resetEntry_keeps_puts (v : VmId) (e : ResEntry) (s : Tables) (ret : Int) :
    (resetEntry v e s ret).1.puts = s.puts :=
  congrArg (fun r => r.1.puts) (resetEntry_puts v e s s.puts ret)

/-- The calls of the loop are those for the entries that it resets. -/
theorem resetEntries_puts (v : VmId) (es : List ResEntry) (s : Tables) (ret irq : Int) :
    (resetEntries v es s ret irq).1.puts = s.puts ++ putsOf (resets v es s ret) irq := by
  induction es generalizing s ret irq with
  | nil => exact (List.append_nil _).symm
  | cons e es ih =>
    have hkeeps := resetEntry_keeps_puts v e s ret
    simp only [resetEntries, resets]
    by_cases hret : (resetEntry v e s ret).2.1 < 0
    · rw [if_pos hret, if_pos hret, hkeeps]
      exact (List.append_nil _).symm
    · rw [if_neg hret, if_neg hret, ih, putsOf]
      by_cases hirq : 0 ≤ (resetEntry v e s ret).2.2.getD irq
      · rw [if_pos hirq, if_pos hirq, resets_puts]
        show (resetEntry v e s ret).1.puts ++ [_] ++ _ = _
        rw [hkeeps, List.append_assoc]
        rfl
      · rw [if_neg hirq, if_neg hirq, hkeeps]

/-- The calls of `gh_rm_unpopulate_hyp_res`. -/
theorem unpopulate_puts (v : VmId) (es : List ResEntry) (s : Tables) :
    (ghRmUnpopulateHypRes s v none es).1.puts = s.puts ++ putsOf (resets v es s 0) (-1) := by
  rw [← resetEntries_puts]
  simp only [ghRmUnpopulateHypRes]
  split
  · rfl
  · unfold allResPopulated
    split
    · rfl
    · rfl

/-! ## When they are right -/

variable {rs : List Reset} {r : Reset} {irq : Int}

/-- `NoneStale`, where `irq` was handed back last. -/
def NoneStaleFrom (irq : Int) (rs : List Reset) : Prop :=
  ∀ before r after, rs = before ++ r :: after → r.handed = none → (before.filterMap (·.handed)).getLast?.getD irq < 0

theorem noneStaleFrom_neg : NoneStaleFrom (-1) rs ↔ NoneStale rs := by
  refine forall_congr' fun before => forall_congr' fun r => forall_congr' fun after => imp_congr_right fun _ =>
    imp_congr_right fun _ => ?_
  cases (before.filterMap (·.handed)).getLast? with
  | none => exact iff_of_true (by decide) nofun
  | some i => exact ⟨fun h j hj => Option.some.inj hj ▸ h, fun h => h i rfl⟩

/-- What was handed back last, behind an entry. -/
theorem last_cons (r : Reset) (rs : List Reset) (irq : Int) :
    ((r :: rs).filterMap (·.handed)).getLast?.getD irq = (rs.filterMap (·.handed)).getLast?.getD (r.handed.getD irq) := by
  cases h : r.handed with
  | none => rw [List.filterMap_cons_none h, Option.getD_none]
  | some i => rw [List.filterMap_cons_some h, List.getLast?_cons, Option.getD_some, Option.getD_some]

theorem noneStaleFrom_cons :
    NoneStaleFrom irq (r :: rs) ↔ (r.handed = none → irq < 0) ∧ NoneStaleFrom (r.handed.getD irq) rs := by
  constructor
  · intro h
    refine ⟨h [] r rs rfl, fun before r' after hrs hr' => ?_⟩
    rw [← last_cons]
    exact h (r :: before) r' after (by rw [hrs, List.cons_append]) hr'
  · rintro ⟨hr, h⟩ before r' after hrs hr'
    cases before with
    | nil =>
      cases hrs
      exact hr hr'
    | cons r₁ before =>
      cases hrs
      rw [last_cons]
      exact h before r' after rfl hr'

/-- The interrupts that are handed back, with their entries. -/
def given (rs : List Reset) : List (ResEntry × Int) := (handedBack rs).filter fun p => 0 ≤ p.2

theorem given_none (rs : List Reset) (h : r.handed = none) : given (r :: rs) = given rs := by
  rw [given, handedBack, List.filterMap_cons_none (by rw [h, Option.map_none])]
  rfl

theorem given_some (rs : List Reset) {i : Int} (h : r.handed = some i) :
    given (r :: rs) = if 0 ≤ i then (r.entry, i) :: given rs else given rs := by
  rw [given, handedBack, List.filterMap_cons_some (by rw [h, Option.map_some]), List.filter_cons]
  simp only [decide_eq_true_eq]
  rfl

/-- Where none is stale, the calls are those for the interrupts that are handed back. -/
theorem putsOf_handed (h : NoneStaleFrom irq rs) : putsOf rs irq = given rs := by
  induction rs generalizing irq with
  | nil => rfl
  | cons r rs ih =>
    obtain ⟨hr, hrs⟩ := noneStaleFrom_cons.mp h
    rw [putsOf, ih hrs]
    cases hh : r.handed with
    | none => rw [given_none rs hh, Option.getD_none, if_neg (Int.not_le.mpr (hr hh))]
    | some i => rw [given_some rs hh, Option.getD_some]

/-- There is a call for every interrupt that is handed back, and if there are no others, none is stale. -/
theorem stale_of_puts (rs : List Reset) (irq : Int) :
    (given rs).length ≤ (putsOf rs irq).length ∧
      ((putsOf rs irq).length ≤ (given rs).length → NoneStaleFrom irq rs) := by
  induction rs generalizing irq with
  | nil => exact ⟨Nat.le_refl 0, fun _ before r after hrs => absurd hrs (by simp)⟩
  | cons r rs ih =>
    rw [noneStaleFrom_cons, putsOf]
    cases hh : r.handed with
    | none =>
      obtain ⟨hle, hnone⟩ := ih irq
      rw [given_none rs hh, Option.getD_none]
      by_cases hirq : 0 ≤ irq
      · rw [if_pos hirq, List.length_cons]
        exact ⟨by omega, fun h => absurd h (by omega)⟩
      · rw [if_neg hirq]
        exact ⟨hle, fun h => ⟨fun _ => Int.not_le.mp hirq, hnone h⟩⟩
    | some i =>
      obtain ⟨hle, hnone⟩ := ih i
      rw [given_some rs hh, Option.getD_some]
      by_cases hi : 0 ≤ i
      · rw [if_pos hi, if_pos hi, List.length_cons, List.length_cons]
        exact ⟨Nat.succ_le_succ hle, fun h => ⟨nofun, hnone (Nat.le_of_succ_le_succ h)⟩⟩
      · rw [if_neg hi, if_neg hi]
        exact ⟨hle, fun h => ⟨nofun, hnone h⟩⟩

theorem putsOf_nonneg (rs : List Reset) : ∀ irq, ∀ p ∈ putsOf rs irq, 0 ≤ p.2 := by
  induction rs with
  | nil => exact fun _ _ hp => absurd hp List.not_mem_nil
  | cons r rs ih =>
    intro irq p hp
    rw [putsOf] at hp
    by_cases hirq : 0 ≤ r.handed.getD irq
    · rw [if_pos hirq] at hp
      rcases List.mem_cons.mp hp with rfl | hp
      · exact hirq
      · exact ih _ p hp
    · rw [if_neg hirq] at hp
      exact ih _ p hp

theorem given_irqs (rs : List Reset) :
    ((given rs).map (·.2)).filter (0 < ·) = (rs.filterMap (·.handed)).filter (0 < ·) := by
  induction rs with
  | nil => rfl
  | cons r rs ih =>
    cases hh : r.handed with
    | none => rw [given_none rs hh, List.filterMap_cons_none hh, ih]
    | some i =>
      rw [given_some rs hh, List.filterMap_cons_some hh, List.filter_cons, ← ih]
      by_cases hi : 0 ≤ i
      · rw [if_pos hi, List.map_cons, List.filter_cons]
      · rw [if_neg hi, if_neg (by simpa using Int.le_of_lt (Int.not_le.mp hi))]

theorem putsOf_right_iff (rs : List Reset) : PutsRight rs (putsOf rs (-1)) ↔ NoneStale rs ∧ HandedOnce rs := by
  have hiff : NoneStale rs → (PutsRight rs (putsOf rs (-1)) ↔ HandedOnce rs) := by
    intro h
    rw [putsOf_handed (noneStaleFrom_neg.mpr h)]
    constructor
    · intro hp
      have honce := hp.once
      rwa [given_irqs] at honce
    · intro honce
      exact ⟨List.filter_sublist, by rw [given_irqs]; exact honce⟩
  constructor
  · intro hp
    have hsub : (putsOf rs (-1)).Sublist (given rs) := by
      have h := hp.paired.filter fun p => decide (0 ≤ p.2)
      rwa [List.filter_eq_self.mpr fun p hmem => decide_eq_true (putsOf_nonneg rs (-1) p hmem)] at h
    have hnone := noneStaleFrom_neg.mp ((stale_of_puts rs (-1)).2 hsub.length_le)
    exact ⟨hnone, (hiff hnone).mp hp⟩
  · exact fun h => (hiff h.1).mpr h.2

/-- Unpopulating puts every interrupt with its own entry, and none twice, exactly if no entry that
hands back nothing comes behind an interrupt, and the interrupts that are handed back are different ones. -/
theorem unpopulate_puts_iff (v : VmId) (es : List ResEntry) (s : Tables) :
    ∃ puts, (ghRmUnpopulateHypRes s v none es).1.puts = s.puts ++ puts ∧
      (PutsRight (resets v es s 0) puts ↔ NoneStale (resets v es s 0) ∧ HandedOnce (resets v es s 0)) :=
  ⟨_, unpopulate_puts v es s, putsOf_right_iff _⟩

/-- A doorbell that is received from, with interrupt 5, and a virtio device behind it. -/
def dblThenVirtio : List (ResEntry × EntryAnswers) :=
  [(⟨.dbRx, 1, 7, 0, 1, 40⟩, { irq := { irq := 5 } }), (⟨.virtioMmio, 2, 8, 0, 0, 0⟩, {})]

/-- The interrupt of the doorbell is put twice, the second time for the virtio device. -/
theorem virtio_puts_again :
    ∃ t, ghRmPopulateHypRes (HypRes.init false false).tables 45 none dblThenVirtio = some (t, 0) ∧
      (ghRmUnpopulateHypRes t 45 none (dblThenVirtio.map (·.1))).1.puts =
        [(⟨.dbRx, 1, 7, 0, 1, 40⟩, 5), (⟨.virtioMmio, 2, 8, 0, 0, 0⟩, 5)] ∧
      ¬ PutsRight (resets 45 (dblThenVirtio.map (·.1)) t 0)
        (ghRmUnpopulateHypRes t 45 none (dblThenVirtio.map (·.1))).1.puts := by
  refine ⟨_, rfl, rfl, fun hp => ?_⟩
  have honce := hp.once
  exact absurd honce (by decide)

end GH.Proof.HypRes
