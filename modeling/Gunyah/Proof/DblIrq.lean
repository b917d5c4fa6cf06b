import Gunyah.Framework.Run
import Gunyah.Spec.DblIrq

/-!
# The interrupts of doorbells

`gh_dbl_populate_cap_info` stores the interrupt in the entry before it requests it (`populate_cases`), and
`gh_dbl_reset_cap_info` frees what is in the entry (`reset_cases`). So the entry keeps to what is requested
(`IrqInv`) exactly as long as no request fails for an interrupt that was not in it (`balanced_iff`).
-/

namespace GH.Proof.Dbl

open GH.Impl GH.Impl.Dbl GH.Spec.Dbl

/-! ## The calls -/

/-- What `gh_dbl_populate_cap_info` does: nothing, or a capability to send to is stored, or an interrupt is requested. -/
inductive Populates (s : Doorbells) (label : BitVec 32) (capId : BitVec 64) (direction rxIrq irqRet : Int) : Doorbells × Int → Prop where
  | refuse {ret : Int} (hret : ret < 0) (hno : ¬ Asks s label direction rxIrq) : Populates s label capId direction rxIrq irqRet (s, ret)
  | tx (l : Label) (hdir : direction = GH_DBL_DIRECTION_TX) :
      Populates s label capId direction rxIrq irqRet (s.set l { s.table l with txCapId := capId }, 0)
  | fail (l : Label) (hl : l.val = label.toNat) (hask : Asks s label direction rxIrq) (hret : irqRet < 0) :
      Populates s label capId direction rxIrq irqRet (s.set l { s.table l with rxIrq }, irqRet)
  | rx (l : Label) (hl : l.val = label.toNat) (hask : Asks s label direction rxIrq) (hret : ¬ irqRet < 0) (irqs : Label → List Int) :
      Populates s label capId direction rxIrq irqRet
        ({ s.set l { s.table l with rxIrq, rxCapId := capId } with irqs }, irqRet)

theorem populate_cases (s : Doorbells) (label : BitVec 32) (capId : BitVec 64) (direction rxIrq irqRet : Int) :
    Populates s label capId direction rxIrq irqRet (ghDblPopulateCapInfo s label capId direction rxIrq irqRet) := by
  unfold ghDblPopulateCapInfo
  by_cases hinit : s.initialized = false
  · rw [if_pos hinit]
    refine .refuse (by decide) fun hask => ?_
    nomatch hinit.symm.trans hask.1
  rw [if_neg hinit]
  by_cases hl : label.toNat < GH_DBL_LABEL_MAX
  · rw [dif_pos hl]
    simp only
    by_cases htx : direction = GH_DBL_DIRECTION_TX
    · rw [if_pos htx]
      by_cases hirq : rxIrq > 0
      · rw [if_pos hirq]
        refine .refuse (by decide) fun hask => ?_
        nomatch htx.symm.trans hask.2.2.1
      · rw [if_neg hirq]
        exact .tx _ htx
    rw [if_neg htx]
    by_cases hrx : direction = GH_DBL_DIRECTION_RX
    · rw [if_pos hrx]
      by_cases hirq : rxIrq ≤ 0
      · rw [if_pos hirq]
        exact .refuse (by decide) fun hask => absurd hask.2.2.2 (Int.not_lt.mpr hirq)
      have hask : Asks s label direction rxIrq := ⟨Bool.of_not_eq_false hinit, hl, hrx, Int.not_le.mp hirq⟩
      rw [if_neg hirq]
      by_cases hret : irqRet < 0
      · rw [if_pos hret]
        exact .fail _ rfl hask hret
      · rw [if_neg hret]
        simp only [Doorbells.set, Function.update_self, Function.update_idem]
        exact .rx _ rfl hask hret _
    · rw [if_neg hrx]
      exact .refuse (by decide) fun hask => hrx hask.2.2.1
  · rw [dif_neg hl]
    exact .refuse (by decide) fun hask => hl hask.2.1

/-- An entry that keeps its interrupt. -/
theorem rxIrq_set {s : Doorbells} {l : Label} {e : DblCapTable} (he : e.rxIrq = (s.table l).rxIrq) (l' : Label) :
    ((s.set l e).table l').rxIrq = (s.table l').rxIrq := by
  unfold Doorbells.set
  by_cases heq : l' = l
  · subst heq
    simpa only [Function.update_self] using he
  · simp only [Function.update_of_ne heq]

/-- What `gh_dbl_reset_cap_info` does: nothing is freed and no interrupt changes, or that of the entry is freed. -/
theorem reset_cases (s : Doorbells) (label : BitVec 32) (direction : Int) (irq : Bool) :
    (freedIrq (ghDblResetCapInfo s label direction irq) = none ∧
      ∀ l, ((ghDblResetCapInfo s label direction irq).1.table l).rxIrq = (s.table l).rxIrq) ∨
    ∃ l : Label, l.val = label.toNat ∧ (s.table l).rxIrq ≠ 0 ∧
      freedIrq (ghDblResetCapInfo s label direction irq) = some (s.table l).rxIrq ∧
      (ghDblResetCapInfo s label direction irq).1.table =
        Function.update s.table l { s.table l with rxIrq := 0, rxCapId := GH_CAPID_INVAL } := by
  unfold ghDblResetCapInfo
  by_cases hinit : s.initialized = false
  · rw [if_pos hinit]
    exact .inl ⟨rfl, fun _ => rfl⟩
  rw [if_neg hinit]
  by_cases hl : label.toNat < GH_DBL_LABEL_MAX
  · rw [dif_pos hl]
    simp only
    by_cases hirq : irq = false
    · rw [if_pos hirq]
      exact .inl ⟨rfl, fun _ => rfl⟩
    rw [if_neg hirq]
    by_cases htx : direction = GH_DBL_DIRECTION_TX
    · rw [if_pos htx]
      refine .inl ⟨rfl, fun l => rxIrq_set ?_ l⟩
      rfl
    rw [if_neg htx]
    by_cases hrx : direction = GH_DBL_DIRECTION_RX
    · rw [if_pos hrx]
      by_cases hzero : (s.table ⟨label.toNat, hl⟩).rxIrq = 0
      · rw [if_pos hzero]
        exact .inl ⟨rfl, fun _ => rfl⟩
      · rw [if_neg hzero]
        refine .inr ⟨⟨label.toNat, hl⟩, rfl, hzero, ?_, rfl⟩
        simp [freedIrq, hzero]
    · rw [if_neg hrx]
      exact .inl ⟨rfl, fun _ => rfl⟩
  · rw [dif_neg hl]
    exact .inl ⟨rfl, fun _ => rfl⟩

/-! ## What is requested -/

section Ops

variable {l l' : Label} {i j : Int} {ops : List IrqOp}

theorem opFor_eq {label : BitVec 32} (hl : l.val = label.toNat) (op : Label → IrqOp) : opFor label op = [op l] := by
  unfold opFor
  rw [dif_pos (hl ▸ l.isLt)]
  exact congrArg (fun l => [op l]) (Fin.ext hl.symm)

end Ops

/-- The interrupt of an entry is requested for its label. -/
def IrqInv (s : CapRun) : Prop := ∀ l, (s.dbl.table l).rxIrq ≠ 0 → Requested s.ops l (s.dbl.table l).rxIrq

theorem IrqInv.init (initialized : Bool) : IrqInv (.init initialized) := fun _ h => absurd rfl h

section Steps

variable {s t : CapRun} {label : BitVec 32}

theorem IrqInv.same (h : IrqInv s) (hrx : ∀ l, (t.dbl.table l).rxIrq = (s.dbl.table l).rxIrq) (hops : t.ops = s.ops) : IrqInv t := by
  intro l hne
  rw [hrx l] at hne ⊢
  exact hops ▸ h l hne

theorem IrqInv.populate (h : IrqInv s) {capId : BitVec 64} {direction rxIrq irqRet : Int}
    (hst : capStep s (.populate label capId direction rxIrq irqRet) = some t)
    (hknown : FailsKnown s (.populate label capId direction rxIrq irqRet) t) : IrqInv t := by
  have hcases := populate_cases s.dbl label capId direction rxIrq irqRet
  cases hst
  simp only [FailsKnown] at hknown
  generalize ghDblPopulateCapInfo s.dbl label capId direction rxIrq irqRet = x at hcases
  cases hcases with
  | refuse hret hno =>
    refine h.same (fun _ => rfl) ?_
    rw [if_neg fun hx => Int.not_le.mpr hret hx.2]
    rfl
  | tx l hdir =>
    refine h.same (fun l' => rxIrq_set (s := s.dbl) (l := l) ?_ l') ?_
    · rfl
    rw [if_neg fun hx => absurd (hdir.symm.trans hx.1) (by decide)]
    rfl
  | fail l hl hask hret =>
    refine h.same (fun l' => rxIrq_set (hknown hask hret l hl).symm l') ?_
    rw [if_neg fun hx => Int.not_le.mpr hret hx.2]
    rfl
  | rx l hl hask hret irqs =>
    intro l' hne
    rw [if_pos ⟨hask.2.2.1, Int.not_lt.mp hret⟩, opFor_eq hl]
    by_cases heq : l' = l
    · subst heq
      simp only [Doorbells.set, Function.update_self]
      exact since_new
    · simp only [Doorbells.set, Function.update_of_ne heq] at hne ⊢
      exact since_cons (h l' hne) nofun

theorem populate_balanced {capId : BitVec 64} {direction rxIrq irqRet : Int}
    (hst : capStep s (.populate label capId direction rxIrq irqRet) = some t) :
    CallBalanced s (.populate label capId direction rxIrq irqRet) t ↔ FailsKnown s (.populate label capId direction rxIrq irqRet) t := by
  have hcases := populate_cases s.dbl label capId direction rxIrq irqRet
  cases hst
  simp only [FailsKnown, CallBalanced]
  generalize ghDblPopulateCapInfo s.dbl label capId direction rxIrq irqRet = x at hcases
  cases hcases with
  | refuse hret hno => exact iff_of_true (fun _ _ _ => rfl) fun hask => absurd hask hno
  | tx l hdir => exact iff_of_true (fun hx => absurd hx (Int.lt_irrefl 0)) fun hask => (nomatch hdir.symm.trans hask.2.2.1)
  | fail l hl hask hret =>
    constructor
    · intro hsame _ _ l' hl'
      obtain rfl : l' = l := Fin.ext (hl'.trans hl.symm)
      have hentry := congrArg DblCapTable.rxIrq (hsame hret l' hl')
      simpa only [Doorbells.set, Function.update_self] using hentry.symm
    · intro hknown _ l' hl'
      obtain rfl : l' = l := Fin.ext (hl'.trans hl.symm)
      simp only [Doorbells.set, Function.update_self, ← hknown hask hret l' hl']
  | rx l hl hask hret irqs => exact iff_of_true (fun hx => absurd hx hret) fun _ hx => absurd hx hret

theorem IrqInv.reset (h : IrqInv s) {direction : Int} {irq : Bool} (hst : capStep s (.reset label direction irq) = some t) :
    IrqInv t := by
  cases hst
  rcases reset_cases s.dbl label direction irq with ⟨hnone, hrx⟩ | ⟨l, hl, hne, hfree, htable⟩
  · refine h.same hrx ?_
    rw [hnone]
    rfl
  · intro l' hne'
    simp only [htable, hfree, Option.toList_some, List.flatMap_cons, List.flatMap_nil, opFor_eq hl, List.append_nil,
      List.singleton_append] at hne' ⊢
    by_cases heq : l' = l
    · subst heq
      rw [Function.update_self] at hne'
      exact absurd rfl hne'
    · rw [Function.update_of_ne heq] at hne' ⊢
      exact since_cons (h l' hne') fun hop => heq (IrqOp.freed.inj hop).1.symm

theorem IrqInv.freed (h : IrqInv s) (direction : Int) (irq : Bool) :
    CallBalanced s (.reset label direction irq) t := by
  intro i hi
  rcases reset_cases s.dbl label direction irq with ⟨hnone, -⟩ | ⟨l, hl, hne, hfree, -⟩
  · rw [hnone] at hi
    nomatch hi
  · rw [hfree] at hi
    cases hi
    exact ⟨l, hl, h l hne⟩

end Steps

/-! ## Runs -/

/-- In any order of calls, with requests that succeed or fail: each call is balanced exactly if no request fails for an
interrupt other than that of the entry. -/
theorem balanced_iff (initialized : Bool) (as : List CapAct) :
    Each capStep CallBalanced (.init initialized) as ↔ Each capStep FailsKnown (.init initialized) as := by
  refine each_iff (I := IrqInv) (fun s act t h hst hknown => ?_) (fun s act t h hst => ?_) (IrqInv.init initialized)
  · cases act with
    | populate label capId direction rxIrq irqRet => exact h.populate hst hknown
    | reset label direction irq => exact h.reset hst
  · cases act with
    | populate label capId direction rxIrq irqRet => exact populate_balanced hst
    | reset label direction irq => exact iff_of_true (h.freed direction irq) trivial

/-- The request of interrupt 33 fails: the entry has it all the same, and the teardown frees it. -/
theorem failed_request_freed :
    let x := ghDblPopulateCapInfo (CapRun.init true).dbl 0 7 GH_DBL_DIRECTION_RX 33 (-EBUSY)
    x.2 = -EBUSY ∧ (x.1.table 0).rxIrq = 33 ∧ freedIrq (ghDblResetCapInfo x.1 0 GH_DBL_DIRECTION_RX true) = some 33 ∧
      ¬ Each capStep CallBalanced (.init true) [.populate 0 7 GH_DBL_DIRECTION_RX 33 (-EBUSY), .reset 0 GH_DBL_DIRECTION_RX true] := by
  refine ⟨rfl, rfl, rfl, fun h => ?_⟩
  obtain ⟨l, -, hreq⟩ : ∃ l : Label, l.val = 0 ∧ Requested [] l 33 :=
    ((each_cons.mp ((each_cons.mp h _ rfl).2)) _ rfl).1 33 rfl
  exact since_nil hreq

end GH.Proof.Dbl
