import Gunyah.Proof.IrqLend
import Gunyah.Proof.Rm.Iface
import Gunyah.Spec.IrqApi

/-!
# Lent interrupts, while others run

`gh_irq_lend_v2` makes the label its own before the RM has granted the lend, and leaves it so if that
fails (`lend_free_iff`).

What a function does to the table, up to its request and from the answer on, is `Runs`. Where nothing runs between
the two, the function is that of `GH.Impl.Irq` (`split_whole`). An entry that is not in `NONE` has a handler,
whatever runs at once (`HandlersSet`), which is what the handlers of the notifier chain need (`notified_right`).
-/

namespace GH.Proof.Irq

open GH.Impl GH.Impl.Rm GH.Impl.Irq GH.Spec.Rm GH.Spec.Irq GH.Proof.Rm

/-! ## A lend that fails -/

section Free

variable {t : IrqTable} {l : IrqLabel}

theorem toNat_label (l : IrqLabel) : (BitVec.ofNat 32 l.val).toNat = l.val := by
  have hl : l.val < 5 := l.isLt
  rw [BitVec.toNat_ofNat, Nat.mod_eq_of_lt (by omega)]

theorem withLabel_self (l : IrqLabel) {α : Type} (no : α) (f : IrqLabel → α) : withLabel (BitVec.ofNat 32 l.val) no f = f l := by
  rcases label_cases (BitVec.ofNat 32 l.val) with hn | ⟨l', hl', h⟩
  · have := hn Bool true fun _ => false
    rw [withLabel, dif_pos (by rw [toNat_label]; exact l.isLt)] at this
    nomatch this
  · rw [h]
    exact congrArg f (Fin.ext (hl'.symm.trans (toNat_label l)))

/-- What `gh_rm_vm_irq_lend` returns is 0 where the lend is granted. -/
theorem irqLend_grants (vmid : VmId) (virq label : BitVec 32) (o : Out) (x : Outcome) :
    ((ghRmVmIrqLend vmid virq label o).run x.callRet).1 = 0 ↔ Grants x := by
  cases x with
  | early e he =>
    have hret : (ghRmVmIrqLend vmid virq label o).run (Outcome.early e he).callRet = (e, none) := if_pos (.inr (.inl rfl))
    rw [hret]
    exact iff_of_false (Int.ne_of_lt he) id
  | aborted =>
    have hret : (ghRmVmIrqLend vmid virq label o).run Outcome.aborted.callRet = (-EIO_ERR, none) := rfl
    rw [hret]
    exact iff_of_false (by decide) id
  | refused e he =>
    have hret : (ghRmVmIrqLend vmid virq label o).run (Outcome.refused e he).callRet = (ghRemapError e.toInt, none) :=
      if_pos (.inl he)
    rw [hret]
    exact iff_of_false (fun h => toInt_ne_zero he (ghRemapError_eq_zero h)) id
  | answered payload size =>
    cases payload with
    | none =>
      have hret : (ghRmVmIrqLend vmid virq label o).run (Outcome.answered none size).callRet = (0, none) := rfl
      rw [hret]
      exact iff_of_true rfl (.inl rfl)
    | some p =>
      by_cases hsize : size = 4
      · subst hsize
        exact iff_of_true rfl (.inr rfl)
      · have hret : (ghRmVmIrqLend vmid virq label o).run (Outcome.answered (some p) size).callRet = (-EINVAL, none) :=
          if_pos hsize
        rw [hret]
        exact iff_of_false (by decide) fun hg => hg.elim nofun hsize

/-- The entry that a handler calls for is not in `NONE`. -/
theorem lent_called (getVmName : VmId → Except Int VmName) (cmd : BitVec 32) (p : List Byte) {h : Option Addr} {d : Addr}
    (hc : ((ghIrqLentNbHandler t getVmName cmd).val p).2.2 = some (h, d, l)) : (t l).state ≠ .none := by
  rcases lent_split t p getVmName cmd with ⟨ret, hsame⟩ | ⟨owner, l', -, -, hf, hmoves⟩
  · rw [hsame] at hc
    nomatch hc
  · rw [hmoves] at hc
    cases hc
    rcases findLent_state hf with hst | hst <;> simp [hst]

theorem releasedAccepted_called (cmd : BitVec 32) (p : List Byte) {h : Option Addr} {d : Addr}
    (hc : ((ghIrqReleasedAcceptedNbHandler t cmd).val p).2.2 = some (h, d, l)) : (t l).state ≠ .none := by
  rcases releasedAccepted_split t p cmd with hsame | ⟨l', hh, hmoves⟩
  · rw [hsame] at hc
    nomatch hc
  · rw [hmoves] at hc
    cases hc
    rcases holder_state hh with hst | hst <;> simp [hst]

/-- `gh_irq_lend_v2` for a label in `NONE`, from the lend on. -/
theorem lend_run (hst : (t l).state = .none) (virq : BitVec 32) (vmid : VmId) (cb data : Addr) (o : Out) (r : CallRet) :
    (ghIrqLendV2 t (BitVec.ofNat 32 l.val) (some virq) (.ok vmid) (some cb) data o).run r =
      (let x := (ghRmVmIrqLend vmid virq (BitVec.ofNat 32 l.val) o).run r
      (Function.update t l { t l with
        vmid, v2Handle := some cb, data, state := .waitReleaseOrAccept, virqHandle := x.2.getD (t l).virqHandle }, x.1)) := by
  rw [ghIrqLendV2, withLabel_self, if_neg (by simp)]
  simp only [if_neg (not_not.mpr hst), run_map]

theorem labelFree_iff : LabelFree t l ↔ (t l).state = .none := by
  refine ⟨LabelFree.none, fun hst => ⟨hst, fun virq vmid cb data o h => ?_, fun name cb data => ?_,
    fun getVmName cmd p h d hc => lent_called getVmName cmd p hc hst, fun cmd p h d hc => releasedAccepted_called cmd p hc hst⟩⟩
  · rw [lend_run hst]
    exact (irqLend_grants vmid virq _ o _).mpr (.inr rfl)
  · rw [ghIrqWaitForLendV2, withLabel_self, if_neg (by simp), if_neg (not_not.mpr hst)]

/-- A lend of a free label leaves it free where it fails, unless it gets to the RM and the RM does not grant it. -/
theorem lend_free_iff (t : IrqTable) (l : IrqLabel) (hst : (t l).state = .none) (virq : Option (BitVec 32))
    (vmid : Except Int VmId) (cbHandle : Option Addr) (data : Addr) (o : Out) (x : Outcome) :
    (((ghIrqLendV2 t (BitVec.ofNat 32 l.val) virq vmid cbHandle data o).run x.callRet).2 ≠ 0 →
        LabelFree ((ghIrqLendV2 t (BitVec.ofNat 32 l.val) virq vmid cbHandle data o).run x.callRet).1 l) ↔
      (cbHandle = none ∨ virq = none ∨ (∃ ret, vmid = .error ret) ∨ Grants x) := by
  rw [labelFree_iff]
  cases cbHandle with
  | none =>
    rw [ghIrqLendV2, withLabel_self, if_pos rfl]
    exact iff_of_true (fun _ => hst) (.inl rfl)
  | some cb =>
    cases virq with
    | none =>
      rw [ghIrqLendV2, withLabel_self, if_neg (by simp)]
      exact iff_of_true (fun _ => hst) (.inr (.inl rfl))
    | some virq =>
      cases vmid with
      | error ret =>
        rw [ghIrqLendV2, withLabel_self, if_neg (by simp)]
        simp only [if_neg (not_not.mpr hst)]
        exact iff_of_true (fun _ => hst) (.inr (.inr (.inl ⟨ret, rfl⟩)))
      | ok vmid =>
        rw [lend_run hst]
        simp [irqLend_grants]

/-- The lend of an unknown interrupt fails, and leaves the label free. -/
theorem lend_free_unknown :
    ((ghIrqLendV2 IrqTable.init 0 none (.ok 45) (some 1) 0 ⟨0, 0⟩).run Outcome.aborted.callRet).2 = -EINVAL ∧
      LabelFree ((ghIrqLendV2 IrqTable.init 0 none (.ok 45) (some 1) 0 ⟨0, 0⟩).run Outcome.aborted.callRet).1 0 :=
  ⟨rfl, (lend_free_iff IrqTable.init 0 rfl none (.ok 45) (some 1) 0 ⟨0, 0⟩ .aborted).mpr (.inr (.inl rfl)) (by decide)⟩

/-- A lend that cannot be sent: the label is not free, and a `RELEASED` for handle 0 is delivered for it. -/
theorem failed_lend_stays :
    ((ghIrqLendV2 IrqTable.init 0 (some 40) (.ok 45) (some 1) 0 ⟨0, 0⟩).run
        (Outcome.early (-EAGAIN) (by decide)).callRet).2 = -EAGAIN ∧
      ¬ LabelFree ((ghIrqLendV2 IrqTable.init 0 (some 40) (.ok 45) (some 1) 0 ⟨0, 0⟩).run
        (Outcome.early (-EAGAIN) (by decide)).callRet).1 0 ∧
      ((ghIrqReleasedAcceptedNbHandler ((ghIrqLendV2 IrqTable.init 0 (some 40) (.ok 45) (some 1) 0 ⟨0, 0⟩).run
        (Outcome.early (-EAGAIN) (by decide)).callRet).1 GH_RM_NOTIF_VM_IRQ_RELEASED).val (u32Bytes 0)).2 =
          (NOTIFY_OK, some (some 1, 0, 0)) := by
  refine ⟨rfl, fun h => ?_, by decide⟩
  exact absurd h.none (by decide)

end Free

/-! ## Which entry a notification is for -/

section Matches

variable {t : IrqTable} {p : List Byte}

theorem lentMatches_one {getVmName : VmId → Except Int VmName} {l l' : IrqLabel} (h : LentMatches t getVmName p l)
    (h' : LentMatches t getVmName p l') : l = l' :=
  Fin.ext (h.2.1.trans h'.2.1.symm)

theorem findLent_matches {getVmName : VmId → Except Int VmName} {owner : VmName} (hname : getVmName ((readU16 0).val p) = .ok owner) :
    ∀ l, LentMatches t getVmName p l ↔ (findLent t owner (List.finRange GH_IRQ_LABEL_MAX)).val p = some l := by
  have hm : ∀ l, LentMatches t getVmName p l ↔ ((t l).state = .waitLend ∨ (t l).state = .lent) ∧
      l.val = ((readU32 8).val p).toNat ∧ ((t l).vmName = .max ∨ (t l).vmName = owner) := by
    intro l
    simp [LentMatches, hname]
  intro l
  rw [findLent_val]
  constructor
  · intro h
    cases hf : (List.finRange GH_IRQ_LABEL_MAX).find? fun l => ((t l).state = .waitLend ∨ (t l).state = .lent) ∧
        l.val = ((readU32 8).val p).toNat ∧ ((t l).vmName = .max ∨ (t l).vmName = owner) with
    | none =>
      have := List.find?_eq_none.mp hf l (List.mem_finRange l)
      exact absurd ((hm l).mp h) (by simpa using this)
    | some l' =>
      have h' := (hm l').mpr (by simpa using List.find?_some hf)
      rw [lentMatches_one h h']
  · intro h
    exact (hm l).mpr (by simpa using List.find?_some h)

theorem holder_matches (l : IrqLabel) : HandleMatches t p l ↔ holder t ((readU32 0).val p) = some l := by
  have hholder : holder t ((readU32 0).val p) = (List.finRange GH_IRQ_LABEL_MAX).find? fun l => AwaitsHandle t p l := rfl
  rw [hholder, List.find?_eq_some_iff_getElem, decide_eq_true_eq]
  refine and_congr_right fun _ => ⟨fun h => ⟨l.val, by simp, by simp, fun j hj => ?_⟩, ?_⟩
  · simpa using h ⟨j, Nat.lt_trans hj l.isLt⟩ hj
  · rintro ⟨i, hi, hget, hfirst⟩ l' hl'
    have hi' : i = l.val := by
      rw [← hget]
      simp
    simpa using hfirst l'.val (by rw [hi']; exact hl')

end Matches

/-! ## What the functions do -/

/-- The states in which a function makes its request. -/
def guard : Api → IrqState → Prop
  | .lend .., st => st = .none
  | .reclaim .., st => st = .waitReleaseOrAccept ∨ st = .released
  | .accept .., st => st = .lent
  | .release .., st => st = .accepted

/-- The state that an entry goes to when the RM has answered. -/
def goal : Api → Option IrqState
  | .lend .. => none
  | .reclaim .. => some .none
  | .accept .. => some .accepted
  | .release .. => some .waitLend

/-- The entry of a function when the RM has answered: the handler stays, and unless it is a lend, the handle. -/
structure Ends (api : Api) (l : IrqLabel) (t t' : IrqTable) : Prop where
  others : ∀ l', l' ≠ l → t' l' = t l'
  v2Handle : (t' l).v2Handle = (t l).v2Handle
  state : (t' l).state = (goal api).getD (t l).state
  handle : api.isLend = false → (t' l).virqHandle = (t l).virqHandle

theorem ends_update {api : Api} {l : IrqLabel} {t : IrqTable} {e : IrqEntry} (hv : e.v2Handle = (t l).v2Handle)
    (hst : e.state = (goal api).getD (t l).state) (hh : api.isLend = false → e.virqHandle = (t l).virqHandle) :
    Ends api l t (Function.update t l e) where
  others l' hl := Function.update_of_ne hl _ _
  v2Handle := by rwa [Function.update_self]
  state := by rwa [Function.update_self]
  handle := by rwa [Function.update_self]

/-- A call that waits for the RM is one for the entry of the label, and ends so. -/
structure Waits (api : Api) (cont : CallRet → Except Int (IrqTable → IrqTable × Int)) (l : IrqLabel) : Prop where
  label : api.label.toNat = l.val
  ends : ∀ r next, cont r = .ok next → ∀ t, Ends api l t (next t).1

/-- A function that returns an error, or waits for the RM: a lend makes the entry its own before. Where nothing runs
before the answer, it is `f`. -/
inductive Runs (api : Api) (t : IrqTable) : Api.Split → RmCall (IrqTable × Int) → Prop where
  | refuse (ret : Int) : Runs api t (.refuse t ret) (.ret (t, ret))
  | ask (l : IrqLabel) (e : IrqEntry) (args : CallArgs) (cont : CallRet → Except Int (IrqTable → IrqTable × Int))
      (f : CallRet → IrqTable × Int) (hw : Waits api cont l) (hg : guard api (t l).state)
      (hlend : api.isLend → e.state = .waitReleaseOrAccept ∧ e.v2Handle ≠ none) (hrest : api.isLend = false → e = t l)
      (hf : ∀ r, (Api.Split.whole ⟨Function.update t l e, .call args cont⟩).run r = f r) :
      Runs api t ⟨Function.update t l e, .call args cont⟩ (.call args f)

/-- A function that leaves the entry as it is until the RM has answered. -/
theorem Runs.stay {api : Api} {t : IrqTable} (l : IrqLabel) (args : CallArgs)
    (cont : CallRet → Except Int (IrqTable → IrqTable × Int)) (f : CallRet → IrqTable × Int) (hlend : api.isLend = false)
    (hw : Waits api cont l) (hg : guard api (t l).state)
    (hf : ∀ r, (Api.Split.whole ⟨t, .call args cont⟩).run r = f r) : Runs api t ⟨t, .call args cont⟩ (.call args f) := by
  have h := Runs.ask l (t l) args cont f hw hg (fun h => by rw [hlend] at h; nomatch h) (fun _ => rfl)
  rw [Function.update_eq_self] at h
  exact h hf

theorem next_of_ok {α : Type} {c : Prop} [Decidable c] {ret : Int} {g next : α}
    (h : (if c then Except.error ret else .ok g) = .ok next) : next = g := by
  split_ifs at h
  exact (Except.ok.inj h).symm

section Whole

variable (t : IrqTable) (r : CallRet)

/-- A function that goes on where the call returns 0. -/
theorem whole_zero (call : RmCall Int) (g : IrqTable → IrqTable) :
    (Api.Split.whole ⟨t, call.map fun ret => if ret ≠ 0 then .error ret else .ok fun t => (g t, 0)⟩).run r =
      (call.map fun ret => (if ret = 0 then g t else t, ret)).run r := by
  simp only [Api.Split.whole, run_map]
  by_cases hret : call.run r = 0
  · rw [if_neg (not_not.mpr hret), if_pos hret, hret]
  · rw [if_pos hret, if_neg hret]

/-- A function that goes on unless the call returns an error. -/
theorem whole_neg (call : RmCall Int) (g : IrqTable → IrqTable) (x : Int) :
    (Api.Split.whole ⟨t, call.map fun ret => if ret < 0 then .error ret else .ok fun t => (g t, x)⟩).run r =
      (call.map fun ret => if ret < 0 then (t, ret) else (g t, x)).run r := by
  simp only [Api.Split.whole, run_map]
  split_ifs <;> rfl

/-- A handle comes with a lend that is granted only. -/
theorem irqLend_handle (vmid : VmId) (virq label : BitVec 32) (o : Out)
    (h : ((ghRmVmIrqLend vmid virq label o).run r).1 ≠ 0) : ((ghRmVmIrqLend vmid virq label o).run r).2 = none := by
  simp only [ghRmVmIrqLend, RmCall.run] at h ⊢
  split_ifs at h ⊢ <;> simp_all

/-- The lend stores a handle if there is one. -/
theorem whole_lend (vmid : VmId) (virq label : BitVec 32) (o : Out) (l : IrqLabel) (e : IrqEntry) :
    (Api.Split.whole ⟨Function.update t l e, (ghRmVmIrqLend vmid virq label o).map fun x =>
      if x.1 ≠ 0 then .error x.1
      else .ok fun t => (Function.update t l { t l with virqHandle := x.2.getD (t l).virqHandle }, 0)⟩).run r =
    ((ghRmVmIrqLend vmid virq label o).map fun x =>
      (Function.update t l { e with virqHandle := x.2.getD e.virqHandle }, x.1)).run r := by
  simp only [Api.Split.whole, run_map]
  by_cases hret : ((ghRmVmIrqLend vmid virq label o).run r).1 ≠ 0
  · simp only [if_pos hret, irqLend_handle r vmid virq label o hret, Option.getD_none]
  · rw [if_neg hret]
    simp only [Function.update_self, Function.update_idem, not_not.mp hret]

end Whole

section Split

variable (t : IrqTable) (label : BitVec 32) (o : Out)

theorem lend_runs (virq : Option (BitVec 32)) (vmid : Except Int VmId) (cbHandle : Option Addr) (data : Addr) :
    Runs (.lend label virq vmid cbHandle data o) t (Api.ghIrqLendV2 t label virq vmid cbHandle data o)
      (ghIrqLendV2 t label virq vmid cbHandle data o) := by
  unfold Api.ghIrqLendV2 ghIrqLendV2
  rcases label_cases label with hn | ⟨l, hlab, hl⟩
  · rw [hn, hn]
    exact .refuse _
  rw [hl, hl]
  by_cases hcb : cbHandle = none
  · rw [if_pos hcb, if_pos hcb]
    exact .refuse _
  rw [if_neg hcb, if_neg hcb]
  cases virq with
  | none => exact .refuse _
  | some virq =>
    by_cases hst : (t l).state ≠ .none
    · simp only [if_pos hst]
      exact .refuse _
    simp only [if_neg hst]
    cases vmid with
    | error ret => exact .refuse _
    | ok vmid =>
      refine .ask l _ _ _ _ ⟨hlab, fun r next hr t' => ?_⟩ (not_not.mp hst) (fun _ => ⟨rfl, hcb⟩)
        (fun hno => by cases hno) fun r => ?_
      · obtain rfl := next_of_ok hr
        exact ends_update rfl rfl fun hno => by cases hno
      · exact whole_lend t r vmid virq label o l _

theorem reclaim_runs : Runs (.reclaim label o) t (Api.ghIrqReclaim t label o) (ghIrqReclaim t label o) := by
  unfold Api.ghIrqReclaim ghIrqReclaim
  rcases label_cases label with hn | ⟨l, hlab, hl⟩
  · rw [hn, hn]
    exact .refuse _
  rw [hl, hl]
  by_cases hst : (t l).state ≠ .waitReleaseOrAccept ∧ (t l).state ≠ .released
  · rw [if_pos hst, if_pos hst]
    exact .refuse _
  rw [if_neg hst, if_neg hst]
  have hg : (t l).state = .waitReleaseOrAccept ∨ (t l).state = .released := by
    rwa [not_and_or, not_not, not_not] at hst
  refine .stay l _ _ _ rfl ⟨hlab, fun r next hr t' => ?_⟩ hg fun r => ?_
  · obtain rfl := next_of_ok hr
    exact ends_update rfl rfl fun _ => rfl
  · exact whole_zero t r (ghRmVmIrqReclaim (t l).virqHandle o) (·.setState l .none)

theorem accept_runs (irq : Int) (virq : Option (BitVec 32)) (newIrq : Int) :
    Runs (.accept label irq virq newIrq o) t (Api.ghIrqAccept t label irq virq newIrq o)
      (ghIrqAccept t label irq virq newIrq o) := by
  unfold Api.ghIrqAccept ghIrqAccept
  rcases label_cases label with hn | ⟨l, hlab, hl⟩
  · rw [hn, hn]
    exact .refuse _
  rw [hl, hl]
  by_cases hst : (t l).state ≠ .lent
  · rw [if_pos hst, if_pos hst]
    exact .refuse _
  rw [if_neg hst, if_neg hst]
  by_cases hirq : irq ≠ -1 ∧ virq = none
  · rw [if_pos hirq, if_pos hirq]
    exact .refuse _
  rw [if_neg hirq, if_neg hirq]
  generalize (if irq ≠ -1 then (virq.getD 0).toInt else -1) = n
  by_cases hn : n < -1
  · have hcall : ghRmVmIrqAccept (t l).virqHandle n o = .ret (-EINVAL) := if_pos hn
    simp only [hcall, RmCall.map, show -EINVAL < 0 by decide, if_true]
    exact .refuse _
  obtain ⟨args, k, hcall⟩ : ∃ args k, ghRmVmIrqAccept (t l).virqHandle n o = .call args k := ⟨_, _, if_neg hn⟩
  simp only [hcall]
  refine .stay l _ _ _ rfl ⟨hlab, fun r next hr t' => ?_⟩ (not_not.mp hst) fun r => ?_
  · obtain rfl := next_of_ok hr
    exact ends_update rfl rfl fun _ => rfl
  · exact whole_neg t r (.call args k) (·.setState l .accepted) _

theorem release_runs : Runs (.release label o) t (Api.ghIrqRelease t label o) (ghIrqRelease t label o) := by
  unfold Api.ghIrqRelease ghIrqRelease
  rcases label_cases label with hn | ⟨l, hlab, hl⟩
  · rw [hn, hn]
    exact .refuse _
  rw [hl, hl]
  by_cases hst : (t l).state ≠ .accepted
  · rw [if_pos hst, if_pos hst]
    exact .refuse _
  rw [if_neg hst, if_neg hst]
  refine .stay l _ _ _ rfl ⟨hlab, fun r next hr t' => ?_⟩ (not_not.mp hst) fun r => ?_
  · obtain rfl := next_of_ok hr
    exact ends_update rfl rfl fun _ => rfl
  · exact whole_zero t r (ghRmVmIrqRelease (t l).virqHandle o) (·.setState l .waitLend)

/-- The function where nothing runs before the answer. -/
def alone : Api → RmCall (IrqTable × Int)
  | .lend label virq vmid cbHandle data o => ghIrqLendV2 t label virq vmid cbHandle data o
  | .reclaim label o => ghIrqReclaim t label o
  | .accept label irq virq newIrq o => ghIrqAccept t label irq virq newIrq o
  | .release label o => ghIrqRelease t label o

theorem split_runs (api : Api) : Runs api t (api.split t) (alone t api) := by
  cases api with
  | lend label virq vmid cbHandle data o => exact lend_runs t label o virq vmid cbHandle data
  | reclaim label o => exact reclaim_runs t label o
  | accept label irq virq newIrq o => exact accept_runs t label o irq virq newIrq
  | release label o => exact release_runs t label o

theorem split_whole (api : Api) (r : CallRet) : (api.split t).whole.run r = (alone t api).run r := by
  have hruns := split_runs t api
  generalize api.split t = x at hruns
  generalize alone t api = f at hruns
  cases hruns with
  | refuse ret => rfl
  | ask l e args cont f hw hg hlend hrest hf => exact hf r

end Split

/-! ## Steps -/

section Steps

variable {s : IrqRun}

theorem withLabel_of_toNat {label : BitVec 32} {l : IrqLabel} (h : label.toNat = l.val) {α : Type} (no : α) (f : IrqLabel → α) :
    withLabel label no f = f l := by
  unfold withLabel
  rw [dif_pos (h ▸ l.isLt)]
  exact congrArg f (Fin.ext h)

/-- A call that begins returns an error, or waits for the RM. -/
theorem start_cases (s : IrqRun) (k : Nat) (api : Api) : s.start k api = s ∨
    ∃ (l : IrqLabel) (e : IrqEntry) (cont : CallRet → Except Int (IrqTable → IrqTable × Int)), Waits api cont l ∧
      guard api (s.table l).state ∧ (api.isLend → e.state = .waitReleaseOrAccept ∧ e.v2Handle ≠ none) ∧
      (api.isLend = false → e = s.table l) ∧
      s.start k api =
        { s with
          table := Function.update s.table l e
          pending := Function.update s.pending k (some ⟨api, (s.table l).virqHandle, cont⟩)
          hist := (if api.isLend then [.begins l .lender] else []) ++ s.hist } := by
  have hruns := split_runs s.table api
  unfold IrqRun.start
  generalize api.split s.table = x at hruns
  generalize alone s.table api = f at hruns
  cases hruns with
  | refuse ret => exact .inl rfl
  | ask l e args cont f hw hg hlend hrest =>
    refine .inr ⟨l, e, cont, hw, hg, hlend, hrest, ?_⟩
    simp only [event, withLabel_of_toNat hw.label]

/-- `gh_irq_wait_for_lend_v2` returns an error, or makes the entry wait. -/
theorem waitForLend_cases (s : IrqRun) (label : BitVec 32) (name : VmName) (onLend : Option Addr) (data : Addr) :
    s.waitForLend label name onLend data = s ∨
      ∃ l, (s.table l).state = .none ∧ onLend ≠ none ∧
        s.waitForLend label name onLend data =
          { s with
            table := Function.update s.table l { s.table l with vmName := name, v2Handle := onLend, data, state := .waitLend }
            hist := .begins l .borrower :: s.hist } := by
  unfold IrqRun.waitForLend ghIrqWaitForLendV2
  rcases label_cases label with hn | ⟨l, hlab, hl⟩
  · simp only [hn, event]
    exact .inl rfl
  simp only [hl, event]
  by_cases hcb : onLend = none
  · rw [if_pos hcb]
    exact .inl rfl
  rw [if_neg hcb]
  by_cases hst : (s.table l).state ≠ .none
  · rw [if_pos hst]
    exact .inl rfl
  rw [if_neg hst]
  exact .inr ⟨l, not_not.mp hst, hcb, rfl⟩

/-- `gh_irq_lent_nb_handler` does nothing, or gives an entry that waits for a lend its handle. -/
theorem lent_cases (s : IrqRun) (names : VmTable) (cmd : BitVec 32) (p : List Byte) : s.lent names cmd p = s ∨
    ∃ l e, cmd = GH_RM_NOTIF_VM_IRQ_LENT ∧ l.val = ((readU32 8).val p).toNat ∧
      ((s.table l).state = .waitLend ∨ (s.table l).state = .lent) ∧ e.state = .lent ∧ e.v2Handle = (s.table l).v2Handle ∧
      s.lent names cmd p = { s with table := Function.update s.table l e, hist := .lent l e.virqHandle :: s.hist } := by
  unfold IrqRun.lent
  rcases lent_split s.table p (ghRmGetVmName names) cmd with ⟨ret, hsame⟩ | ⟨owner, l, hcmd, hname, hf, hmoves⟩
  · rw [hsame]
    exact .inl rfl
  · have hm := (findLent_matches hname l).mpr hf
    rw [hmoves]
    refine .inr ⟨l, { s.table l with vmid := (readU16 0).val p, virqHandle := (readU32 4).val p, state := .lent },
      hcmd, hm.2.1, hm.1, rfl, rfl, ?_⟩
    simp only [Function.update_self]

/-- `gh_irq_released_accepted_nb_handler` does nothing, or moves an entry that waits for it. -/
theorem releasedAccepted_cases (s : IrqRun) (cmd : BitVec 32) (p : List Byte) : s.releasedAccepted cmd p = s ∨
    ∃ l st, ((s.table l).state = .waitReleaseOrAccept ∨ (s.table l).state = .accepted) ∧ (st = .released ∨ st = .accepted) ∧
      s.releasedAccepted cmd p = { s with table := s.table.setState l st } := by
  unfold IrqRun.releasedAccepted
  rcases releasedAccepted_split s.table p cmd with hsame | ⟨l, hh, hmoves⟩
  · rw [hsame]
    exact .inl rfl
  · rw [hmoves]
    exact .inr ⟨l, _, holder_state hh, ite_eq_or_eq _ _ _, rfl⟩

end Steps

/-! ## Entries with handlers -/

/-- An entry that is not in `NONE`, or for which a call waits, has a handler. -/
structure HandlersSet (s : IrqRun) : Prop where
  entry : ∀ l, (s.table l).state ≠ .none → (s.table l).v2Handle ≠ none
  pending : ∀ k p, s.pending k = some p → ∃ l, Waits p.api p.cont l ∧ (s.table l).v2Handle ≠ none

theorem of_update_none {α β : Type} [DecidableEq α] {f : α → Option β} {i j : α} {y : β}
    (h : Function.update f i none j = some y) : j ≠ i ∧ f j = some y := by
  rcases of_update h with ⟨-, hn⟩ | hold
  · nomatch hn
  · exact hold

theorem HandlersSet.init : HandlersSet IrqRun.init := ⟨fun _ h => absurd rfl h, nofun⟩

/-- An entry that keeps its handler, or gets one. -/
theorem HandlersSet.update {s : IrqRun} (h : HandlersSet s) {l : IrqLabel} {e : IrqEntry} (he : e.state ≠ .none → e.v2Handle ≠ none)
    (hk : (s.table l).v2Handle ≠ none → e.v2Handle ≠ none) (hist : List IrqEvent) :
    HandlersSet { s with table := Function.update s.table l e, hist } := by
  refine ⟨fun m hm => ?_, fun k p hp => ?_⟩
  · by_cases heq : m = l
    · subst heq
      simp only [Function.update_self] at hm ⊢
      exact he hm
    · simp only [Function.update_of_ne heq] at hm ⊢
      exact h.entry m hm
  · obtain ⟨m, hw, hm⟩ := h.pending k p hp
    refine ⟨m, hw, ?_⟩
    by_cases heq : m = l
    · subst heq
      simpa only [Function.update_self] using hk hm
    · simpa only [Function.update_of_ne heq] using hm

theorem HandlersSet.start {s : IrqRun} (h : HandlersSet s) (k : Nat) (api : Api) : HandlersSet (s.start k api) := by
  rcases start_cases s k api with heq | ⟨l, e, cont, hw, hg, hlend, hrest, heq⟩
  · rwa [heq]
  rw [heq]
  have hset : e.v2Handle ≠ none := by
    cases hl : api.isLend with
    | true => exact (hlend hl).2
    | false =>
      rw [hrest hl]
      refine h.entry l fun hn => ?_
      rw [hn] at hg
      cases api with
      | lend => nomatch hl
      | reclaim => simp [guard] at hg
      | _ => nomatch hg
  have hupd := h.update (l := l) (e := e) (fun _ => hset) (fun _ => hset)
    ((if api.isLend then [.begins l .lender] else []) ++ s.hist)
  refine ⟨hupd.entry, fun k' p hp => ?_⟩
  rcases of_update hp with ⟨-, hnew⟩ | ⟨-, hold⟩
  · cases hnew
    exact ⟨l, hw, by simpa using hset⟩
  · exact hupd.pending k' p hold

theorem HandlersSet.finish {s : IrqRun} (h : HandlersSet s) {k : Nat} {p : Pending} (hp : s.pending k = some p) (x : Outcome) :
    HandlersSet (s.finish k p x) := by
  unfold IrqRun.finish
  split
  · exact ⟨h.entry, fun k' p' hp' => h.pending k' p' (of_update_none hp').2⟩
  · rename_i next hnext
    obtain ⟨l, hw, hset⟩ := h.pending k p hp
    have hends := hw.ends _ _ hnext s.table
    have hkeep : ∀ m, (s.table m).v2Handle ≠ none → ((next s.table).1 m).v2Handle ≠ none := by
      intro m hm
      by_cases heq : m = l
      · subst heq
        rwa [hends.v2Handle]
      · rwa [hends.others m heq]
    refine ⟨fun m hm => ?_, fun k' p' hp' => ?_⟩
    · by_cases heq : m = l
      · exact heq ▸ hkeep l hset
      · have hsame := hends.others m heq
        simp only [hsame] at hm
        exact hkeep m (h.entry m hm)
    · obtain ⟨m, hwm, hm⟩ := h.pending k' p' (of_update_none hp').2
      exact ⟨m, hwm, hkeep m hm⟩

theorem HandlersSet.step {s t : IrqRun} {act : RunAct} (h : HandlersSet s) (hst : runStep s act = some t) : HandlersSet t := by
  cases act with
  | start k api =>
    simp only [runStep] at hst
    split_ifs at hst
    cases hst
    exact h.start k api
  | finish k x =>
    simp only [runStep, Option.map_eq_some_iff] at hst
    obtain ⟨p, hp, rfl⟩ := hst
    exact h.finish hp x
  | waitForLend label name onLend data =>
    cases hst
    rcases waitForLend_cases s label name onLend data with heq | ⟨l, -, hcb, heq⟩
    · rwa [heq]
    · rw [heq]
      exact h.update (fun _ => hcb) (fun _ => hcb) _
  | notif names cmd p =>
    cases hst
    have hlent : HandlersSet (s.lent names cmd p) := by
      rcases lent_cases s names cmd p with heq | ⟨l, e, -, -, hst, he, hv, heq⟩
      · rwa [heq]
      · rw [heq]
        have hset : e.v2Handle ≠ none := by
          rw [hv]
          refine h.entry l fun hn => ?_
          rw [hn] at hst
          simp at hst
        exact h.update (fun _ => hset) (fun _ => hset) _
    rcases releasedAccepted_cases (s.lent names cmd p) cmd p with heq | ⟨l, st, hst, -, heq⟩
    · rwa [heq]
    · rw [heq]
      have hset : ((s.lent names cmd p).table l).v2Handle ≠ none := by
        refine hlent.entry l fun hn => ?_
        rw [hn] at hst
        simp at hst
      exact hlent.update (e := { (s.lent names cmd p).table l with state := st }) (fun _ => hset) (fun _ => hset) _
  | oldLend label cbHandle =>
    cases hst
    exact ⟨h.entry, h.pending⟩
  | _ =>
    cases hst
    exact h

/-! ## What a notification changes -/

/-- A handler that finds no entry. -/
theorem touches_none {t : IrqTable} {M : IrqLabel → Prop} (hM : ∀ l, ¬ M l) {ret : Int} (hret : ret ≠ NOTIFY_OK) :
    Touches t M (t, ret, none) where
  one l _ h := absurd h (hM l)
  frame _ _ := rfl
  ok := iff_of_false hret fun h => h.elim hM
  called l h := absurd h (hM l)
  silent _ := rfl

/-- A handler that finds the one entry that matches. -/
theorem touches_some {t : IrqTable} {M : IrqLabel → Prop} {l : IrqLabel} (hM : ∀ l', M l' ↔ l = l') (e : IrqEntry)
    (hset : (t l).v2Handle ≠ none) :
    Touches t M (Function.update t l e, NOTIFY_OK, some ((t l).v2Handle, (t l).data, l)) where
  one l₁ l₂ h₁ h₂ := ((hM l₁).mp h₁).symm.trans ((hM l₂).mp h₂)
  frame l' hl' := Function.update_of_ne (fun h => hl' ((hM l').mpr h.symm)) _ _
  ok := iff_of_true rfl ⟨l, (hM l).mpr rfl⟩
  called l' hl' := by
    obtain rfl := (hM l').mp hl'
    obtain ⟨cb, hcb⟩ := Option.ne_none_iff_exists'.mp hset
    exact ⟨cb, hcb, by rw [hcb]⟩
  silent h := absurd ⟨l, (hM l).mpr rfl⟩ h

theorem getVmName_error {names : VmTable} {vmid : VmId} {ret : Int} (h : ghRmGetVmName names vmid = .error ret) : ret = -EINVAL := by
  unfold ghRmGetVmName at h
  split at h
  · nomatch h
  · exact (Except.error.inj h).symm

theorem HandlersSet.lent {s : IrqRun} (h : HandlersSet s) (names : VmTable) (p : List Byte) :
    Touches s.table (LentMatches s.table (ghRmGetVmName names) p)
      ((ghIrqLentNbHandler s.table (ghRmGetVmName names) GH_RM_NOTIF_VM_IRQ_LENT).val p) := by
  cases hname : ghRmGetVmName names ((readU16 0).val p) with
  | error ret =>
    rw [lent_unknown s.table p _ hname]
    refine touches_none (fun l hl => ?_) (by rw [getVmName_error hname]; decide)
    obtain ⟨-, -, owner, howner, -⟩ := hl
    rw [hname] at howner
    nomatch howner
  | ok owner =>
    have hmatches := findLent_matches (t := s.table) hname
    cases hf : (findLent s.table owner (List.finRange GH_IRQ_LABEL_MAX)).val p with
    | none =>
      rw [lent_none s.table p _ hname hf]
      refine touches_none (fun l hl => ?_) (by decide)
      rw [hmatches, hf] at hl
      nomatch hl
    | some l =>
      rw [lent_some s.table p _ hname hf]
      refine touches_some (fun l' => ?_) _ (h.entry l ?_)
      · rw [hmatches, hf, Option.some.injEq]
      · rcases findLent_state hf with hst | hst <;> simp [hst]

theorem HandlersSet.handle {s : IrqRun} (h : HandlersSet s) {cmd : BitVec 32}
    (hcmd : cmd = GH_RM_NOTIF_VM_IRQ_RELEASED ∨ cmd = GH_RM_NOTIF_VM_IRQ_ACCEPTED) (p : List Byte) :
    Touches s.table (HandleMatches s.table p) ((ghIrqReleasedAcceptedNbHandler s.table cmd).val p) := by
  cases hh : holder s.table ((readU32 0).val p) with
  | none =>
    rw [releasedAccepted_none s.table p hcmd hh]
    refine touches_none (fun l hl => ?_) (by decide)
    rw [holder_matches, hh] at hl
    nomatch hl
  | some l =>
    rw [releasedAccepted_some s.table p hcmd hh]
    refine touches_some (fun l' => ?_) _ (h.entry l ?_)
    · rw [holder_matches, hh, Option.some.injEq]
    · rcases holder_state hh with hst | hst <;> simp [hst]

/-- However the functions and the notifications run, each notification changes at most the one entry that it is for, and
calls the handler of that entry. -/
theorem notified_right (as : List RunAct) : Always runStep (fun s => NotifiedRight s.table) .init as := by
  intro bs cs s _ hs
  have h : HandlersSet s := inv_exec (fun _ _ _ h hst => h.step hst) HandlersSet.init hs
  refine ⟨h.lent, fun cmd hcmd p => h.handle (by simpa using hcmd) p, fun names p cmd hcmd => ?_, fun p => ?_⟩
  · refine lent_other s.table p _ fun heq => ?_
    subst heq
    exact absurd hcmd (by decide)
  · exact releasedAccepted_other s.table p (by decide)

end GH.Proof.Irq
