import Mathlib.Tactic.Common
import Gunyah.Spec.IrqLend
import Gunyah.Framework.Run

/-!
# The roles of lent interrupts

The lender and the borrower of an interrupt share the state `ACCEPTED`, and
two steps do not ask for the role: `gh_irq_release` releases an interrupt that
this VM has lent, and a `RELEASED` notification makes a borrowed interrupt one
that can be reclaimed. The roles stay apart exactly in the runs without such
steps (`roles_apart_iff`).

What each function does to the table is a `Move`: nothing, or one entry goes
from one state to another.
-/

namespace GH.Proof.Irq

open GH.Impl GH.Impl.Rm GH.Impl.Irq GH.Spec.Rm GH.Spec.Irq

/-- The states that an entry with a role can be in. -/
def statesOf : Option Role → List IrqState
  | none => [.none]
  | some .lender => [.waitReleaseOrAccept, .accepted, .released]
  | some .borrower => [.waitLend, .lent, .accepted]

theorem none_iff_of_mem {r : Option Role} {st : IrqState} (h : st ∈ statesOf r) : st = .none ↔ r = none := by
  revert h
  rcases r with _ | _ | _ <;> cases st <;> decide

/-- The requests that an entry with a role does not make. -/
def notOf : Option Role → List (BitVec 32)
  | none => []
  | some .lender => [GH_RM_RPC_MSG_ID_CALL_VM_IRQ_RELEASE, GH_RM_RPC_MSG_ID_CALL_VM_IRQ_ACCEPT]
  | some .borrower => [GH_RM_RPC_MSG_ID_CALL_VM_IRQ_RECLAIM]

/-- An entry is in a state of its role, and requests are those of the role they were made in. -/
structure RolesInv (s : IrqSys) : Prop where
  state : ∀ l, (s.table l).state ∈ statesOf (s.role l)
  reqs : ∀ q ∈ s.reqs, q.2 ∉ notOf q.1

theorem RolesInv.init : RolesInv IrqSys.init := ⟨fun _ => List.mem_singleton_self _, by simp [IrqSys.init]⟩

variable {s : IrqSys}

theorem RolesInv.apart (h : RolesInv s) : RolesApart s where
  lender l hl := by
    have := h.state l
    rwa [hl] at this
  borrower l hl := by
    have := h.state l
    rwa [hl] at this
  lenderReqs q hq hr := by
    have := h.reqs q hq
    rw [hr] at this
    simpa [notOf] using this
  borrowerReqs q hq hr := by
    have := h.reqs q hq
    rw [hr] at this
    simpa [notOf] using this

/-! ## Moves of one entry -/

/-- The table after a function: as it was, or with one entry in another state. -/
inductive Move (t : IrqTable) (P : IrqState → IrqState → IrqLabel → Prop) : IrqTable → Prop where
  | same : Move t P t
  | goes (l : IrqLabel) (e : IrqEntry) (h : P (t l).state e.state l) : Move t P (Function.update t l e)

section

variable {t : IrqTable} {P : IrqState → IrqState → IrqLabel → Prop} {c : Prop} [Decidable c]

theorem Move.ite (l : IrqLabel) (st : IrqState) (h : P (t l).state st l) :
    Move t P (if c then t.setState l st else t) := by
  by_cases hc : c
  · rw [if_pos hc]
    exact .goes l _ h
  · rw [if_neg hc]
    exact .same

theorem Move.ite_fst (l : IrqLabel) (st : IrqState) (h : P (t l).state st l) {a b : Int} :
    Move t P (if c then (t, a) else (t.setState l st, b)).1 := by
  by_cases hc : c
  · rw [if_pos hc]
    exact .same
  · rw [if_neg hc]
    exact .goes l _ h

end

theorem next_same (h : RolesInv s) (r : Option Role) : s.next s.table r = s := by
  have hrole : (s.next s.table r).role = s.role := by
    funext l
    by_cases hl : (s.table l).state = .none
    · exact (if_pos hl).trans ((none_iff_of_mem (h.state l)).mp hl).symm
    · exact (if_neg hl).trans (if_neg hl)
  exact congrArg (IrqSys.mk s.table · s.reqs) hrole

theorem RolesInv.same (h : RolesInv s) (r : Option Role) : RolesInv (s.next s.table r) := by
  rw [next_same h]
  exact h

/-- The role of the entry that moves; the others keep theirs. -/
theorem next_role (h : RolesInv s) (l : IrqLabel) (e : IrqEntry) (r : Option Role) :
    (s.next (Function.update s.table l e) r).role =
      Function.update s.role l
        (if e.state = .none then none else if (s.table l).state = .none then r else s.role l) := by
  funext m
  by_cases hm : m = l
  · subst hm
    simp [IrqSys.next]
  · rw [Function.update_of_ne hm, ← congrFun (congrArg IrqSys.role (next_same h r)) m]
    simp [IrqSys.next, Function.update_of_ne hm]

/-- A move to a state that fits the role. -/
theorem RolesInv.move (h : RolesInv s) {t : IrqTable} {r : Option Role} {P : IrqState → IrqState → IrqLabel → Prop}
    (hm : Move s.table P t)
    (hP : ∀ l st st', P st st' l → st ∈ statesOf (s.role l) →
      st' ∈ statesOf (if st' = .none then none else if st = .none then r else s.role l)) :
    RolesInv (s.next t r) := by
  cases hm with
  | same => exact h.same r
  | goes l e hl =>
    refine ⟨fun m => ?_, h.reqs⟩
    rw [next_role h]
    by_cases hm : m = l
    · subst hm
      simp only [IrqSys.next, Function.update_self]
      exact hP m _ _ hl (h.state m)
    · simp only [IrqSys.next, Function.update_of_ne hm]
      exact h.state m

theorem RolesInv.req (h : RolesInv s) {q : Option Role × BitVec 32} (hq : q.2 ∉ notOf q.1) :
    RolesInv { s with reqs := s.reqs ++ [q] } := by
  refine ⟨h.state, fun q' hq' => ?_⟩
  rcases List.mem_append.mp hq' with hq' | hq'
  · exact h.reqs q' hq'
  · rw [List.mem_singleton.mp hq']
    exact hq

/-! ## What the functions do -/

/-- A label has no entry, or one. -/
theorem label_cases (label : BitVec 32) : (∀ (α : Type) (no : α) f, withLabel label no f = no) ∨
    ∃ l : IrqLabel, label.toNat = l.val ∧ ∀ (α : Type) (no : α) f, withLabel label no f = f l := by
  by_cases h : label.toNat < GH_IRQ_LABEL_MAX
  · exact .inr ⟨⟨label.toNat, h⟩, rfl, fun α no f => dif_pos h⟩
  · exact .inl fun α no f => dif_neg h

/-- A function that refuses to do anything, or makes the request `m` for an entry
in one of the states `G`, which can then go to the state `goal`. -/
inductive Asks (t : IrqTable) (label : BitVec 32) (m : BitVec 32) (G : IrqState → Prop) (goal : IrqState) :
    RmCall (IrqTable × Int) → Prop where
  | refuse (ret : Int) : Asks t label m G goal (.ret (t, ret))
  | ask (l : IrqLabel) (args : CallArgs) (cont : CallRet → IrqTable × Int)
      (hl : ∀ (α : Type) (no : α) f, withLabel label no f = f l) (hm : args.messageId = m) (hg : G (t l).state)
      (hP : ∀ r, Move t (fun st st' l' => l' = l ∧ st = (t l).state ∧ st' = goal) (cont r).1) :
      Asks t label m G goal (.call args cont)

/-- A label that is out of range is refused. -/
theorem Asks.withLabel {t : IrqTable} {label m : BitVec 32} {G : IrqState → Prop} {goal : IrqState} {ret : Int}
    {f : IrqLabel → RmCall (IrqTable × Int)}
    (h : ∀ l, (∀ (α : Type) (no : α) g, withLabel label no g = g l) → Asks t label m G goal (f l)) :
    Asks t label m G goal (withLabel label (.ret (t, ret)) f) := by
  rcases label_cases label with hn | ⟨l, -, hl⟩
  · rw [hn]
    exact .refuse _
  · rw [hl]
    exact h l hl

section

variable (t : IrqTable) (label : BitVec 32) (o : Out)

theorem lend_asks (virq : Option (BitVec 32)) (vmid : Except Int VmId) (cbHandle : Option Addr) (data : Addr) :
    Asks t label GH_RM_RPC_MSG_ID_CALL_VM_IRQ_LEND (· = .none) .waitReleaseOrAccept
      (ghIrqLendV2 t label virq vmid cbHandle data o) := by
  unfold ghIrqLendV2
  refine .withLabel fun l hl => ?_
  by_cases hcb : cbHandle = none
  · rw [if_pos hcb]
    exact .refuse _
  rw [if_neg hcb]
  cases virq with
  | none => exact .refuse _
  | some virq =>
    by_cases hst : (t l).state ≠ .none
    · simp only [if_pos hst]
      exact .refuse _
    simp only [if_neg hst]
    cases vmid with
    | error ret => exact .refuse _
    | ok vmid => exact .ask l _ _ hl rfl (not_not.mp hst) fun r => .goes l _ ⟨rfl, rfl, rfl⟩

theorem reclaim_asks :
    Asks t label GH_RM_RPC_MSG_ID_CALL_VM_IRQ_RECLAIM (fun st => st = .waitReleaseOrAccept ∨ st = .released) .none
      (ghIrqReclaim t label o) := by
  unfold ghIrqReclaim
  refine .withLabel fun l hl => ?_
  by_cases hst : (t l).state ≠ .waitReleaseOrAccept ∧ (t l).state ≠ .released
  · rw [if_pos hst]
    exact .refuse _
  rw [if_neg hst]
  have hg : (t l).state = .waitReleaseOrAccept ∨ (t l).state = .released := by
    rwa [not_and_or, not_not, not_not] at hst
  exact .ask l _ _ hl rfl hg fun r => Move.ite l .none ⟨rfl, rfl, rfl⟩

theorem accept_asks (irq : Int) (virq : Option (BitVec 32)) (newIrq : Int) :
    Asks t label GH_RM_RPC_MSG_ID_CALL_VM_IRQ_ACCEPT (· = .lent) .accepted
      (ghIrqAccept t label irq virq newIrq o) := by
  unfold ghIrqAccept
  refine .withLabel fun l hl => ?_
  by_cases hst : (t l).state ≠ .lent
  · rw [if_pos hst]
    exact .refuse _
  rw [if_neg hst]
  by_cases hirq : irq ≠ -1 ∧ virq = none
  · rw [if_pos hirq]
    exact .refuse _
  rw [if_neg hirq]
  generalize (if irq ≠ -1 then (virq.getD 0).toInt else -1) = n
  unfold ghRmVmIrqAccept
  by_cases hn : n < -1
  · simp only [if_pos hn, RmCall.map, show -EINVAL < 0 by decide, if_true]
    exact .refuse _
  simp only [if_neg hn, RmCall.map]
  exact .ask l _ _ hl rfl (not_not.mp hst) fun r => Move.ite_fst l .accepted ⟨rfl, rfl, rfl⟩

theorem release_asks :
    Asks t label GH_RM_RPC_MSG_ID_CALL_VM_IRQ_RELEASE (· = .accepted) .waitLend (ghIrqRelease t label o) := by
  unfold ghIrqRelease
  refine .withLabel fun l hl => ?_
  by_cases hst : (t l).state ≠ .accepted
  · rw [if_pos hst]
    exact .refuse _
  rw [if_neg hst]
  exact .ask l _ _ hl rfl (not_not.mp hst) fun r => Move.ite l .waitLend ⟨rfl, rfl, rfl⟩

theorem waitForLend_move (name : VmName) (onLend : Option Addr) (data : Addr) :
    Move t (fun st st' _ => st = .none ∧ st' = .waitLend) (ghIrqWaitForLendV2 t label name onLend data).1 := by
  unfold ghIrqWaitForLendV2
  rcases label_cases label with hn | ⟨l, -, hl⟩
  · rw [hn]
    exact .same
  rw [hl]
  by_cases hcb : onLend = none
  · rw [if_pos hcb]
    exact .same
  rw [if_neg hcb]
  by_cases hst : (t l).state ≠ .none
  · rw [if_pos hst]
    exact .same
  rw [if_neg hst]
  exact .goes l _ ⟨not_not.mp hst, rfl⟩

end

/-! ## What the handlers do -/

section Handlers

variable (t : IrqTable) (p : List Byte)

theorem findReleasedAccepted_val (ls : List IrqLabel) :
    (findReleasedAccepted t ls).val p = ls.find? fun l =>
      ((t l).state = .waitReleaseOrAccept ∨ (t l).state = .accepted) ∧ (readU32 0).val p = (t l).virqHandle := by
  induction ls with
  | nil => rfl
  | cons l ls ih =>
    rw [findReleasedAccepted]
    by_cases hst : (t l).state ≠ .waitReleaseOrAccept ∧ (t l).state ≠ .accepted
    · rw [if_pos hst, ih, List.find?_cons_of_neg]
      simpa using fun h => absurd h (by simpa using hst)
    · have hst' : (t l).state = .waitReleaseOrAccept ∨ (t l).state = .accepted := by
        rwa [not_and_or, not_not, not_not] at hst
      rw [if_neg hst, ReadM.val_bind]
      by_cases hh : (readU32 0).val p = (t l).virqHandle
      · rw [if_pos hh, ReadM.val_pure, List.find?_cons_of_pos (by simpa using ⟨hst', hh⟩)]
      · rw [if_neg hh, ih, List.find?_cons_of_neg (by simp [hh])]

theorem findLent_val (owner : VmName) (ls : List IrqLabel) :
    (findLent t owner ls).val p = ls.find? fun l => ((t l).state = .waitLend ∨ (t l).state = .lent) ∧
      l.val = ((readU32 8).val p).toNat ∧ ((t l).vmName = .max ∨ (t l).vmName = owner) := by
  induction ls with
  | nil => rfl
  | cons l ls ih =>
    rw [findLent]
    by_cases hst : (t l).state ≠ .waitLend ∧ (t l).state ≠ .lent
    · rw [if_pos hst, ih, List.find?_cons_of_neg]
      simpa using fun h => absurd h (by simpa using hst)
    · have hst' : (t l).state = .waitLend ∨ (t l).state = .lent := by
        rwa [not_and_or, not_not, not_not] at hst
      rw [if_neg hst, ReadM.val_bind]
      by_cases hh : l.val = ((readU32 8).val p).toNat ∧ ((t l).vmName = .max ∨ (t l).vmName = owner)
      · rw [if_pos hh, ReadM.val_pure, List.find?_cons_of_pos (by simpa using ⟨hst', hh⟩)]
      · rw [if_neg hh, ih, List.find?_cons_of_neg (by simpa using fun _ => by simpa using hh)]

/-- The entry that the handler finds is in a state in which the loop looks for
it. -/
theorem findLent_state {t : IrqTable} {owner : VmName} {p : List Byte} {ls : List IrqLabel} {l : IrqLabel}
    (h : (findLent t owner ls).val p = some l) : (t l).state = .waitLend ∨ (t l).state = .lent := by
  rw [findLent_val] at h
  have hfound := List.find?_some h
  simp only [decide_eq_true_eq] at hfound
  exact hfound.1

section Lent

variable (getVmName : VmId → Except Int VmName)

theorem lent_unknown {ret : Int} (h : getVmName ((readU16 0).val p) = .error ret) :
    (ghIrqLentNbHandler t getVmName GH_RM_NOTIF_VM_IRQ_LENT).val p = (t, ret, none) := by
  rw [ghIrqLentNbHandler, if_neg (not_not.mpr rfl), ReadM.val_bind, h]
  rfl

variable {owner : VmName} (h : getVmName ((readU16 0).val p) = .ok owner)
include h

theorem lent_none (hf : (findLent t owner (List.finRange GH_IRQ_LABEL_MAX)).val p = none) :
    (ghIrqLentNbHandler t getVmName GH_RM_NOTIF_VM_IRQ_LENT).val p = (t, NOTIFY_DONE, none) := by
  rw [ghIrqLentNbHandler, if_neg (not_not.mpr rfl), ReadM.val_bind, h]
  rw [ReadM.val_bind, hf]
  rfl

theorem lent_some {l : IrqLabel} (hf : (findLent t owner (List.finRange GH_IRQ_LABEL_MAX)).val p = some l) :
    (ghIrqLentNbHandler t getVmName GH_RM_NOTIF_VM_IRQ_LENT).val p =
      (Function.update t l { t l with vmid := (readU16 0).val p, virqHandle := (readU32 4).val p, state := .lent },
        NOTIFY_OK, some ((t l).v2Handle, (t l).data, l)) := by
  rw [ghIrqLentNbHandler, if_neg (not_not.mpr rfl), ReadM.val_bind, h]
  rw [ReadM.val_bind, hf]
  rfl

end Lent

section Handle

variable {cmd : BitVec 32} (hcmd : cmd = GH_RM_NOTIF_VM_IRQ_RELEASED ∨ cmd = GH_RM_NOTIF_VM_IRQ_ACCEPTED)
include hcmd

theorem releasedAccepted_none (h : holder t ((readU32 0).val p) = none) :
    (ghIrqReleasedAcceptedNbHandler t cmd).val p = (t, NOTIFY_DONE, none) := by
  rw [ghIrqReleasedAcceptedNbHandler, if_neg fun hn => hcmd.elim hn.1 hn.2, ReadM.val_bind]
  rw [(findReleasedAccepted_val t p _).trans h]
  rfl

theorem releasedAccepted_some {l : IrqLabel} (h : holder t ((readU32 0).val p) = some l) :
    (ghIrqReleasedAcceptedNbHandler t cmd).val p =
      (t.setState l (if cmd = GH_RM_NOTIF_VM_IRQ_RELEASED then .released else .accepted), NOTIFY_OK,
        some ((t l).v2Handle, (t l).data, l)) := by
  rw [ghIrqReleasedAcceptedNbHandler, if_neg fun hn => hcmd.elim hn.1 hn.2, ReadM.val_bind]
  rw [(findReleasedAccepted_val t p _).trans h]
  rfl

end Handle

theorem lent_other (getVmName : VmId → Except Int VmName) {cmd : BitVec 32} (hcmd : cmd ≠ GH_RM_NOTIF_VM_IRQ_LENT) :
    (ghIrqLentNbHandler t getVmName cmd).val p = (t, NOTIFY_DONE, none) := by
  rw [ghIrqLentNbHandler, if_pos hcmd]
  rfl

theorem releasedAccepted_other {cmd : BitVec 32} (hcmd : ¬ (cmd = GH_RM_NOTIF_VM_IRQ_RELEASED ∨ cmd = GH_RM_NOTIF_VM_IRQ_ACCEPTED)) :
    (ghIrqReleasedAcceptedNbHandler t cmd).val p = (t, NOTIFY_DONE, none) := by
  rw [ghIrqReleasedAcceptedNbHandler, if_pos (not_or.mp hcmd)]
  rfl

/-- The handler does nothing, or finds an entry that waits for the notification. -/
theorem releasedAccepted_split (t : IrqTable) (p : List Byte) (cmd : BitVec 32) :
    (ghIrqReleasedAcceptedNbHandler t cmd).val p = (t, NOTIFY_DONE, none) ∨
      ∃ l, holder t ((readU32 0).val p) = some l ∧ (ghIrqReleasedAcceptedNbHandler t cmd).val p =
        (t.setState l (if cmd = GH_RM_NOTIF_VM_IRQ_RELEASED then .released else .accepted), NOTIFY_OK,
          some ((t l).v2Handle, (t l).data, l)) := by
  by_cases hcmd : cmd = GH_RM_NOTIF_VM_IRQ_RELEASED ∨ cmd = GH_RM_NOTIF_VM_IRQ_ACCEPTED
  · cases hh : holder t ((readU32 0).val p) with
    | none => exact .inl (releasedAccepted_none t p hcmd hh)
    | some l => exact .inr ⟨l, rfl, releasedAccepted_some t p hcmd hh⟩
  · exact .inl (releasedAccepted_other t p hcmd)

/-- The handler does nothing, or finds an entry that waits for the lend. -/
theorem lent_split (t : IrqTable) (p : List Byte) (getVmName : VmId → Except Int VmName) (cmd : BitVec 32) :
    (∃ ret, (ghIrqLentNbHandler t getVmName cmd).val p = (t, ret, none)) ∨
      ∃ owner l, cmd = GH_RM_NOTIF_VM_IRQ_LENT ∧ getVmName ((readU16 0).val p) = .ok owner ∧
        (findLent t owner (List.finRange GH_IRQ_LABEL_MAX)).val p = some l ∧
        (ghIrqLentNbHandler t getVmName cmd).val p =
          (Function.update t l { t l with vmid := (readU16 0).val p, virqHandle := (readU32 4).val p, state := .lent },
            NOTIFY_OK, some ((t l).v2Handle, (t l).data, l)) := by
  by_cases hcmd : cmd = GH_RM_NOTIF_VM_IRQ_LENT
  · subst hcmd
    cases hname : getVmName ((readU16 0).val p) with
    | error ret => exact .inl ⟨ret, lent_unknown t p getVmName hname⟩
    | ok owner =>
      cases hf : (findLent t owner (List.finRange GH_IRQ_LABEL_MAX)).val p with
      | none => exact .inl ⟨_, lent_none t p getVmName hname hf⟩
      | some l => exact .inr ⟨owner, l, rfl, rfl, hf, lent_some t p getVmName hname hf⟩
  · exact .inl ⟨_, lent_other t p getVmName hcmd⟩

theorem lent_move (getVmName : VmId → Except Int VmName) (cmd : BitVec 32) :
    Move t (fun st st' _ => (st = .waitLend ∨ st = .lent) ∧ st' = .lent)
      ((ghIrqLentNbHandler t getVmName cmd).val p).1 := by
  rcases lent_split t p getVmName cmd with ⟨ret, hsame⟩ | ⟨owner, l, -, -, hf, hmoves⟩
  · rw [hsame]
    exact .same
  · rw [hmoves]
    exact .goes l _ ⟨findLent_state hf, rfl⟩

end Handlers

/-! ## Steps -/

/-- A function that keeps to the role: the request is one of the role, and so is
the state that the entry goes to. -/
theorem RolesInv.asks {label m : BitVec 32} {G : IrqState → Prop} {goal : IrqState} {f : RmCall (IrqTable × Int)}
    {r : Option Role} (h : RolesInv s) (x : Outcome) (hf : Asks s.table label m G goal f)
    (hgoal : ∀ l, (∀ (α : Type) (no : α) g, withLabel label no g = g l) → G (s.table l).state →
      m ∉ notOf (s.role l) ∧
        goal ∈ statesOf (if goal = .none then none else if (s.table l).state = .none then r else s.role l)) :
    RolesInv (s.request label f x r) := by
  cases hf with
  | refuse ret => exact h.same r
  | ask l args cont hl hm hg hP =>
    obtain ⟨hreq, hto⟩ := hgoal l hl hg
    refine RolesInv.req (h.move (hP x.callRet) fun l' st st' hst _ => ?_) ?_
    · obtain ⟨rfl, rfl, rfl⟩ := hst
      exact hto
    · rw [hl, hm]
      exact hreq

/-- `ghIrqLentNbHandler` has nothing to do with `RELEASED`. -/
theorem next_lent_released (h : RolesInv s) {cmd : BitVec 32} (hr : cmd = GH_RM_NOTIF_VM_IRQ_RELEASED)
    (getVmName : VmId → Except Int VmName) (p : List Byte) :
    s.next ((ghIrqLentNbHandler s.table getVmName cmd).val p).1 none = s := by
  rw [ghIrqLentNbHandler, if_pos (by rw [hr]; decide)]
  exact next_same h none

theorem holder_state {t : IrqTable} {v : VirqHandle} {l : IrqLabel} (h : holder t v = some l) :
    (t l).state = .waitReleaseOrAccept ∨ (t l).state = .accepted := by
  have := List.find?_some h
  simp only [decide_eq_true_eq] at this
  exact this.1

theorem RolesInv.lent (h : RolesInv s) (getVmName : VmId → Except Int VmName) (cmd : BitVec 32) (p : List Byte) :
    RolesInv (s.next ((ghIrqLentNbHandler s.table getVmName cmd).val p).1 none) := by
  refine h.move (lent_move s.table p getVmName cmd) fun l st st' hst hmem => ?_
  obtain ⟨hst, rfl⟩ := hst
  revert hst hmem
  rcases s.role l with _ | _ | _ <;> cases st <;> decide

theorem RolesInv.releasedAccepted (h : RolesInv s) (cmd : BitVec 32) (p : List Byte)
    (hc : cmd = GH_RM_NOTIF_VM_IRQ_RELEASED → ∀ l ∈ holder s.table ((readU32 0).val p), s.role l ≠ some .borrower) :
    RolesInv (s.next ((ghIrqReleasedAcceptedNbHandler s.table cmd).val p).1 none) := by
  rcases releasedAccepted_split s.table p cmd with hsame | ⟨l, hh, hmoves⟩
  · rw [hsame]
    exact h.same none
  · rw [hmoves]
    refine h.move (P := fun st st' l' => l' = l ∧ (st = .waitReleaseOrAccept ∨ st = .accepted) ∧
      st' = if cmd = GH_RM_NOTIF_VM_IRQ_RELEASED then .released else .accepted)
      (.goes l _ ⟨rfl, holder_state hh, rfl⟩) fun l' st st' hst hmem => ?_
    obtain ⟨rfl, hst, rfl⟩ := hst
    by_cases hr : cmd = GH_RM_NOTIF_VM_IRQ_RELEASED
    · have hb := hc hr l' hh
      rw [if_pos hr]
      revert hst hmem hb
      rcases s.role l' with _ | _ | _ <;> cases st <;> decide
    · rw [if_neg hr]
      revert hst hmem
      rcases s.role l' with _ | _ | _ <;> cases st <;> decide

/-- A step keeps the roles apart, if it fits them. -/
theorem RolesInv.step {t : IrqSys} {act : IrqAct} (h : RolesInv s) (hst : irqStep s act = some t)
    (hc : RoleFits s act t) : RolesInv t := by
  cases act with
  | lend label virq vmid cbHandle data o x =>
    cases hst
    refine h.asks x (lend_asks s.table label o virq vmid cbHandle data) fun l _ hg => ?_
    rw [hg, (none_iff_of_mem (h.state l)).mp hg]
    decide
  | reclaim label o x =>
    cases hst
    refine h.asks x (reclaim_asks s.table label o) fun l _ hg => ?_
    have hmem := h.state l
    revert hg hmem
    generalize (s.table l).state = st
    rcases s.role l with _ | _ | _ <;> cases st <;> decide
  | waitForLend label name onLend data =>
    cases hst
    refine h.move (waitForLend_move s.table label name onLend data) fun l st st' hst _ => ?_
    obtain ⟨rfl, rfl⟩ := hst
    rw [if_neg (by decide), if_pos rfl]
    decide
  | accept label irq virq newIrq o x =>
    cases hst
    refine h.asks x (accept_asks s.table label o irq virq newIrq) fun l _ hg => ?_
    have hmem := h.state l
    rw [hg] at hmem ⊢
    revert hmem
    rcases s.role l with _ | _ | _ <;> decide
  | release label o x =>
    cases hst
    refine h.asks x (release_asks s.table label o) fun l hl hg => ?_
    have hmem := h.state l
    rw [RoleFits, hl] at hc
    rw [hg] at hmem hc ⊢
    revert hmem hc
    rcases s.role l with _ | _ | _ <;> decide
  | notif getVmName cmd p =>
    cases hst
    refine (h.lent getVmName cmd p).releasedAccepted cmd p fun hr => ?_
    rw [next_lent_released h hr]
    exact hc hr

/-- A step that does not fit the roles mixes them. -/
theorem RolesInv.apart_iff {t : IrqSys} {act : IrqAct} (h : RolesInv s) (hst : irqStep s act = some t) :
    RolesApart t ↔ RoleFits s act t := by
  refine ⟨fun hap => ?_, fun hc => (h.step hst hc).apart⟩
  cases act with
  | release label o x =>
    cases hst
    rw [RoleFits]
    rcases label_cases label with hn | ⟨l, -, hl⟩
    · rw [hn]
      trivial
    · rw [hl]
      rintro ⟨hacc, hlend⟩
      -- the request is made for an entry of the lender
      cases hf : ghIrqRelease s.table label o with
      | ret p => simp [ghIrqRelease, hl, hacc, ghRmVmIrqRelease, irqHandleCall, RmCall.map] at hf
      | call args cont =>
        have hm : args.messageId = GH_RM_RPC_MSG_ID_CALL_VM_IRQ_RELEASE := by
          have := release_asks s.table label o
          rw [hf] at this
          cases this with
          | ask _ _ _ _ hm => exact hm
        rw [hf] at hap
        refine (hap.lenderReqs (some .lender, args.messageId) ?_ rfl).1 hm
        simp [IrqSys.request, hl, hlend]
  | notif getVmName cmd p =>
    cases hst
    intro hr l hh hb
    rw [next_lent_released h hr, releasedAccepted_some s.table p (.inl hr) (Option.mem_def.mp hh)] at hap
    have hne : (s.table l).state ≠ .none := by
      rcases holder_state hh with e | e <;> · rw [e]; decide
    have hrole : (s.next (s.table.setState l .released) none).role l = some .borrower := by
      rw [IrqTable.setState, next_role h, Function.update_self, if_neg (show IrqState.released ≠ .none by decide),
        if_neg hne, hb]
    simp only [if_pos hr] at hap
    have := hap.borrower l hrole
    simp [IrqSys.next, IrqTable.setState] at this
  | _ => trivial

/-- The roles of lent interrupts stay apart in a run exactly when all its steps fit
them. -/
theorem roles_apart_iff (as : List IrqAct) :
    Always irqStep RolesApart .init as ↔ Each irqStep RoleFits .init as :=
  always_iff (I := RolesInv) (fun _ _ _ h hst hc => h.step hst hc) (fun _ _ _ h hst => h.apart_iff hst)
    RolesInv.init RolesInv.init.apart

/-- This VM lends an interrupt, hears that the other VM has accepted it, and
releases it itself. -/
def releasedByLender : List IrqAct :=
  [.lend 0 (some 40) (.ok 45) (some 1) 0 ⟨0, 0⟩ (.answered (some (u32Bytes 7)) 4),
    .notif (fun _ => .error (-EINVAL)) GH_RM_NOTIF_VM_IRQ_ACCEPTED (u32Bytes 7),
    .release 0 ⟨0, 0⟩ (.answered none 0)]

theorem lender_releases : ¬ Always irqStep RolesApart .init releasedByLender := by
  intro h
  obtain ⟨t, ht⟩ : ∃ t, exec irqStep .init releasedByLender = some t := ⟨_, rfl⟩
  have hap := h releasedByLender [] t (List.append_nil _).symm ht
  cases ht
  exact (hap.lenderReqs (some .lender, GH_RM_RPC_MSG_ID_CALL_VM_IRQ_RELEASE) (by decide) rfl).1 rfl

end GH.Proof.Irq
