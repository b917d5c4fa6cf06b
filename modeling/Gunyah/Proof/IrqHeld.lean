import Gunyah.Proof.IrqApi
import Gunyah.Proof.Rm.MemReq

/-!
# What is released

`WAIT_LEND` stands for an entry that has never been lent and for one that has been released, so what a
`RELEASED` is sent for is a matter of what has happened (`Held`). Where the calls for a label do not run at
once, an entry that has been lent to this VM and is in neither `NONE` nor `LENT` is held (`HeldSince`, `HeldInv.step`); and
`gh_irq_release_notify` sends its handle (`releases_held`).
-/

namespace GH.Proof.Irq

open GH.Impl GH.Impl.Rm GH.Impl.Irq GH.Spec.Rm GH.Spec.Irq GH.Proof.Rm

/-! ## What has happened to an entry -/

/-- The label of the entry that something happens to. -/
def eventLabel : IrqEvent → IrqLabel
  | .begins l _ | .lent l _ | .accepted l _ => l

/-- What has happened lately is nothing to the entry. -/
structure Quiet (l : IrqLabel) (hist hist' : List IrqEvent) : Prop where
  role : roleSince l hist' = roleSince l hist
  lent : lentSince l hist' = lentSince l hist
  held : ∀ h, Held hist l h → Held hist' l h

section Events

variable {l : IrqLabel} {e : IrqEvent} {hist : List IrqEvent}

theorem quiet_cons (he : eventLabel e ≠ l) : Quiet l hist (e :: hist) := by
  cases e with
  | begins l' r => exact ⟨if_neg he, if_neg he, fun _ hh => since_cons hh he⟩
  | lent l' v => exact ⟨rfl, if_neg he, fun _ hh => since_cons hh he⟩
  | accepted l' v => exact ⟨rfl, rfl, fun _ hh => since_cons hh id⟩

theorem quiet_append {es : List IrqEvent} (hes : ∀ e ∈ es, eventLabel e ≠ l) : Quiet l hist (es ++ hist) := by
  induction es with
  | nil => exact ⟨rfl, rfl, fun _ => id⟩
  | cons e es ih =>
    have hold := ih fun e' he' => hes e' (List.mem_cons_of_mem _ he')
    have hnew : Quiet l (es ++ hist) (e :: (es ++ hist)) := quiet_cons (hes e List.mem_cons_self)
    exact ⟨hnew.role.trans hold.role, hnew.lent.trans hold.lent, fun v hv => hnew.held v (hold.held v hv)⟩

end Events

/-! ## The invariant -/

/-- An entry that has been lent to this VM, and does not wait for `gh_irq_accept`, has a handle that is held. -/
def HeldSince (hist : List IrqEvent) (l : IrqLabel) (e : IrqEntry) : Prop :=
  roleSince l hist = some .borrower → lentSince l hist → e.state ≠ .none → e.state ≠ .lent → Held hist l e.virqHandle

/-- What a call that waits for the RM can rely on, of its entry and the role of that. -/
def Underway (role : Option Role) (p : Pending) (e : IrqEntry) : Prop :=
  e.state ≠ .none ∧
    match p.api with
    | .lend .. => role = some .lender
    | .reclaim .. => True
    | .accept .. => role = some .borrower → e.state = .lent ∧ p.handle = e.virqHandle
    | .release .. => e.state = .accepted ∨ e.state = .released

/-- The entry of a label, and the calls for it that wait for the RM. -/
structure LabelInv (s : IrqRun) (l : IrqLabel) : Prop where
  held : HeldSince s.hist l (s.table l)
  underway : ∀ k p, s.pending k = some p → p.api.label.toNat = l.val → Underway (roleSince l s.hist) p (s.table l)

/-- The calls that wait for the RM have entries of their own. -/
structure Calls (pending : Nat → Option Pending) : Prop where
  waits : ∀ k p, pending k = some p → ∃ l, Waits p.api p.cont l
  one : ∀ k p k' p', pending k = some p → pending k' = some p' → p.api.label = p'.api.label → k = k'

/-- Where the calls for a label do not run at once, each entry that has been lent to this VM is held or waits. -/
structure HeldInv (s : IrqRun) : Prop where
  label : ∀ l, LabelInv s l
  calls : Calls s.pending

theorem HeldInv.init : HeldInv IrqRun.init where
  label _ := ⟨nofun, fun _ _ h => (by cases h)⟩
  calls := ⟨fun _ _ h => (by cases h), fun _ _ _ _ h => (by cases h)⟩

/-- What happens to another entry. -/
theorem LabelInv.other {s t : IrqRun} {l : IrqLabel} (h : LabelInv s l) (ht : t.table l = s.table l)
    (hq : Quiet l s.hist t.hist) (hp : ∀ k p, t.pending k = some p → p.api.label.toNat = l.val → s.pending k = some p) :
    LabelInv t l := by
  constructor
  · rw [ht]
    intro hrole hlent hn hl
    exact hq.held _ (h.held (hq.role ▸ hrole) (hq.lent ▸ hlent) hn hl)
  · intro k p hk hl
    rw [ht, hq.role]
    exact h.underway k p (hp k p hk hl) hl

/-- A step changes the entry of one label, and the calls for it. -/
theorem HeldInv.change {s t : IrqRun} (h : HeldInv s) (l : IrqLabel) (ht : ∀ l' ≠ l, t.table l' = s.table l')
    (es : List IrqEvent) (hh : t.hist = es ++ s.hist) (hes : ∀ e ∈ es, eventLabel e = l)
    (hp : ∀ k p, t.pending k = some p → p.api.label.toNat ≠ l.val → s.pending k = some p) (hc : Calls t.pending)
    (hl : LabelInv t l) : HeldInv t where
  label l' := by
    by_cases heq : l' = l
    · exact heq ▸ hl
    · refine (h.label l').other (ht l' heq) ?_ fun k p hk hlab => hp k p hk fun hl' => heq (Fin.ext (hlab.symm.trans hl'))
      rw [hh]
      exact quiet_append fun e he => (hes e he).symm ▸ Ne.symm heq
  calls := hc

/-! ## Calls -/

theorem Calls.start {pending : Nat → Option Pending} (h : Calls pending) (k : Nat) {p : Pending} {l : IrqLabel}
    (hw : Waits p.api p.cont l) (hfree : ∀ k p', pending k = some p' → p'.api.label ≠ p.api.label) :
    Calls (Function.update pending k (some p)) := by
  constructor
  · intro k' p' hp'
    rcases of_update hp' with ⟨-, hnew⟩ | ⟨-, hold⟩
    · cases hnew
      exact ⟨l, hw⟩
    · exact h.waits k' p' hold
  · intro k₁ p₁ k₂ p₂ h₁ h₂ heq
    rcases of_update h₁ with ⟨rfl, hnew₁⟩ | ⟨-, hold₁⟩ <;> rcases of_update h₂ with ⟨rfl, hnew₂⟩ | ⟨-, hold₂⟩
    · rfl
    · cases hnew₁
      exact absurd heq.symm (hfree k₂ p₂ hold₂)
    · cases hnew₂
      exact absurd heq (hfree k₁ p₁ hold₁)
    · exact h.one k₁ p₁ k₂ p₂ hold₁ hold₂ heq

theorem Calls.finish {pending : Nat → Option Pending} (h : Calls pending) (k : Nat) :
    Calls (Function.update pending k none) where
  waits k' p' hp' := h.waits k' p' (of_update_none hp').2
  one k₁ p₁ k₂ p₂ h₁ h₂ := h.one k₁ p₁ k₂ p₂ (of_update_none h₁).2 (of_update_none h₂).2

/-- A call that is not a lend begins in one of its states, and knows the handle. -/
theorem underway_rest {api : Api} (hl : api.isLend = false) {e : IrqEntry} (hg : guard api e.state) (role : Option Role)
    (cont : CallRet → Except Int (IrqTable → IrqTable × Int)) : Underway role ⟨api, e.virqHandle, cont⟩ e := by
  cases api with
  | lend => cases hl
  | reclaim =>
    refine ⟨fun hn => ?_, trivial⟩
    rcases hg with hst | hst
    · cases hst.symm.trans hn
    · cases hst.symm.trans hn
  | accept => exact ⟨fun hn => (by cases hg.symm.trans hn), fun _ => ⟨hg, rfl⟩⟩
  | release => exact ⟨fun hn => (by cases hg.symm.trans hn), .inl hg⟩

theorem HeldInv.start {s : IrqRun} (h : HeldInv s) (k : Nat) (api : Api)
    (hfree : ∀ k p, s.pending k = some p → p.api.label ≠ api.label) : HeldInv (s.start k api) := by
  rcases start_cases s k api with heq | ⟨l, e, cont, hw, hg, hlend, hrest, heq⟩
  · rwa [heq]
  rw [heq]
  -- No other call for the label waits, so what is underway for it is the new one.
  have honly : ∀ k' p, Function.update s.pending k (some ⟨api, (s.table l).virqHandle, cont⟩) k' = some p →
      p.api.label.toNat = l.val → p = ⟨api, (s.table l).virqHandle, cont⟩ := by
    intro k' p hp hlab
    rcases of_update hp with ⟨-, hnew⟩ | ⟨-, hold⟩
    · exact (Option.some.inj hnew).symm
    · exact absurd (BitVec.eq_of_toNat_eq (hlab.trans hw.label.symm)) (hfree k' p hold)
  refine h.change l (fun l' hl' => Function.update_of_ne hl' _ _) _ rfl (fun ev hev => ?_) (fun k' p' hp' hl' => ?_)
    (h.calls.start k (p := ⟨api, (s.table l).virqHandle, cont⟩) hw hfree) ?_
  · cases hl : api.isLend with
    | true =>
      rw [hl] at hev
      rw [List.mem_singleton.mp hev]
      rfl
    | false =>
      rw [hl] at hev
      cases hev
  · rcases of_update hp' with ⟨-, hnew⟩ | ⟨-, hold⟩
    · cases hnew
      exact absurd hw.label hl'
    · exact hold
  · cases hl : api.isLend with
    | true =>
      have hrole : roleSince l (.begins l .lender :: s.hist) = some .lender := if_pos rfl
      refine ⟨fun hb => (by cases hrole.symm.trans hb), fun k' p hp hlab => ?_⟩
      rw [honly k' p hp hlab]
      simp only [Function.update_self]
      cases api with
      | lend => exact ⟨by rw [(hlend hl).1]; nofun, hrole⟩
      | _ => cases hl
    | false =>
      cases hrest hl
      simp only [Function.update_eq_self]
      refine ⟨(h.label l).held, fun k' p hp hlab => ?_⟩
      rw [honly k' p hp hlab]
      exact underway_rest hl hg _ cont

/-- What a call leaves in its entry: the handle is held if the interrupt has been accepted now, or had been before it
is released. -/
theorem heldSince_finish {hist : List IrqEvent} {p : Pending} {l : IrqLabel} {t t' : IrqTable} (hw : Waits p.api p.cont l)
    (hcall : Underway (roleSince l hist) p (t l)) (hheld : HeldSince hist l (t l)) (hends : Ends p.api l t t') :
    HeldSince ((if p.api.isAccept then event p.api.label (.accepted · p.handle) else []) ++ hist) l (t' l) := by
  rw [event, withLabel_of_toNat hw.label]
  cases p with
  | mk api handle cont =>
  cases api with
  | lend => exact fun hb => (by cases hcall.2.symm.trans hb)
  | reclaim => exact fun _ _ hn => absurd hends.state hn
  | accept =>
    intro hb _ _ _
    rw [hends.handle rfl, ← (hcall.2 hb).2]
    exact since_new
  | release =>
    intro hb hlent _ _
    rw [hends.handle rfl]
    refine hheld hb hlent hcall.1 fun hl => ?_
    rcases hcall.2 with hst | hst
    · cases hst.symm.trans hl
    · cases hst.symm.trans hl

theorem HeldInv.finish {s : IrqRun} (h : HeldInv s) {k : Nat} {p : Pending} (hp : s.pending k = some p) (x : Outcome) :
    HeldInv (s.finish k p x) := by
  obtain ⟨l, hw⟩ := h.calls.waits k p hp
  -- The call was the only one for its label.
  have hnone : ∀ k' p', Function.update s.pending k none k' = some p' → p'.api.label.toNat ≠ l.val := by
    intro k' p' hp' hlab
    obtain ⟨hne, hold⟩ := of_update_none hp'
    exact hne (h.calls.one k' p' k p hold hp (BitVec.eq_of_toNat_eq (hlab.trans hw.label.symm)))
  have hrest : ∀ k' p', Function.update s.pending k none k' = some p' → p'.api.label.toNat ≠ l.val → s.pending k' = some p' :=
    fun k' p' hp' _ => (of_update_none hp').2
  have hcall := (h.label l).underway k p hp hw.label
  unfold IrqRun.finish
  split
  · refine h.change l (fun _ _ => rfl) [] rfl nofun hrest (h.calls.finish k) ⟨(h.label l).held, fun k' p' hp' hlab => ?_⟩
    exact absurd hlab (hnone k' p' hp')
  · rename_i next hnext
    have hends := hw.ends _ _ hnext s.table
    refine h.change l hends.others _ rfl (fun ev hev => ?_) hrest (h.calls.finish k) ⟨?_, fun k' p' hp' hlab => ?_⟩
    · rw [event, withLabel_of_toNat hw.label] at hev
      split_ifs at hev
      · rw [List.mem_singleton.mp hev]
        rfl
      · cases hev
    · exact heldSince_finish hw hcall (h.label l).held hends
    · exact absurd hlab (hnone k' p' hp')

/-! ## Waiting, and notifications -/

theorem HeldInv.waitForLend {s : IrqRun} (h : HeldInv s) (label : BitVec 32) (name : VmName) (onLend : Option Addr) (data : Addr) :
    HeldInv (s.waitForLend label name onLend data) := by
  rcases waitForLend_cases s label name onLend data with heq | ⟨l, hst, -, heq⟩
  · rwa [heq]
  rw [heq]
  refine h.change l (fun l' hl' => Function.update_of_ne hl' _ _) [.begins l .borrower] rfl (fun ev hev => ?_)
    (fun _ _ hk _ => hk) h.calls ⟨fun _ hlent => ?_, fun k p hk hlab => ?_⟩
  · rw [List.mem_singleton.mp hev]
    rfl
  · have hnot : lentSince l (.begins l .borrower :: s.hist) = false := if_pos rfl
    cases hnot.symm.trans hlent
  · exact absurd hst ((h.label l).underway k p hk hlab).1

theorem HeldInv.lent {s : IrqRun} (h : HeldInv s) (names : VmTable) (cmd : BitVec 32) (payload : List Byte)
    (hno : cmd = GH_RM_NOTIF_VM_IRQ_LENT → ∀ k p, s.pending k = some p → p.api.isAccept → p.api.label ≠ (readU32 8).val payload) :
    HeldInv (s.lent names cmd payload) := by
  rcases lent_cases s names cmd payload with heq | ⟨l, e, hcmd, hlabel, hst, he, -, heq⟩
  · rwa [heq]
  rw [heq]
  refine h.change l (fun l' hl' => Function.update_of_ne hl' _ _) [.lent l e.virqHandle] rfl (fun ev hev => ?_)
    (fun _ _ hk _ => hk) h.calls ⟨fun _ _ _ hl => ?_, fun k p hk hlab => ?_⟩
  · rw [List.mem_singleton.mp hev]
    rfl
  · simp only [Function.update_self] at hl
    exact absurd he hl
  · have hcall := (h.label l).underway k p hk hlab
    have haccept := hno hcmd k p hk
    simp only [Function.update_self]
    cases p with
    | mk api handle cont =>
    cases api with
    | lend => exact ⟨by rw [he]; nofun, hcall.2⟩
    | reclaim => exact ⟨by rw [he]; nofun, trivial⟩
    | accept => exact absurd (BitVec.eq_of_toNat_eq (hlab.trans hlabel)) (haccept rfl)
    | release =>
      -- The entry is in `ACCEPTED` or `RELEASED` while the call waits, where no `LENT` matches it.
      refine absurd hst fun hst => ?_
      rcases hst with hst | hst <;> rcases hcall.2 with hst' | hst' <;> cases hst.symm.trans hst'

theorem HeldInv.releasedAccepted {s : IrqRun} (h : HeldInv s) (cmd : BitVec 32) (payload : List Byte) :
    HeldInv (s.releasedAccepted cmd payload) := by
  rcases releasedAccepted_cases s cmd payload with heq | ⟨l, st, hst, hst', heq⟩
  · rwa [heq]
  rw [heq]
  have hnew : st ≠ .none := by
    rintro rfl
    simp at hst'
  refine h.change l (fun l' hl' => Function.update_of_ne hl' _ _) [] rfl nofun (fun _ _ hk _ => hk) h.calls
    ⟨fun hb hlent _ _ => ?_, fun k p hk hlab => ?_⟩
  · simp only [IrqTable.setState, Function.update_self]
    refine (h.label l).held hb hlent (fun hn => ?_) fun hl => ?_
    · rcases hst with hst | hst <;> cases hst.symm.trans hn
    · rcases hst with hst | hst <;> cases hst.symm.trans hl
  · have hcall := (h.label l).underway k p hk hlab
    simp only [IrqTable.setState, Function.update_self]
    cases p with
    | mk api handle cont =>
    cases api with
    | lend => exact ⟨hnew, hcall.2⟩
    | reclaim => exact ⟨hnew, trivial⟩
    | accept =>
      refine ⟨hnew, fun hb => ?_⟩
      have hlent := (hcall.2 hb).1
      rcases hst with hst | hst <;> cases hst.symm.trans hlent
    | release => exact ⟨hnew, hst'.symm⟩

theorem HeldInv.step {s t : IrqRun} {act : RunAct} (h : HeldInv s) (hst : runStep s act = some t) (hu : UsedRight s act t) :
    HeldInv t := by
  cases act with
  | start k api =>
    simp only [runStep] at hst
    split_ifs at hst
    cases hst
    exact h.start k api hu
  | finish k x =>
    simp only [runStep, Option.map_eq_some_iff] at hst
    obtain ⟨p, hp, rfl⟩ := hst
    exact h.finish hp x
  | waitForLend label name onLend data =>
    cases hst
    exact h.waitForLend label name onLend data
  | notif names cmd p =>
    cases hst
    exact (h.lent names cmd p hu).releasedAccepted cmd p
  | oldLend label cbHandle =>
    cases hst
    exact ⟨fun l => ⟨(h.label l).held, (h.label l).underway⟩, h.calls⟩
  | _ =>
    cases hst
    exact h

/-! ## Runs -/

/-- A handle is told by its bytes. -/
theorem u32Bytes_inj {x y : BitVec 32} (h : u32Bytes x = u32Bytes y) : x = y := by
  simp only [u32Bytes, List.cons.injEq, and_true] at h
  obtain ⟨h0, h1, h2, h3⟩ := h
  rw [← u32_join x, ← u32_join y, h0, h1, h2, h3]

theorem releasedRequest_inj {h h' : VirqHandle} (heq : releasedRequest h = releasedRequest h') : h = h' := by
  simp only [releasedRequest, CallArgs.mk.injEq, Option.some.injEq, true_and, and_true] at heq
  exact u32Bytes_inj (List.append_cancel_right heq)

/-- `gh_rm_vm_irq_notify` for `RELEASED` sends the one request, if there is memory for it. -/
theorem irqNotify_released (v : VirqHandle) (alloc : Bool) (o : Out) (r : Nat → CallRet) :
    ((ghRmVmIrqNotify [] Api.GH_VM_IRQ_NOTIFY_FLAGS_RELEASED v alloc o).run r).1 = if alloc then [releasedRequest v] else [] := by
  cases alloc <;> rfl

/-- `gh_irq_release_notify` sends the handle of the entry, in two of its states. -/
theorem releaseNotify_sends {t : IrqTable} {label : BitVec 32} {alloc : Bool} {o : Out} {r : Nat → CallRet} {v : VirqHandle}
    (hsent : releasedRequest v ∈ ((Api.ghIrqReleaseNotify t label alloc o).run r).1) :
    ∃ l : IrqLabel, label.toNat = l.val ∧ ((t l).state = .accepted ∨ (t l).state = .waitLend) ∧ v = (t l).virqHandle := by
  unfold Api.ghIrqReleaseNotify Api.notifyIn at hsent
  rcases label_cases label with hn | ⟨l, hlab, hl⟩
  · rw [hn] at hsent
    cases hsent
  rw [hl] at hsent
  by_cases hst : (t l).state = .accepted ∨ (t l).state = .waitLend
  · rw [if_pos (decide_eq_true hst), irqNotify_released] at hsent
    cases alloc with
    | true => exact ⟨l, hlab, hst, releasedRequest_inj (List.mem_singleton.mp hsent)⟩
    | false => cases hsent
  · rw [if_neg (by simpa using hst)] at hsent
    cases hsent

/-- In every run where the calls for a label do not run at once, and `gh_irq_release_notify` is called for what has been
lent to this VM, a `RELEASED` is sent for handles only that are held. -/
theorem releases_held (as : List RunAct) (hu : Each runStep UsedRight .init as) : Each runStep ReleasesHeld .init as := by
  refine each_of_inv (fun s act t h hst hu => h.step hst hu) (fun s act t h hst hu => ?_) HeldInv.init hu
  cases act with
  | releaseNotify label alloc o x =>
    intro v hsent
    obtain ⟨l, hlab, hst, rfl⟩ := releaseNotify_sends hsent
    rw [withLabel_of_toNat hlab]
    simp only [UsedRight, withLabel_of_toNat hlab] at hu
    obtain ⟨hb, hlent⟩ := hu hst
    refine (h.label l).held hb hlent (fun hn => ?_) fun hl => ?_
    · rcases hst with hst | hst <;> cases hst.symm.trans hn
    · rcases hst with hst | hst <;> cases hst.symm.trans hl
  | _ => trivial

/-- An interrupt that is waited for, lent and accepted: its handle is held when `RELEASED` is sent. -/
def borrowRun : List RunAct :=
  [.waitForLend 0 .max (some 1) 0, .notif (fun _ => { vmid := 45 }) GH_RM_NOTIF_VM_IRQ_LENT [45, 0, 0, 0, 7, 0, 0, 0, 0, 0, 0, 0],
    .start 0 (.accept 0 (-1) none 40 ⟨0, 0⟩), .finish 0 (.answered (some (u32Bytes 9)) 4),
    .releaseNotify 0 true ⟨0, 0⟩ .aborted]

theorem releases_held_borrowed : (exec runStep .init borrowRun).isSome ∧ Each runStep UsedRight .init borrowRun ∧
    Each runStep ReleasesHeld .init borrowRun := by
  have hu : Each runStep UsedRight .init borrowRun := by
    refine each_cons.mpr fun s₁ h₁ => ⟨trivial, each_cons.mpr fun s₂ h₂ => ⟨fun _ k p hp => ?_, each_cons.mpr fun s₃ h₃ =>
      ⟨fun k p hp => ?_, each_cons.mpr fun s₄ h₄ => ⟨trivial, each_cons.mpr fun s₅ h₅ => ⟨fun _ => ?_, each_nil _ _⟩⟩⟩⟩⟩
    · cases h₁
      cases hp
    · cases h₁
      cases h₂
      cases hp
    · cases h₁
      cases h₂
      cases h₃
      cases h₄
      exact ⟨rfl, rfl⟩
  exact ⟨rfl, hu, releases_held borrowRun hu⟩

/-- An interrupt that is waited for only, and has never been lent: `RELEASED` is sent for handle 0. -/
theorem released_never_held :
    ¬ Each runStep ReleasesHeld .init [.waitForLend 0 .max (some 1) 0, .releaseNotify 0 true ⟨0, 0⟩ .aborted] := by
  intro h
  have hheld := ((each_cons.mp ((each_cons.mp h _ rfl).2)) _ rfl).1 0 (List.mem_singleton.mpr rfl)
  rcases since_cons_iff.mp hheld with heq | ⟨-, hnil⟩
  · cases heq
  · exact since_nil hnil

end GH.Proof.Irq
