import Gunyah.Framework.Run
import Gunyah.Proof.HypRes.Unpopulate

/-!
# What is populated is undone

While a VM is populated, what was recorded for it stays as it was left
(`Live`): the other VMs change the cells that their lists name and their slots
(`Live.frame`), and nothing is recorded that no VM names (`HypResInv`). So
unpopulating it, which empties its cells and frees its slot, undoes what
populating it did (`Live.restored`).
-/

namespace GH.Proof.HypRes

open GH.Impl GH.Impl.Rm GH.Impl.Msgq GH.Impl.Dbl GH.Impl.Proxy GH.Spec.Rm

variable {s t : Tables} {v w : VmId} {i : Slot} {p : Populated} {P Q : List ResEntry}

/-! ## Cells and what they record -/

theorem noCap_of_empty (h : TablesInv s) {n : Name} (hn : cell s n = empty) : NoCap s n := by
  cases n with
  | msgq label d =>
    rintro a e he rfl
    have hcell : entryCell e d = empty := (h.msgq.queue_eq he).symm.trans hn
    exact congrArg Prod.fst hcell
  | dbl label d =>
    intro l hl
    have hlt : label.toNat < GH_DBL_LABEL_MAX := hl ▸ l.isLt
    rw [cell_dbl hlt, show (⟨label.toNat, hlt⟩ : Label) = l from Fin.ext hl.symm] at hn
    cases d <;> exact congrArg Prod.fst hn

/-- The interrupts of a queue are those of its two directions. -/
theorem queueIrqs_perm (h : TablesInv s) (label : Int) :
    (queueIrqs s label).Perm ((cell s (.msgq label .tx)).2 ++ (cell s (.msgq label .rx)).2) := by
  simp only [cell]
  cases hf : s.msgq.find label with
  | none => simp only [queueIrqs, queue, hf, Option.elim_none, Option.bind_none, empty, List.append_nil, List.Perm.refl]
  | some a =>
    obtain ⟨e, he, rfl⟩ := entries_of_label (h.msgq.find_iff.mp hf)
    simp only [queueIrqs, hf, Option.elim_some, h.msgq.queue_eq he]
    exact h.msgq.irqs a e he

/-- The interrupts of a doorbell are those of what is received from it. -/
theorem dblIrqs_eq (s : Tables) (l : Label) : s.dbl.irqs l = (cell s (.dbl (BitVec.ofNat 32 l) .rx)).2 := by
  have hl : (BitVec.ofNat 32 l.val).toNat = l.val := by
    rw [BitVec.toNat_ofNat]
    exact Nat.mod_eq_of_lt (l.isLt.trans (by decide))
  have hlt : (BitVec.ofNat 32 l.val).toNat < GH_DBL_LABEL_MAX := hl.trans_lt l.isLt
  rw [cell_dbl hlt, show (⟨(BitVec.ofNat 32 l.val).toNat, hlt⟩ : Label) = l from Fin.ext hl, dblCell]

/-! ## A VM that is populated -/

/-- What a VM holds: the entries `P` of its list, and its slot if it is complete. -/
structure Holds (s : Tables) (v : VmId) (p : Populated) (P Q : List ResEntry) : Prop where
  list : p.res = P ++ Q
  distinct : P.Pairwise Distinct
  recorded : ∀ e ∈ P, ∀ n, name e = some n → Recorded s n
  unused : ∀ e ∈ Q, ∀ n, name e = some n → (∀ e' ∈ P, name e' ≠ some n) → cell s n = empty
  slot : ((∀ j, (s.sched.vms j).id ≠ v) ∧ p.after.sched = p.before.sched ∧ ∀ e ∈ P, Passes s.callbacks False e) ∨
    ∃ i, s.callbacks.vcpuAffinitySet = true ∧ Q = [] ∧ (∀ e ∈ P, e.resType ≠ .unknown) ∧
      Free (p.before.sched.vms i) ∧ Moves p.before.sched i (s.sched.vms i) p.after.sched ∧ Left v P (s.sched.vms i)

/-- A VM that is populated: what it named was unused before, and is as it was left. -/
structure Live (s : Tables) (v : VmId) (p : Populated) : Prop where
  valid : v ≠ GH_VMID_INVAL
  before : TablesInv p.before
  after : TablesInv p.after
  cells : ∀ n, (∀ e ∈ p.res, name e ≠ some n) → cell p.after n = cell p.before n
  unused : ∀ e ∈ p.res, ∀ n, name e = some n → cell p.before n = empty
  kept : ∀ e ∈ p.res, ∀ n, name e = some n → cell s n = cell p.after n
  holds : ∃ P Q, Holds s v p P Q

/-- Others change neither the cells nor the slot of a VM. -/
theorem Live.frame (h : Live s v p) (hcells : ∀ e ∈ p.res, ∀ n, name e = some n → cell t n = cell s n)
    (hcb : t.callbacks = s.callbacks)
    (hslot : ∀ j, (s.sched.vms j).id = v ∨ (t.sched.vms j).id = v → t.sched.vms j = s.sched.vms j) : Live t v p := by
  obtain ⟨P, Q, hlist, hdist, hrec, hunused, hs⟩ := h.holds
  have hP : ∀ e ∈ P, e ∈ p.res := fun e he => hlist ▸ List.mem_append_left Q he
  have hQ : ∀ e ∈ Q, e ∈ p.res := fun e he => hlist ▸ List.mem_append_right P he
  refine ⟨h.valid, h.before, h.after, h.cells, h.unused, fun e he n hn => (hcells e he n hn).trans (h.kept e he n hn),
    P, Q, hlist, hdist, fun e he n hn => (hrec e he n hn).congr (hcells e (hP e he) n hn),
    fun e he n hn hno' => (hcells e (hQ e he) n hn).trans (hunused e he n hn hno'), ?_⟩
  rw [hcb]
  refine hs.imp (fun ⟨h₁, h₂, h₃⟩ => ⟨fun j hj => h₁ j (hslot j (.inr hj) ▸ hj), h₂, h₃⟩) ?_
  rintro ⟨i, h₁, h₂, h₃, h₄, h₅, h₆⟩
  have hi := hslot i (.inl h₆.proxied.1)
  exact ⟨i, h₁, h₂, h₃, h₄, hi ▸ h₅, hi ▸ h₆⟩

/-- A slot that is free or the VM's own. -/
def Own (v : VmId) (vm : ProxyVm) : Prop := vm.id = v ∨ Free vm

/-- Only slots that are free or the VM's own are changed. -/
structure OwnSlots (v : VmId) (s t : Sched) : Prop where
  ledger : Ledger s → Ledger t
  initDone : t.initDone = s.initDone
  slots : ∀ j, t.vms j = s.vms j ∨ Own v (s.vms j) ∧ Own v (t.vms j)

theorem OwnSlots.refl (v : VmId) (s : Sched) : OwnSlots v s s := ⟨id, rfl, fun _ => .inl rfl⟩

theorem OwnSlots.of_moves {s t : Sched} {vm : ProxyVm} (hm : Moves s i vm t) (hi : Own v (s.vms i)) (hvm : Own v vm) :
    OwnSlots v s t where
  ledger := hm.ledger
  initDone := hm.initDone
  slots := by
    intro j
    by_cases hj : j = i
    · subst hj
      rw [hm.self]
      exact .inr ⟨hi, hvm⟩
    · rw [hm.vms, Function.update_of_ne hj]
      exact .inl rfl

/-- The slot of another VM is kept. -/
theorem OwnSlots.other {s t : Sched} (h : OwnSlots w s t) (hvw : v ≠ w) (hv : v ≠ GH_VMID_INVAL) (j : Slot) :
    ((s.vms j).id = v ∨ (t.vms j).id = v) → t.vms j = s.vms j := by
  have hno : ∀ {vm : ProxyVm}, Own w vm → vm.id ≠ v := by
    rintro vm (rfl | hfree) hid
    · exact hvw hid.symm
    · exact hv (hid.symm.trans hfree.id)
  rintro hj
  refine (h.slots j).resolve_right fun hown => ?_
  exact hj.elim (hno hown.1) (hno hown.2)

/-- Unpopulating a VM empties its cells and frees its slot: this undoes what populating
it did. -/
theorem Live.restored (h : Live s v p) (hs : TablesInv s) (hw : Wipes p.res s t) (hslot : ∀ i, (t.sched.vms i).id ≠ v)
    (htally : total p.before.sched + total s.sched = total p.after.sched + total t.sched) : Restored v p s t := by
  have hundone : GH.Cells.Undone (cell p.before) (cell p.after) (cell s) (cell t) :=
    GH.Cells.undone (N := fun n => ∃ e ∈ p.res, name e = some n) (fun n hn => h.cells n fun e he hne => hn ⟨e, he, hne⟩)
      (fun n hn => hw.cells n fun e he hne => hn ⟨e, he, hne⟩) (fun n ⟨e, he, hne⟩ => h.kept e he n hne)
      fun n ⟨e, he, hne⟩ => (hw.cleared e he n hne).trans (h.unused e he n hne).symm
  have hirqs := hundone.add fun _ c => (c.2 : Multiset Int)
  refine ⟨fun e he n hn => noCap_of_empty hw.inv (hw.cleared e he n hn), hslot, fun l => ?_, hw.inv.msgq.gone, fun l => ?_,
    ?_, congrArg (·.2.1) htally, congrArg (·.2.2) htally⟩
  · have hqueue : ∀ {u : Tables}, TablesInv u →
        (queueIrqs u l : Multiset Int) = (cell u (.msgq l .tx)).2 + (cell u (.msgq l .rx)).2 := fun hu => by
      rw [Multiset.coe_add, Multiset.coe_eq_coe]
      exact queueIrqs_perm hu l
    rw [← Multiset.coe_eq_coe, ← Multiset.coe_add, ← Multiset.coe_add, hqueue h.before, hqueue hs, hqueue h.after,
      hqueue hw.inv, add_add_add_comm, hirqs (.msgq l .tx), hirqs (.msgq l .rx), add_add_add_comm]
  · rw [← Multiset.coe_eq_coe, ← Multiset.coe_add, ← Multiset.coe_add]
    simp only [dblIrqs_eq]
    exact hirqs (.dbl (BitVec.ofNat 32 l) .rx)
  · rw [← Multiset.coe_eq_coe, ← Multiset.coe_add, ← Multiset.coe_add]
    exact congrArg (·.1) htally

/-! ## The invariant -/

/-- What any sequence of the functions keeps: what is recorded is named by the list of one VM that is populated, and the
scheduler's counts are the sums over its VMs. -/
structure HypResInv (s : HypRes) : Prop where
  inv : TablesInv s.tables
  ledger : Ledger s.tables.sched
  initDone : s.tables.sched.initDone = true
  full : NoneFull s.tables.sched
  together : Together s.tables.callbacks
  live : ∀ v p, s.vms v = some p → Live s.tables v p
  /-- What is recorded is named by the list of a VM, and by no other. -/
  owned : ∀ n, cell s.tables n ≠ empty → ∃ v p, s.vms v = some p ∧ ∃ e ∈ p.res, name e = some n
  apart : ∀ v w p q, v ≠ w → s.vms v = some p → s.vms w = some q → ∀ e ∈ p.res, ∀ e' ∈ q.res, ∀ n,
    name e = some n → name e' ≠ some n
  slots : ∀ j, Free (s.tables.sched.vms j) ∨ (s.vms (s.tables.sched.vms j).id).isSome
  unique : ∀ j k, (s.tables.sched.vms j).id = (s.tables.sched.vms k).id →
    (s.tables.sched.vms j).id ≠ GH_VMID_INVAL → j = k

theorem HypResInv.init (proxy virtio : Bool) : HypResInv (.init proxy virtio) where
  inv := ⟨.init, rfl, fun _ => .inl ⟨rfl, rfl⟩⟩
  ledger := by
    refine (Finset.sum_eq_zero fun i _ => ?_).symm
    rfl
  initDone := rfl
  full := fun _ => Nat.zero_le _
  together := ⟨proxy, virtio, rfl⟩
  live := fun _ _ h => by cases h
  owned := by
    intro n hn
    refine absurd ?_ hn
    cases n with
    | msgq label d => rfl
    | dbl label d =>
      simp only [cell]
      split
      · cases d <;> rfl
      · rfl
  apart := fun _ _ _ _ _ h => by cases h
  slots := fun _ => .inl ⟨rfl, rfl, rfl, rfl⟩
  unique := fun _ _ _ h => absurd rfl h

variable {h h' : HypRes} {res : List (ResEntry × EntryAnswers)}

section

variable (hinv : HypResInv h)
include hinv

/-- A slot with the id of no VM that is populated is free. -/
theorem HypResInv.free {j : Slot} (hj : ∀ p, h.vms (h.tables.sched.vms j).id ≠ some p) :
    Free (h.tables.sched.vms j) := by
  refine (hinv.slots j).resolve_right fun hsome => ?_
  obtain ⟨p, hp⟩ := Option.isSome_iff_exists.mp hsome
  exact hj p hp

theorem HypResInv.free_of_id {j : Slot} (hj : (h.tables.sched.vms j).id = GH_VMID_INVAL) : Free (h.tables.sched.vms j) :=
  hinv.free fun p hp => (hinv.live _ p hp).valid hj

/-- A VM that is not populated has no slot. -/
theorem HypResInv.no_slot (hv : v ≠ GH_VMID_INVAL) (hnew : h.vms v = none) (j : Slot) : (h.tables.sched.vms j).id ≠ v := by
  rintro rfl
  exact hv (hinv.free fun p hp => by rw [hnew] at hp; cases hp).id

/-- What a list names that no other names is not in use. -/
theorem HypResInv.unused (hown : OwnNames h res) {x : ResEntry × EntryAnswers} (hx : x ∈ res) {n : Name}
    (hn : name x.1 = some n) : cell h.tables n = empty := by
  by_contra hne
  obtain ⟨w, p, hp, e, he, hname⟩ := hinv.owned n hne
  exact hown w p hp e he x hx n hname hn

/-- The list of a VM fits where it is populated. -/
theorem HypResInv.fits (hown : OwnNames h res) (hfrees : FreesNone h res) (hirq : ∀ x ∈ res, HasIrq x) :
    ∀ x ∈ res, Fits h.tables x := by
  refine fun x hx => ⟨fun n hn _ => hinv.unused hown hx hn, hirq x hx, fun hf d => ?_⟩
  by_contra hne
  obtain ⟨w, p, hp, e, he, hname⟩ := hinv.owned _ hne
  obtain ⟨hm, hl⟩ := isMsgq_of_name hname
  exact hfrees w p hp e he x hx hm hf (BitVec.eq_of_toInt_eq hl)

/-- A VM is populated: no cell but those that it names is changed, and at most its slot. -/
theorem HypResInv.populated (hv : v ≠ GH_VMID_INVAL) (hnew : h.vms v = none) (hself : h'.vms v = some p)
    (hother : ∀ w, w ≠ v → h'.vms w = h.vms w)
    (hown : ∀ w q, h.vms w = some q → ∀ e ∈ q.res, ∀ e' ∈ p.res, ∀ n, name e = some n → name e' ≠ some n)
    (ht : TablesInv h'.tables) (hcells : ∀ n, (∀ e ∈ p.res, name e ≠ some n) → cell h'.tables n = cell h.tables n)
    (hcb : h'.tables.callbacks = h.tables.callbacks) (hslots : OwnSlots v h.tables.sched h'.tables.sched)
    (hunique : ∀ j k, (h'.tables.sched.vms j).id = v → (h'.tables.sched.vms k).id = v → j = k)
    (hfull : NoneFull h'.tables.sched) (hlive : Live h'.tables v p) : HypResInv h' := by
  have hother' : ∀ {w q}, w ≠ v → h'.vms w = some q → h.vms w = some q := fun hw hq => by rwa [hother _ hw] at hq
  have hself' : ∀ {q}, h'.vms v = some q → q = p := fun hq => by rw [hself, Option.some.injEq] at hq; exact hq.symm
  refine ⟨ht, hslots.ledger hinv.ledger, hslots.initDone.trans hinv.initDone, hfull, hcb ▸ hinv.together, ?_, ?_, ?_, ?_, ?_⟩
  · intro w q hq
    by_cases hw : w = v
    · subst hw
      rwa [hself' hq]
    · have hlive := hinv.live w q (hother' hw hq)
      refine hlive.frame (fun e he n hn => hcells n fun e' he' => ?_) hcb (hslots.other hw hlive.valid)
      exact hown w q (hother' hw hq) e he e' he' n hn
  · intro n hn
    by_cases hres : ∀ e ∈ p.res, name e ≠ some n
    · rw [hcells n hres] at hn
      obtain ⟨w, q, hq, hex⟩ := hinv.owned n hn
      have hw : w ≠ v := by
        rintro rfl
        rw [hnew] at hq
        cases hq
      exact ⟨w, q, by rwa [hother w hw], hex⟩
    · simp only [not_forall, not_not] at hres
      obtain ⟨e, he, hne⟩ := hres
      exact ⟨v, p, hself, e, he, hne⟩
  · intro w w' q q' hww hq hq' e he e' he' n hn
    by_cases hw : w = v
    · subst hw
      rw [hself' hq] at he
      exact fun hn' => hown w' q' (hother' hww.symm hq') e' he' e he n hn' hn
    by_cases hw' : w' = v
    · subst hw'
      rw [hself' hq'] at he'
      exact hown w q (hother' hw hq) e he e' he' n hn
    · exact hinv.apart w w' q q' hww (hother' hw hq) (hother' hw' hq') e he e' he' n hn
  · intro j
    rcases hslots.slots j with hj | ⟨-, hj | hj⟩
    · rw [hj, hother _ (hinv.no_slot hv hnew j)]
      exact hinv.slots j
    · rw [hj, hself]
      exact .inr rfl
    · exact .inl hj
  · intro j k hjk hj
    by_cases hid : (h'.tables.sched.vms j).id = v
    · exact hunique j k hid (hjk.symm.trans hid)
    · have hj' := hslots.other hid hj j (.inr rfl)
      have hk' := hslots.other hid hj k (.inr hjk.symm)
      rw [hj', hk'] at hjk
      rw [hj'] at hj
      exact hinv.unique j k hjk hj

/-- A VM is unpopulated: its cells are emptied, and its slot is freed. -/
theorem HypResInv.unpopulated (hp : h.vms v = some p) (hself : h'.vms v = none)
    (hother : ∀ w, w ≠ v → h'.vms w = h.vms w) (hw : Wipes p.res h.tables h'.tables)
    (hslots : OwnSlots v h.tables.sched h'.tables.sched) (hgone : ∀ j, (h'.tables.sched.vms j).id ≠ v) :
    HypResInv h' := by
  have hne : ∀ {w q}, h'.vms w = some q → w ≠ v := by
    rintro w q hq rfl
    rw [hself] at hq
    cases hq
  have hother' : ∀ {w q}, h'.vms w = some q → h.vms w = some q := fun hq => by rwa [hother _ (hne hq)] at hq
  refine ⟨hw.inv, hslots.ledger hinv.ledger, hslots.initDone.trans hinv.initDone, ?_, hw.callbacks ▸ hinv.together,
    ?_, ?_, ?_, ?_, ?_⟩
  · intro j
    rcases hslots.slots j with hj | ⟨-, hj⟩
    · rw [hj]
      exact hinv.full j
    · rw [ProxyVm.vcpuCount, (hj.resolve_left (hgone j)).vcpu]
      exact Nat.zero_le _
  · intro w q hq
    have hlive := hinv.live w q (hother' hq)
    refine hlive.frame (fun e he n hn => hw.cells n fun e' he' hn' => ?_) hw.callbacks (hslots.other (hne hq) hlive.valid)
    exact hinv.apart w v q p (hne hq) (hother' hq) hp e he e' he' n hn hn'
  · intro n hn
    have hp' : ∀ e ∈ p.res, name e ≠ some n := fun e he hne => hn (hw.cleared e he n hne)
    rw [hw.cells n hp'] at hn
    obtain ⟨w, q, hq, e, he, hname⟩ := hinv.owned n hn
    have hwv : w ≠ v := by
      rintro rfl
      rw [hp, Option.some.injEq] at hq
      exact hp' e (hq ▸ he) hname
    exact ⟨w, q, by rwa [hother w hwv], e, he, hname⟩
  · intro w w' q q' hww hq hq'
    exact hinv.apart w w' q q' hww (hother' hq) (hother' hq')
  · intro j
    rcases hslots.slots j with hj | ⟨-, hj⟩
    · rw [hother _ (hgone j), hj]
      exact hinv.slots j
    · exact .inl (hj.resolve_left (hgone j))
  · intro j k hjk hj
    have hj' := hslots.other (hgone j) hj j (.inr rfl)
    have hk' := hslots.other (hgone j) hj k (.inr hjk.symm)
    rw [hj', hk'] at hjk
    rw [hj'] at hj
    exact hinv.unique j k hjk hj

/-- Nothing is populated or unpopulated, and no cell is changed. -/
theorem HypResInv.unchanged (hvms : h'.vms = h.vms) (ht : TablesInv h'.tables)
    (hcells : ∀ n, cell h'.tables n = cell h.tables n) (hcb : h'.tables.callbacks = h.tables.callbacks)
    (hsched : h'.tables.sched = h.tables.sched) : HypResInv h' where
  inv := ht
  ledger := hsched ▸ hinv.ledger
  initDone := hsched ▸ hinv.initDone
  full := hsched ▸ hinv.full
  together := hcb ▸ hinv.together
  live := by
    intro v p hp
    rw [hvms] at hp
    exact (hinv.live v p hp).frame (fun _ _ n _ => hcells n) hcb fun j _ => by rw [hsched]
  owned := by
    intro n hn
    rw [hcells n] at hn
    rw [hvms]
    exact hinv.owned n hn
  apart := hvms ▸ hinv.apart
  slots := by
    rw [hvms, hsched]
    exact hinv.slots
  unique := hsched ▸ hinv.unique

end

/-! ## Steps -/

theorem populate_some {query : Option Int} (hs : hypResStep h (.populate v query res) = some h') :
    v ≠ GH_VMID_INVAL ∧ h.vms v = none ∧ (∃ ret, ghRmPopulateHypRes h.tables v query res = some (h'.tables, ret)) ∧
      h'.vms = Function.update h.vms v (some ⟨res.map (·.1), h.tables, h'.tables⟩) := by
  simp only [hypResStep] at hs
  split at hs
  · cases hs
  rename_i hguard
  obtain ⟨hv, hnew⟩ := not_or.mp hguard
  obtain ⟨⟨t, ret⟩, ht, hs⟩ := Option.bind_eq_some_iff.mp hs
  cases hs
  exact ⟨hv, by simpa using hnew, ⟨ret, ht⟩, rfl⟩

theorem unpopulate_some (hs : hypResStep h (.unpopulate v) = some h') :
    ∃ p, h.vms v = some p ∧ h'.tables = (ghRmUnpopulateHypRes h.tables v none p.res).1 ∧
      h'.vms = Function.update h.vms v none := by
  obtain ⟨p, hp, hs⟩ := Option.bind_eq_some_iff.mp hs
  cases hs
  exact ⟨p, hp, rfl, rfl⟩

theorem client_some {act : RegAct} (hs : hypResStep h (.client act) = some h') :
    isClient act = true ∧ ∃ r, regStep h.tables.msgq act = some r ∧
      h' = { h with tables := { h.tables with msgq := r } } := by
  simp only [hypResStep] at hs
  split at hs
  · cases hs
  rename_i hclient
  obtain ⟨r, hr, hs⟩ := Option.bind_eq_some_iff.mp hs
  cases hs
  exact ⟨by simpa using hclient, r, hr, rfl⟩

/-- The entries that are populated are distinct. -/
theorem distinct_of_apart (h : res.Pairwise Apart) (hres : res.map (·.1) = P ++ Q) : P.Pairwise Distinct := by
  have hall : (res.map (·.1)).Pairwise Distinct := List.pairwise_map.mpr (h.imp fun ha => ⟨ha.name, ha.vcpu⟩)
  rw [hres] at hall
  exact (List.pairwise_append.mp hall).1

theorem populate_step {query : Option Int} (hinv : HypResInv h) (hs : hypResStep h (.populate v query res) = some h')
    (hu : Undoable h (.populate v query res)) : HypResInv h' := by
  obtain ⟨hv, hnew, ⟨ret, hret⟩, hvms⟩ := populate_some hs
  have hno := hinv.no_slot hv hnew
  have hown : OwnNames h res := by
    cases query with
    | some e => exact hu
    | none => exact hu.1
  have hown' : ∀ w q, h.vms w = some q → ∀ e ∈ q.res, ∀ e' ∈ res.map (·.1), ∀ n, name e = some n → name e' ≠ some n := by
    intro w q hq e he e' he' n hn
    obtain ⟨x, hx, rfl⟩ := List.mem_map.mp he'
    exact hown w q hq e he x hx n hn
  have hunused : ∀ e ∈ res.map (·.1), ∀ n, name e = some n → cell h.tables n = empty := by
    intro e he n hn
    obtain ⟨x, hx, rfl⟩ := List.mem_map.mp he
    exact hinv.unused hown hx hn
  have hself : h'.vms v = some ⟨res.map (·.1), h.tables, h'.tables⟩ := by rw [hvms, Function.update_self]
  have hother : ∀ w, w ≠ v → h'.vms w = h.vms w := fun w hw => by rw [hvms, Function.update_of_ne hw]
  cases query with
  | some e =>
    have hsame : h'.tables = h.tables := by
      simp only [ghRmPopulateHypRes, Option.some.injEq, Prod.mk.injEq] at hret
      exact hret.1.symm
    rw [hsame] at hself
    refine hinv.populated hv hnew hself hother hown' (hsame ▸ hinv.inv) (fun n _ => by rw [hsame]) (by rw [hsame])
      (by rw [hsame]; exact .refl v _) (fun j k hj => ?_) (hsame ▸ hinv.full) ?_
    · rw [hsame] at hj
      exact absurd hj (hno j)
    · rw [hsame]
      refine ⟨hv, hinv.inv, hinv.inv, fun _ _ => rfl, hunused, fun _ _ _ _ => rfl, [], _, rfl, .nil, ?_, ?_, ?_⟩
      · exact fun e he => absurd he List.not_mem_nil
      · exact fun e he n hn _ => hunused e he n hn
      · exact .inl ⟨hno, rfl, fun e he => absurd he List.not_mem_nil⟩
  | none =>
    obtain ⟨-, hfrees, hslot, hapart, hirq, hcond⟩ := hu
    obtain ⟨i, hat, hid⟩ := at_free hv hinv.initDone hno hslot
    have hfree := hinv.free_of_id hid
    obtain ⟨P, Q, hres, hpop⟩ := populate_populates hinv.inv hat hfree hinv.ledger hinv.full hinv.together
      (hinv.fits hown hfrees hirq) hapart hcond hret
    have hP : ∀ e ∈ P, e ∈ res.map (·.1) := fun e he => hres ▸ List.mem_append_left Q he
    have hcells : ∀ n, (∀ e ∈ res.map (·.1), name e ≠ some n) → cell h'.tables n = cell h.tables n :=
      fun n hn => hpop.cells n fun e he => hn e (hP e he)
    have hunused' : ∀ e ∈ Q, ∀ n, name e = some n → (∀ e' ∈ P, name e' ≠ some n) → cell h'.tables n = empty :=
      fun e he n hn hno' => (hpop.cells n hno').trans (hunused e (hres ▸ List.mem_append_right P he) n hn)
    have hslots : OwnSlots v h.tables.sched h'.tables.sched ∧
        (∀ j k, (h'.tables.sched.vms j).id = v → (h'.tables.sched.vms k).id = v → j = k) ∧ NoneFull h'.tables.sched ∧
        Holds h'.tables v ⟨res.map (·.1), h.tables, h'.tables⟩ P Q := by
      rcases hpop.slot with ⟨hsched, hpass⟩ | ⟨hset, hall, hknown, hm, hfull, hleft⟩
      · rw [hsched]
        refine ⟨.refl v _, fun j k hj => absurd hj (hno j), hinv.full, hres, distinct_of_apart hapart hres, hpop.recorded,
          hunused', .inl ⟨by rwa [hsched], hsched, ?_⟩⟩
        rw [hpop.callbacks]
        exact hpass
      · have hslot : ∀ j, (h'.tables.sched.vms j).id = v → j = i := by
          intro j hj
          by_contra hji
          rw [hm.vms, Function.update_of_ne hji] at hj
          exact hno j hj
        refine ⟨.of_moves hm (.inr hfree) (.inl hleft.proxied.1), fun j k hj hk => (hslot j hj).trans (hslot k hk).symm,
          hfull, hres, distinct_of_apart hapart hres, hpop.recorded, hunused', .inr ⟨i, ?_, hall, hknown, hfree, hm, hleft⟩⟩
        rw [hpop.callbacks]
        exact hset
    obtain ⟨hslots, hunique, hfull, hholds⟩ := hslots
    exact hinv.populated hv hnew hself hother hown' hpop.inv hcells hpop.callbacks hslots hunique hfull
      ⟨hv, hinv.inv, hpop.inv, hcells, hunused, fun _ _ _ _ => rfl, P, Q, hholds⟩

/-- A VM is unpopulated, and what populating it did is undone. -/
theorem unpopulate_step (hinv : HypResInv h) (hs : hypResStep h (.unpopulate v) = some h')
    (hu : Undoable h (.unpopulate v)) :
    HypResInv h' ∧ ∀ p, h.vms v = some p → Restored v p h.tables h'.tables := by
  obtain ⟨p, hp, htables, hvms⟩ := unpopulate_some hs
  have hlive := hinv.live v p hp
  obtain ⟨P, Q, hholds⟩ := hlive.holds
  obtain ⟨hslot, hlookup⟩ := hu
  have hwipes : Wipes p.res h.tables h'.tables ∧ OwnSlots v h.tables.sched h'.tables.sched ∧
      (∀ j, (h'.tables.sched.vms j).id ≠ v) ∧
      total p.before.sched + total h.tables.sched = total p.after.sched + total h'.tables.sched := by
    rw [htables, hholds.list]
    rcases hholds.slot with ⟨hno, hsched, hpass⟩ | ⟨i, hset, rfl, hknown, hfree, hm, hleft⟩
    · obtain ⟨i, hat, hid⟩ := at_free hlive.valid hinv.initDone hno hslot
      obtain ⟨hw, hkept⟩ := unpopulate_unslotted hinv.inv hat (hinv.free_of_id hid).not_proxied hholds.recorded hpass
        hholds.distinct hholds.unused
      rw [hkept, hsched]
      exact ⟨hw, .refl v _, hno, rfl⟩
    · obtain ⟨k, hk⟩ := hslot
      have hat : At h.tables.sched v i := ⟨hlive.valid, hlookup i hleft.proxied.1, .inl hleft.proxied.1, hinv.initDone⟩
      rw [List.append_nil]
      obtain ⟨hw, vm, hvm, hm'⟩ := unpopulate_slotted hinv.inv hat hinv.ledger hinv.together hset hholds.recorded hknown
        hholds.distinct hleft ⟨k, hinv.free_of_id hk⟩
      refine ⟨hw, .of_moves hm' (.inl hleft.proxied.1) (.inr hvm), fun j hj => ?_, ?_⟩
      · by_cases hji : j = i
        · subst hji
          rw [hm'.self] at hj
          exact hlive.valid (hj.symm.trans hvm.id)
        · rw [hm'.vms, Function.update_of_ne hji] at hj
          refine hji (hinv.unique j i (hj.trans hleft.proxied.1.symm) ?_)
          rw [hj]
          exact hlive.valid
      · have h₁ := hm.tally
        have h₂ := hm'.tally
        rw [hfree.tally, add_zero] at h₁
        rw [hvm.tally, add_zero] at h₂
        rw [h₁, ← h₂, add_right_comm, add_assoc]
  obtain ⟨hw, hslots, hgone, htally⟩ := hwipes
  have hself : h'.vms v = none := by rw [hvms, Function.update_self]
  have hother : ∀ w, w ≠ v → h'.vms w = h.vms w := fun w hw => by rw [hvms, Function.update_of_ne hw]
  refine ⟨hinv.unpopulated hp hself hother hw hslots hgone, fun q hq => ?_⟩
  rw [hp, Option.some.injEq] at hq
  exact hq ▸ hlive.restored hinv.inv hw hgone htally

theorem client_step {act : RegAct} (hinv : HypResInv h) (hs : hypResStep h (.client act) = some h') : HypResInv h' := by
  obtain ⟨hclient, r, hr, rfl⟩ := client_some hs
  obtain ⟨hmsgq, hqueue⟩ := hinv.inv.msgq.client hclient hr
  refine hinv.unchanged rfl ⟨hmsgq, hinv.inv.dbl⟩ (fun n => ?_) rfl rfl
  cases n with
  | msgq label d => exact hqueue label d
  | dbl label d => rfl

theorem hypResInv_step (h : HypRes) (act : HypResAct) (h' : HypRes) (hinv : HypResInv h) (hs : hypResStep h act = some h')
    (hu : Undoable h act) : HypResInv h' := by
  cases act with
  | populate v query res => exact populate_step hinv hs hu
  | unpopulate v => exact (unpopulate_step hinv hs hu).1
  | client act => exact client_step hinv hs

/-- In every run whose steps can be undone, what is populated of a VM is undone when it
is unpopulated. -/
theorem populate_undone (proxy virtio : Bool) (acts : List HypResAct)
    (hu : Each hypResStep (fun s act _ => Undoable s act) (.init proxy virtio) acts) :
    Each hypResStep Restores (.init proxy virtio) acts := by
  refine each_of_inv hypResInv_step (fun s act t hinv hs hu v p hact hp => ?_) (HypResInv.init proxy virtio) hu
  subst hact
  exact (unpopulate_step hinv hs hu).2 p hp

/-- A vCPU and the receiving side of a message queue are populated and unpopulated. -/
theorem one_vm_undone :
    Each hypResStep Restores (.init true false)
      [.populate 45 none
        [({ resType := .vcpu, virq := 16 },
            { vcpuIrq := { irq := 16 }, vcpuTries := [{ trustedVm := .ok 45, oemVm := .ok 49 }], irq := { irq := 16 } }),
          ({ resType := .mqRx, label := 3, virq := 17 }, { irq := { irq := 17 } })],
        .unpopulate 45] := by
  refine populate_undone true false _ (each_cons.mpr fun t ht => ⟨⟨?_, ?_, ⟨0, rfl⟩, ?_, ?_, fun _ => .inr ⟨?_, ?_⟩⟩,
    each_cons.mpr fun u hu => ⟨⟨?_, ?_⟩, each_nil _ _⟩⟩)
  · exact fun _ _ hp => nomatch hp
  · exact fun _ _ hp => nomatch hp
  · rw [List.pairwise_pair]
    exact ⟨fun _ hx => (nomatch hx), fun _ hy => (nomatch hy), fun _ hx => (nomatch hx)⟩
  · intro x hx
    rcases List.mem_pair.mp hx with rfl | rfl
    · exact fun hx => nomatch hx
    · exact fun _ => .inl (by decide)
  · intro x hx
    rcases List.mem_pair.mp hx with rfl | rfl
    · exact ⟨fun _ => by decide, by decide, trivial⟩
    · refine ⟨fun hx => (nomatch hx), by decide, by decide, ?_⟩
      intro t ht
      rw [List.mem_singleton.mp ht]
      exact ⟨rfl, by decide⟩
  · decide
  · cases ht
    exact ⟨1, rfl⟩
  · cases ht
    decide

/-- A vCPU is taken, and then no entry can be allocated for a message queue: the vCPU is
not freed, and its slot stays. -/
theorem taken_vcpu_stays :
    ¬ ∀ proxy virtio acts, Each hypResStep Restores (.init proxy virtio) acts := by
  intro hall
  have hrun := each_cons.mp (hall true false
    [.populate 45 none
      [({ resType := .vcpu, virq := 16 },
          { vcpuIrq := { irq := 16 }, vcpuTries := [{ trustedVm := .ok 45, oemVm := .ok 49 }], irq := { irq := 16 } }),
        ({ resType := .mqRx, label := 3, virq := 17 }, { irq := { irq := 17 }, tries := [{ alloc := false }] })],
      .unpopulate 45]) _ rfl
  have hstep := each_cons.mp hrun.2 _ rfl
  exact (hstep.1 45 _ rfl rfl).slot 0 rfl

end GH.Proof.HypRes
