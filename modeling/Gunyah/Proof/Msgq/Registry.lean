import Gunyah.Impl.Msgq.Registry
import Gunyah.Framework.Run
import Mathlib.Data.List.Basic
import Mathlib.Data.List.Pairwise
import Mathlib.Logic.Relation

/-!
# The table of message queues

The labels of `gh_msgq_cap_list` are different, and every descriptor and its
entry point to each other (`RegInv`). The operations are sequences of changes
that keep this (`Changes`), but for the error path of
`gh_msgq_populate_cap_info` (`populate_cases`), which frees the entry. That
breaks it when the entry was there before the call: `regInv_iff`.
-/

namespace GH.Proof.Msgq

open GH.Impl GH.Impl.Msgq

variable {s t : Registry} {a b : Addr} {label : Int} {f : CapTable → CapTable}

/-- No two entries share a label, and the entry of a descriptor is in the list
and belongs to it. -/
structure RegInv (s : Registry) : Prop where
  labels : s.capList.Pairwise fun a b => s.label a ≠ s.label b
  descs : ∀ d desc, s.descs d = some desc → desc.capTable ∈ s.capList ∧ s.clientDesc desc.capTable = some d

/-- Moreover the entries of the list are allocated, and nothing is where the
next objects go. -/
structure Inv (s : Registry) : Prop extends RegInv s where
  live : ∀ a ∈ s.capList, s.entries a ≠ none
  fresh : ∀ a, s.next ≤ a → s.entries a = none ∧ s.descs a = none

theorem Inv.init : Inv .init where
  labels := .nil
  descs := fun _ _ h => by cases h
  live := fun _ h => by cases h
  fresh := fun _ _ => ⟨rfl, rfl⟩

/-! ## Entries -/

theorem find_some (h : s.find label = some a) : a ∈ s.capList ∧ s.label a = some label := by
  refine ⟨List.mem_of_find?_eq_some h, ?_⟩
  simpa using List.find?_some h

theorem find_none (h : s.find label = none) : ∀ a ∈ s.capList, s.label a ≠ some label := by
  intro a ha
  simpa using List.find?_eq_none.mp h a ha

theorem label_modify (hf : ∀ e, (f e).label = e.label) : (s.modify a f).label b = s.label b := by
  by_cases e : b = a
  · subst e
    simp only [Registry.label, Registry.modify, Function.update_self, Option.map_map]
    exact congrFun (congrArg Option.map (funext hf)) _
  · simp only [Registry.label, Registry.modify, Function.update_of_ne e]

theorem labels_modify (h : s.capList.Pairwise fun b c => s.label b ≠ s.label c)
    (hf : ∀ e, (f e).label = e.label) :
    s.capList.Pairwise fun b c => (s.modify a f).label b ≠ (s.modify a f).label c := by
  simp only [label_modify hf]
  exact h

theorem clientDesc_modify (hf : ∀ e, (f e).clientDesc = e.clientDesc) :
    (s.modify a f).clientDesc b = s.clientDesc b := by
  by_cases e : b = a
  · subst e
    simp only [Registry.clientDesc, Registry.modify, Function.update_self, Option.bind_map]
    exact congrArg _ (funext hf)
  · simp only [Registry.clientDesc, Registry.modify, Function.update_of_ne e]

theorem clientDesc_modify_ne (e : b ≠ a) : (s.modify a f).clientDesc b = s.clientDesc b := by
  simp only [Registry.clientDesc, Registry.modify, Function.update_of_ne e]

theorem entries_modify_eq_none : (s.modify a f).entries b = none ↔ s.entries b = none := by
  by_cases e : b = a
  · subst e
    simp only [Registry.modify, Function.update_self, Option.map_eq_none_iff]
  · simp only [Registry.modify, Function.update_of_ne e]

section

variable (h : Inv s)
include h

theorem Inv.lt_next (ha : a ∈ s.capList) : a < s.next := by
  by_contra hge
  exact h.live a ha (h.fresh a (Nat.le_of_not_lt hge)).1

theorem Inv.nodup : s.capList.Nodup := by
  refine h.labels.imp ?_
  rintro a b hne rfl
  exact hne rfl

/-! ## The changes -/

/-- An entry for a new label. -/
theorem Inv.alloc (hnew : s.find label = none) : Inv (ghMsgqAllocEntry s label true).1 where
  labels := by
    have hlabel : ∀ b ∈ s.capList, (ghMsgqAllocEntry s label true).1.label b = s.label b := by
      intro b hb
      have e : b ≠ s.next := Nat.ne_of_lt (h.lt_next hb)
      simp only [Registry.label, ghMsgqAllocEntry, if_true, Function.update_of_ne e]
    have hself : (ghMsgqAllocEntry s label true).1.label s.next = some label := by
      simp only [Registry.label, ghMsgqAllocEntry, if_true, Function.update_self, Option.map_some]
    refine List.pairwise_cons.mpr ⟨fun b hb => ?_, ?_⟩
    · rw [hself, hlabel b hb]
      exact (find_none hnew b hb).symm
    · refine h.labels.imp_of_mem fun hb hc hne => ?_
      rw [hlabel _ hb, hlabel _ hc]
      exact hne
  descs := fun d desc hd => by
    obtain ⟨hmem, hclient⟩ := h.descs d desc hd
    have e : desc.capTable ≠ s.next := Nat.ne_of_lt (h.lt_next hmem)
    refine ⟨List.mem_cons_of_mem _ hmem, ?_⟩
    simp only [Registry.clientDesc, ghMsgqAllocEntry, if_true, Function.update_of_ne e]
    exact hclient
  live := fun b hb => by
    by_cases e : b = s.next
    · subst e
      simp [ghMsgqAllocEntry]
    · simp only [ghMsgqAllocEntry, if_true, Function.update_of_ne e]
      exact h.live b (List.mem_of_ne_of_mem e hb)
  fresh := fun b hb => by
    have hb : s.next < b := hb
    simp only [ghMsgqAllocEntry, if_true, Function.update_of_ne (Nat.ne_of_gt hb)]
    exact h.fresh b (Nat.le_of_lt hb)

/-- A change of an entry that keeps its label and client. -/
theorem Inv.modify (hl : ∀ e, (f e).label = e.label) (hc : ∀ e, (f e).clientDesc = e.clientDesc) :
    Inv (s.modify a f) where
  labels := labels_modify h.labels hl
  descs := fun d desc hd => by
    rw [clientDesc_modify hc]
    exact h.descs d desc hd
  live := fun b hb => by
    rw [ne_eq, entries_modify_eq_none]
    exact h.live b hb
  fresh := fun b hb => by
    rw [entries_modify_eq_none]
    exact h.fresh b hb

/-- A client for an entry that has none. -/
theorem Inv.attach (ha : a ∈ s.capList) (hno : s.clientDesc a = none) :
    Inv { s.modify a (fun e => { e with clientDesc := some s.next }) with
          descs := Function.update s.descs s.next (some ⟨label, a⟩)
          next := s.next + 1 } where
  labels := labels_modify h.labels fun _ => rfl
  descs := fun d desc hd => by
    by_cases e : d = s.next
    · subst e
      simp only [Function.update_self, Option.some.injEq] at hd
      subst hd
      refine ⟨ha, ?_⟩
      obtain ⟨e, he⟩ := Option.ne_none_iff_exists'.mp (h.live a ha)
      simp only [Registry.clientDesc, Registry.modify, Function.update_self, he, Option.map_some, Option.bind_some]
    · simp only [Function.update_of_ne e] at hd
      obtain ⟨hmem, hclient⟩ := h.descs d desc hd
      have hne : desc.capTable ≠ a := by
        intro e'
        rw [e', hno] at hclient
        cases hclient
      exact ⟨hmem, (clientDesc_modify_ne hne).trans hclient⟩
  live := fun b hb => by
    rw [ne_eq, show _ = (s.modify a _).entries b from rfl, entries_modify_eq_none]
    exact h.live b hb
  fresh := fun b hb => by
    have hb : s.next < b := hb
    have hfresh := h.fresh b (Nat.le_of_lt hb)
    refine ⟨entries_modify_eq_none.mpr hfresh.1, ?_⟩
    simp only [Function.update_of_ne (Nat.ne_of_gt hb)]
    exact hfresh.2

/-- The client `d` of an entry goes. -/
theorem Inv.detach {d : Addr} {desc : Desc} (hd : s.descs d = some desc)
    (hclient : s.clientDesc desc.capTable = some d) :
    Inv { s.modify desc.capTable (fun e => { e with clientDesc := none }) with
          descs := Function.update s.descs d none } where
  labels := labels_modify h.labels fun _ => rfl
  descs := fun d' desc' hd' => by
    have e : d' ≠ d := by
      rintro rfl
      simp only [Function.update_self] at hd'
      cases hd'
    simp only [Function.update_of_ne e] at hd'
    obtain ⟨hmem, hclient'⟩ := h.descs d' desc' hd'
    have hne : desc'.capTable ≠ desc.capTable := by
      intro e'
      rw [e', hclient, Option.some.injEq] at hclient'
      exact e hclient'.symm
    exact ⟨hmem, (clientDesc_modify_ne hne).trans hclient'⟩
  live := fun b hb => by
    rw [ne_eq, show _ = (s.modify desc.capTable _).entries b from rfl, entries_modify_eq_none]
    exact h.live b hb
  fresh := fun b hb => by
    have hfresh := h.fresh b hb
    refine ⟨entries_modify_eq_none.mpr hfresh.1, ?_⟩
    by_cases e : b = d
    · subst e
      exact Function.update_self ..
    · simp only [Function.update_of_ne e]
      exact hfresh.2

/-- An entry without a descriptor goes. -/
theorem Inv.free (hno : ∀ d desc, s.descs d = some desc → desc.capTable ≠ a) : Inv (s.free a) where
  labels := by
    refine (h.labels.sublist (List.erase_sublist)).imp_of_mem fun {b c} hb hc hne => ?_
    have hb' : b ≠ a := ((h.nodup.mem_erase_iff).mp hb).1
    have hc' : c ≠ a := ((h.nodup.mem_erase_iff).mp hc).1
    simp only [Registry.label, Registry.free, Function.update_of_ne hb', Function.update_of_ne hc']
    exact hne
  descs := fun d desc hd => by
    obtain ⟨hmem, hclient⟩ := h.descs d desc hd
    have e := hno d desc hd
    refine ⟨(List.mem_erase_of_ne e).mpr hmem, ?_⟩
    simp only [Registry.clientDesc, Registry.free, Function.update_of_ne e]
    exact hclient
  live := fun b hb => by
    obtain ⟨e, hb⟩ := (h.nodup.mem_erase_iff).mp hb
    simp only [Registry.free, Function.update_of_ne e]
    exact h.live b hb
  fresh := fun b hb => by
    refine ⟨?_, (h.fresh b hb).2⟩
    by_cases e : b = a
    · subst e
      exact Function.update_self ..
    · simp only [Registry.free, Function.update_of_ne e]
      exact (h.fresh b hb).1

end

/-! ## The operations -/

/-- A change of the table that takes no entry away. -/
inductive Change (s : Registry) : Registry → Prop where
  | alloc (label : Int) (hnew : s.find label = none) : Change s (ghMsgqAllocEntry s label true).1
  | cap (a : Addr) (capId : BitVec 64) (irq : Int) (d : Direction) :
      Change s (s.modify a fun e => e.setCap capId irq d)
  | attach {a : Addr} (label : Int) (ha : a ∈ s.capList) (hno : s.clientDesc a = none) :
      Change s { s.modify a (fun e => { e with clientDesc := some s.next }) with
        descs := Function.update s.descs s.next (some ⟨label, a⟩)
        next := s.next + 1 }
  | detach {d : Addr} {desc : Desc} (hd : s.descs d = some desc) (hc : s.clientDesc desc.capTable = some d) :
      Change s { s.modify desc.capTable (fun e => { e with clientDesc := none }) with
        descs := Function.update s.descs d none }

/-- A sequence of changes. -/
abbrev Changes : Registry → Registry → Prop := Relation.ReflTransGen Change

theorem findOrAlloc_found {alloc : Bool} (h : s.find label = some a) : s.findOrAlloc label alloc = (s, .ok a) := by
  rw [Registry.findOrAlloc, h]

theorem findOrAlloc_new {alloc : Bool} (h : s.find label = none) :
    s.findOrAlloc label alloc = ghMsgqAllocEntry s label alloc := by
  rw [Registry.findOrAlloc, h]

/-- The entry that is found, or allocated at the next address. -/
theorem findOrAlloc_ok {alloc : Bool} (hf : s.findOrAlloc label alloc = (t, .ok a)) :
    (s.find label = some a ∧ t = s) ∨
      (s.find label = none ∧ t = (ghMsgqAllocEntry s label true).1 ∧ a = s.next) := by
  cases hfind : s.find label with
  | some b =>
    rw [findOrAlloc_found hfind, Prod.mk.injEq, Except.ok.injEq] at hf
    obtain ⟨rfl, rfl⟩ := hf
    exact .inl ⟨rfl, rfl⟩
  | none =>
    rw [findOrAlloc_new hfind] at hf
    cases alloc with
    | false => cases hf
    | true =>
      cases hf
      exact .inr ⟨rfl, rfl, rfl⟩

theorem findOrAlloc_error {alloc : Bool} {e : Int} (hf : s.findOrAlloc label alloc = (t, .error e)) :
    t = s ∧ s.find label = none := by
  cases hfind : s.find label with
  | some b =>
    rw [findOrAlloc_found hfind] at hf
    cases hf
  | none =>
    rw [findOrAlloc_new hfind] at hf
    cases alloc with
    | false =>
      cases hf
      exact ⟨rfl, rfl⟩
    | true => cases hf

theorem findOrAlloc_changes {alloc : Bool} (hf : s.findOrAlloc label alloc = (t, .ok a)) :
    Changes s t ∧ a ∈ t.capList := by
  rcases findOrAlloc_ok hf with ⟨hfind, rfl⟩ | ⟨hfind, rfl, rfl⟩
  · exact ⟨.refl, (find_some hfind).1⟩
  · exact ⟨.single (.alloc label hfind), List.mem_cons_self⟩

theorem register_changes (s : Registry) (label : Int) (alloc desc : Bool) :
    Changes s (ghMsgqRegister s label alloc desc).1 := by
  unfold ghMsgqRegister
  split
  · exact .refl
  split
  · rename_i hf
    rw [(findOrAlloc_error hf).1]
  · rename_i t a hf
    obtain ⟨ht, ha⟩ := findOrAlloc_changes hf
    split
    · exact ht
    rename_i hno
    split
    · exact ht
    · exact ht.tail (.attach label ha (not_not.mp hno))

theorem unregister_changes {clientDesc : Option Addr} {ret : Int}
    (hs : ghMsgqUnregister s clientDesc = some (t, ret)) : Changes s t := by
  cases clientDesc with
  | none =>
    cases hs
    exact .refl
  | some d =>
    simp only [ghMsgqUnregister] at hs
    obtain ⟨desc, hdesc, hs⟩ := Option.bind_eq_some_iff.mp hs
    obtain ⟨e, he, hs⟩ := Option.bind_eq_some_iff.mp hs
    by_cases hc : e.clientDesc = some d
    · rw [if_neg (by simpa using hc)] at hs
      cases hs
      refine .single (.detach hdesc ?_)
      rw [Registry.clientDesc, he, Option.bind_some, hc]
    · rw [if_pos hc] at hs
      cases hs
      exact .refl

theorem reset_cases (s : Registry) (label direction : Int) (irq : Bool) :
    (∃ a d i, s.find label = some a ∧ Direction.ofInt direction = some d ∧
      ghMsgqResetCapInfo s label direction irq = (s.modify a fun e => e.setCap GH_CAPID_INVAL 0 d, 0, some i)) ∨
    ∃ ret, ret ≠ 0 ∧ ghMsgqResetCapInfo s label direction irq = (s, ret, none) := by
  unfold ghMsgqResetCapInfo
  split
  · exact .inr ⟨_, by decide, rfl⟩
  split
  · exact .inr ⟨_, by decide, rfl⟩
  split
  · exact .inr ⟨_, by decide, rfl⟩
  rename_i a ha
  split
  · rename_i d hd
    dsimp only
    split
    · exact .inr ⟨_, by decide, rfl⟩
    · exact .inl ⟨a, d, _, ha, hd, rfl⟩
  · exact .inr ⟨_, by decide, rfl⟩

theorem reset_changes (s : Registry) (label direction : Int) (irq : Bool) :
    Changes s (ghMsgqResetCapInfo s label direction irq).1 := by
  obtain ⟨a, d, i, -, -, h⟩ | ⟨ret, -, h⟩ := reset_cases s label direction irq
  · rw [h]
    exact .single (.cap ..)
  · rw [h]

/-- The error path of `gh_msgq_populate_cap_info` that frees the entry is taken. -/
def Bails (p : Populate) : Prop :=
  0 ≤ p.label ∧ 0 ≤ p.irq ∧ (Direction.ofInt p.direction = none ∨ p.irqRet < 0)

/-- On the error path the entry is freed; else no entry goes. -/
theorem populate_cases (s : Registry) (p : Populate) :
    (∃ t a, s.findOrAlloc p.label p.alloc = (t, .ok a) ∧ Bails p ∧
      (ghMsgqPopulateCapInfo s p).1 = t.free a ∧ (ghMsgqPopulateCapInfo s p).2 ≠ 0) ∨
    (Changes s (ghMsgqPopulateCapInfo s p).1 ∧ (s.find p.label ≠ none → ¬ Bails p)) := by
  unfold ghMsgqPopulateCapInfo
  split
  · rename_i hlabel
    exact .inr ⟨.refl, fun _ hb => absurd hb.1 (Int.not_le.mpr hlabel)⟩
  rename_i hlabel
  split
  · rename_i hirq
    exact .inr ⟨.refl, fun _ hb => absurd hb.2.1 (Int.not_le.mpr hirq)⟩
  rename_i hirq
  have hlabel := Int.not_lt.mp hlabel
  have hirq := Int.not_lt.mp hirq
  split
  · rename_i hf
    obtain ⟨rfl, hnone⟩ := findOrAlloc_error hf
    exact .inr ⟨.refl, fun hsome => absurd hnone hsome⟩
  · rename_i t a hf
    split
    · rename_i d hd
      split
      · rename_i hret
        exact .inl ⟨t, a, hf, ⟨hlabel, hirq, .inr hret⟩, rfl, Int.ne_of_lt hret⟩
      · rename_i hret
        refine .inr ⟨(findOrAlloc_changes hf).1.tail (.cap ..), fun _ hb => ?_⟩
        rcases hb.2.2 with hnone | hneg
        · rw [hd] at hnone
          cases hnone
        · exact hret hneg
    · rename_i hd
      exact .inl ⟨t, a, hf, ⟨hlabel, hirq, .inl hd⟩, rfl, show -EINVAL ≠ (0 : Int) by decide⟩

/-! ## They keep the table -/

theorem label_setCap (e : CapTable) (capId : BitVec 64) (irq : Int) (d : Direction) :
    (e.setCap capId irq d).label = e.label := by cases d <;> rfl

theorem clientDesc_setCap (e : CapTable) (capId : BitVec 64) (irq : Int) (d : Direction) :
    (e.setCap capId irq d).clientDesc = e.clientDesc := by cases d <;> rfl

theorem label_setBlocked (e : CapTable) (b : Bool) (d : Direction) : (e.setBlocked b d).label = e.label := by
  cases d <;> rfl

theorem clientDesc_setBlocked (e : CapTable) (b : Bool) (d : Direction) :
    (e.setBlocked b d).clientDesc = e.clientDesc := by cases d <;> rfl

theorem answer_keeps (d : Direction) (e : CapTable) (r : Resp) :
    (ghMsgqAnswer d e r).1.label = e.label ∧ (ghMsgqAnswer d e r).1.clientDesc = e.clientDesc := by
  unfold ghMsgqAnswer
  split
  · exact ⟨label_setBlocked .., clientDesc_setBlocked ..⟩
  split
  · exact ⟨label_setBlocked .., clientDesc_setBlocked ..⟩
  · exact ⟨rfl, rfl⟩

theorem Inv.change (h : Inv s) (hc : Change s t) : Inv t := by
  cases hc with
  | alloc label hnew => exact h.alloc hnew
  | cap a capId irq d => exact h.modify (fun e => label_setCap e ..) fun e => clientDesc_setCap e ..
  | attach label ha hno => exact h.attach ha hno
  | detach hd hc => exact h.detach hd hc

theorem Change.capList (hc : Change s t) : s.capList ⊆ t.capList := by
  cases hc with
  | alloc label hnew => exact List.subset_cons_self _ _
  | _ => exact List.Subset.refl _

theorem Inv.changes (h : Inv s) (hc : Changes s t) : Inv t ∧ s.capList ⊆ t.capList := by
  induction hc with
  | refl => exact ⟨h, List.Subset.refl _⟩
  | tail _ hc ih => exact ⟨ih.1.change hc, List.Subset.trans ih.2 hc.capList⟩

/-- The error path on an entry of its own. -/
theorem Inv.free_new (h : Inv s) (hnew : s.find label = none) :
    Inv ((ghMsgqAllocEntry s label true).1.free s.next) ∧
      ((ghMsgqAllocEntry s label true).1.free s.next).capList = s.capList := by
  refine ⟨(h.alloc hnew).free fun d desc hd => ?_, List.erase_cons_head ..⟩
  exact Nat.ne_of_lt (h.lt_next (h.descs d desc hd).1)

theorem populate_ok {p : Populate} (h : Inv s) (hnew : Bails p → s.find p.label = none) :
    Inv (ghMsgqPopulateCapInfo s p).1 ∧ s.capList ⊆ (ghMsgqPopulateCapInfo s p).1.capList := by
  obtain ⟨t, a, hf, hb, ht, -⟩ | ⟨hc, -⟩ := populate_cases s p
  · have hnone := hnew hb
    obtain ⟨hfind, -⟩ | ⟨-, rfl, rfl⟩ := findOrAlloc_ok hf
    · rw [hnone] at hfind
      cases hfind
    · obtain ⟨hinv, hlist⟩ := h.free_new hnone
      rw [ht]
      exact ⟨hinv, by rw [hlist]; exact List.Subset.refl _⟩
  · exact h.changes hc

/-- The error path takes an entry away that was there before. -/
theorem populate_bad {p : Populate} (h : Inv s) (hb : Bails p) (hfound : s.find p.label ≠ none) :
    (ghMsgqPopulateCapInfo s p).2 ≠ 0 ∧ ¬ s.capList ⊆ (ghMsgqPopulateCapInfo s p).1.capList := by
  obtain ⟨t, a, hf, -, ht, hret⟩ | ⟨-, hnot⟩ := populate_cases s p
  · obtain ⟨hfind, rfl⟩ | ⟨hnone, -⟩ := findOrAlloc_ok hf
    · refine ⟨hret, fun hsub => ?_⟩
      have hmem := hsub (find_some hfind).1
      rw [ht] at hmem
      exact ((h.nodup.mem_erase_iff).mp hmem).1 rfl
    · exact absurd hnone hfound
  · exact absurd hb (hnot hfound)

/-! ## Over a run -/

/-- A call of `gh_msgq_populate_cap_info` that returns an error removes no entry. -/
def KeepsEntries (s : Registry) (act : RegAct) (t : Registry) : Prop :=
  match act with
  | .populate p => (ghMsgqPopulateCapInfo s p).2 ≠ 0 → s.capList ⊆ t.capList
  | _ => True

/-- Where the error path of `gh_msgq_populate_cap_info` is taken, its label has
no entry before the call. -/
def BailsOnNew (s : Registry) (act : RegAct) (_ : Registry) : Prop :=
  match act with
  | .populate p => Bails p → s.find p.label = none
  | _ => True

theorem Inv.step {act : RegAct} (h : Inv s) (hs : regStep s act = some t) (hc : BailsOnNew s act t) : Inv t := by
  cases act with
  | register label alloc desc =>
    cases hs
    exact (h.changes (register_changes s label alloc desc)).1
  | unregister clientDesc =>
    obtain ⟨⟨t, ret⟩, hret, rfl⟩ := Option.map_eq_some_iff.mp hs
    exact (h.changes (unregister_changes hret)).1
  | populate p =>
    cases hs
    exact (populate_ok h hc).1
  | reset label direction irq =>
    cases hs
    exact (h.changes (reset_changes s label direction irq)).1
  | answer d a r =>
    obtain ⟨e, -, rfl⟩ := Option.map_eq_some_iff.mp hs
    exact h.modify (fun e => (answer_keeps d e r).1) fun e => (answer_keeps d e r).2
  | isr d a =>
    obtain ⟨e, -, rfl⟩ := Option.map_eq_some_iff.mp hs
    exact h.modify (fun e => label_setBlocked e ..) fun e => clientDesc_setBlocked e ..

theorem step_iff {act : RegAct} (h : Inv s) (hs : regStep s act = some t) :
    (RegInv t ∧ KeepsEntries s act t) ↔ BailsOnNew s act t := by
  constructor
  · rintro ⟨-, hkeeps⟩
    cases act with
    | populate p =>
      cases hs
      intro hb
      by_contra hfound
      obtain ⟨hret, hnot⟩ := populate_bad h hb hfound
      exact hnot (hkeeps hret)
    | _ => trivial
  · intro hc
    refine ⟨(h.step hs hc).toRegInv, ?_⟩
    cases act with
    | populate p =>
      cases hs
      exact fun _ => (populate_ok h hc).2
    | _ => trivial

/-- The table is as it should be in every state of a run, and no failing call
of `gh_msgq_populate_cap_info` removes an entry, exactly if its error path is
only taken for labels that had no entry. -/
theorem regInv_iff (as : List RegAct) :
    (Always regStep RegInv .init as ∧ Each regStep KeepsEntries .init as) ↔
      Each regStep BailsOnNew .init as := by
  rw [always_iff_each, and_iff_right Inv.init.toRegInv, ← each_and]
  refine each_iff (I := Inv) (fun s act t h hs hc => ?_) (fun s act t h hs => ?_) Inv.init
  · exact h.step hs hc
  · exact step_iff h hs

/-- A client registers, and `request_irq` fails for the first capability of its
queue: the descriptor points to an entry that is gone. -/
theorem not_regInv_irq_fails :
    ¬ Always regStep RegInv .init
      [.register 0 true true, .populate { label := 0, capId := 5, direction := 1, irq := 9, irqRet := -EBUSY }] := by
  intro h
  have hinv := h _ [] _ (List.append_nil _).symm rfl
  obtain ⟨hmem, -⟩ := hinv.descs 1 ⟨0, 0⟩ rfl
  cases hmem

end GH.Proof.Msgq
