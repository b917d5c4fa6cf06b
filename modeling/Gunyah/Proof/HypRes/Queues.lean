import Gunyah.Proof.Msgq.Restart
import Gunyah.Spec.Rm.HypRes

/-!
# What is recorded of a message queue

Of an entry of the table of message queues, only the capability and the
interrupt of each direction matter here (`queue`), by the label of the entry.
`QueuesInv` says that they agree with the interrupts that are requested for
the entry. What the RM and the clients do to the table is made of five changes:
`alloc`, `rewrite`, `grant`, `takeBack` and `free`, and each changes `queue` for
at most one label and direction.
-/

namespace GH.Proof.HypRes

open GH.Impl GH.Impl.Rm GH.Impl.Msgq GH.Proof.Msgq

/-- A capability that is recorded, and the interrupts that are requested for it. -/
abbrev Cell := BitVec 64 × List Int

/-- Nothing is recorded, and no interrupt is requested. -/
def empty : Cell := (GH_CAPID_INVAL, [])

/-- The interrupt of an entry, where 0 is none. -/
def irqList (irq : Int) : List Int := if irq = 0 then [] else [irq]

theorem irqList_zero : irqList 0 = [] := rfl

theorem irqList_ne {irq : Int} (h : irq ≠ 0) : irqList irq = [irq] := if_neg h

theorem irqList_eq_nil {irq : Int} : irqList irq = [] ↔ irq = 0 := by
  unfold irqList
  split <;> simp [*]

/-- What is recorded in an entry for a direction. -/
def entryCell (e : CapTable) (d : Direction) : Cell := (e.capId d, irqList (e.irq d))

/-- What is recorded for a label. -/
def queue (r : Registry) (label : Int) (d : Direction) : Cell :=
  match (r.find label).bind r.entries with
  | none => empty
  | some e => entryCell e d

/-- The entries of the list are those that are allocated, one for each label, and
the interrupts that are requested for them are those that they record. -/
structure QueuesInv (r : Registry) (q : Addr → List Int) : Prop where
  uniq : ∀ a b l, r.label a = some l → r.label b = some l → a = b
  listed : ∀ a, a ∈ r.capList ↔ r.entries a ≠ none
  nodup : r.capList.Nodup
  fresh : ∀ a, r.next ≤ a → r.entries a = none
  irqs : ∀ a e, r.entries a = some e → (q a).Perm (irqList e.txIrq ++ irqList e.rxIrq)
  gone : ∀ a, r.entries a = none → q a = []
  caps : ∀ a e d, r.entries a = some e → e.irq d = 0 → e.capId d = GH_CAPID_INVAL

variable {r : Registry} {q : Addr → List Int} {a b : Addr} {l l' : Int} {d d' : Direction} {e : CapTable}

theorem label_eq (h : r.entries a = some e) : r.label a = some e.label := by rw [Registry.label, h, Option.map_some]

theorem entries_of_label (h : r.label a = some l) : ∃ e, r.entries a = some e ∧ e.label = l :=
  Option.map_eq_some_iff.mp h

namespace QueuesInv

theorem init : QueuesInv .init fun _ => [] where
  uniq := fun _ _ _ h => by cases h
  listed := fun _ => by simp [Registry.init]
  nodup := List.nodup_nil
  fresh := fun _ _ => rfl
  irqs := fun _ _ h => by cases h
  gone := fun _ _ => rfl
  caps := fun _ _ _ h => by cases h

section

variable (h : QueuesInv r q)
include h

theorem find_iff : r.find l = some a ↔ r.label a = some l := by
  refine ⟨fun hf => (find_some hf).2, fun hl => ?_⟩
  have hmem : a ∈ r.capList := by
    obtain ⟨e, he, -⟩ := entries_of_label hl
    rw [h.listed, he]
    exact Option.some_ne_none e
  cases hf : r.find l with
  | none => exact absurd hl (find_none hf a hmem)
  | some b => rw [h.uniq b a l (find_some hf).2 hl]

theorem find_eq_none : r.find l = none ↔ ∀ a, r.label a ≠ some l := by
  rw [Option.eq_none_iff_forall_ne_some]
  exact forall_congr' fun a => not_congr h.find_iff

/-- What is recorded for the label of an entry. -/
theorem queue_eq (he : r.entries a = some e) : queue r e.label d = entryCell e d := by
  rw [queue, h.find_iff.mpr (label_eq he), Option.bind_some, he]

theorem queue_none (hl : ∀ a, r.label a ≠ some l) : queue r l d = empty := by
  rw [queue, h.find_eq_none.mpr hl, Option.bind_none]

/-- A queue without an interrupt is empty. -/
theorem entryCell_eq_empty (he : r.entries a = some e) : entryCell e d = empty ↔ e.irq d = 0 := by
  rw [entryCell, empty, Prod.mk.injEq, irqList_eq_nil]
  exact and_iff_right_of_imp (h.caps a e d he)

end

/-- What is recorded for a label is the same if it is for the entries of the label,
and empty for one that comes or goes. -/
theorem queue_congr {r' : Registry} {q' : Addr → List Int} (h : QueuesInv r q) (h' : QueuesInv r' q')
    (hold : ∀ a e, r.entries a = some e → e.label = l →
      (∃ e', r'.entries a = some e' ∧ e'.label = l ∧ entryCell e' d = entryCell e d) ∨
        (entryCell e d = empty ∧ ∀ b, r'.label b ≠ some l))
    (hnew : ∀ a e', r'.entries a = some e' → e'.label = l → r.label a ≠ some l → entryCell e' d = empty) :
    queue r' l d = queue r l d := by
  cases hf : r.find l with
  | some a =>
    obtain ⟨e, he, hl⟩ := entries_of_label (find_some hf).2
    obtain ⟨e', he', hl', hcell⟩ | ⟨hcell, hno⟩ := hold a e he hl
    · rw [← hl', h'.queue_eq he', hl', ← hl, h.queue_eq he, hcell]
    · rw [h'.queue_none hno, ← hl, h.queue_eq he, hcell]
  | none =>
    have hno := h.find_eq_none.mp hf
    rw [h.queue_none hno]
    cases hf' : r'.find l with
    | none => exact h'.queue_none (h'.find_eq_none.mp hf')
    | some a =>
      obtain ⟨e', he', hl'⟩ := entries_of_label (find_some hf').2
      rw [← hl', h'.queue_eq he']
      exact hnew a e' he' hl' (hno a)

/-! ## The changes -/

/-- An entry for a new label. -/
theorem alloc (h : QueuesInv r q) (hnew : r.find l = none) :
    QueuesInv (ghMsgqAllocEntry r l true).1 q ∧ ∀ l' d, queue (ghMsgqAllocEntry r l true).1 l' d = queue r l' d := by
  have hno := h.find_eq_none.mp hnew
  have hself : (ghMsgqAllocEntry r l true).1.entries r.next = some { label := l } := Function.update_self ..
  have hother : ∀ a, a ≠ r.next → (ghMsgqAllocEntry r l true).1.entries a = r.entries a :=
    fun a ha => Function.update_of_ne ha ..
  have hnext : r.next ∉ r.capList := by
    rw [h.listed, h.fresh _ (Nat.le_refl _)]
    exact not_not.mpr rfl
  have hinv : QueuesInv (ghMsgqAllocEntry r l true).1 q := by
    refine ⟨fun a b l' ha hb => ?_, fun a => ?_, List.nodup_cons.mpr ⟨hnext, h.nodup⟩, fun a ha => ?_,
      fun a e he => ?_, fun a he => ?_, fun a e d he hirq => ?_⟩
    · obtain ⟨e, he, hle⟩ := entries_of_label ha
      obtain ⟨f, hf, hlf⟩ := entries_of_label hb
      by_cases ha' : a = r.next
      · by_cases hb' : b = r.next
        · rw [ha', hb']
        · rw [ha', hself, Option.some.injEq] at he
          rw [hother b hb'] at hf
          exact absurd (label_eq hf) (by rw [hlf, ← hle, ← he]; exact hno b)
      · rw [hother a ha'] at he
        by_cases hb' : b = r.next
        · rw [hb', hself, Option.some.injEq] at hf
          exact absurd (label_eq he) (by rw [hle, ← hlf, ← hf]; exact hno a)
        · rw [hother b hb'] at hf
          exact h.uniq a b l' (hle ▸ label_eq he) (hlf ▸ label_eq hf)
    · by_cases ha : a = r.next
      · rw [ha, hself]
        exact iff_of_true List.mem_cons_self (Option.some_ne_none _)
      · rw [hother a ha, ← h.listed]
        exact List.mem_cons.trans (or_iff_right ha)
    · have hlt : r.next < a := ha
      rw [hother a (Nat.ne_of_gt hlt)]
      exact h.fresh a (Nat.le_of_lt hlt)
    · by_cases ha : a = r.next
      · rw [ha, hself, Option.some.injEq] at he
        rw [ha, ← he, h.gone _ (h.fresh _ (Nat.le_refl _))]
        rfl
      · rw [hother a ha] at he
        exact h.irqs a e he
    · by_cases ha : a = r.next
      · rw [ha, hself] at he
        cases he
      · rw [hother a ha] at he
        exact h.gone a he
    · by_cases ha : a = r.next
      · rw [ha, hself, Option.some.injEq] at he
        rw [← he]
        cases d <;> rfl
      · rw [hother a ha] at he
        exact h.caps a e d he hirq
  refine ⟨hinv, fun l' d => queue_congr h hinv (fun a e he hl => ?_) fun a e' he' hl' hne => ?_⟩
  · have ha : a ≠ r.next := by
      rintro rfl
      rw [h.fresh _ (Nat.le_refl _)] at he
      cases he
    exact .inl ⟨e, (hother a ha).trans he, hl, rfl⟩
  · by_cases ha : a = r.next
    · rw [ha, hself, Option.some.injEq] at he'
      rw [← he']
      cases d <;> rfl
    · rw [hother a ha] at he'
      exact absurd (hl' ▸ label_eq he') hne

/-- The entry of a label is changed. -/
theorem change {q' : Addr → List Int} {f : CapTable → CapTable} (h : QueuesInv r q) (he : r.entries a = some e)
    (hl : (f e).label = e.label) (hq : ∀ b, b ≠ a → q' b = q b)
    (hirqs : (q' a).Perm (irqList (f e).txIrq ++ irqList (f e).rxIrq))
    (hcaps : ∀ d, (f e).irq d = 0 → (f e).capId d = GH_CAPID_INVAL) :
    QueuesInv (r.modify a f) q' ∧ (∀ d, queue (r.modify a f) e.label d = entryCell (f e) d) ∧
      ∀ l' d, l' ≠ e.label → queue (r.modify a f) l' d = queue r l' d := by
  have hself : (r.modify a f).entries a = some (f e) := entries_modify he
  have hother : ∀ b, b ≠ a → (r.modify a f).entries b = r.entries b := fun b hb => Function.update_of_ne hb ..
  have hlabel : ∀ b, (r.modify a f).label b = r.label b := by
    intro b
    by_cases hb : b = a
    · rw [hb, label_eq hself, label_eq he, hl]
    · rw [Registry.label, hother b hb, Registry.label]
  have hinv : QueuesInv (r.modify a f) q' := by
    refine ⟨fun b c l' hb hc => h.uniq b c l' (hlabel b ▸ hb) (hlabel c ▸ hc), fun b => ?_, h.nodup, fun b hb => ?_,
      fun b e' he' => ?_, fun b he' => ?_, fun b e' d he' hirq => ?_⟩
    · rw [ne_eq, entries_modify_eq_none]
      exact h.listed b
    · exact entries_modify_eq_none.mpr (h.fresh b hb)
    · by_cases hb : b = a
      · rw [hb, hself, Option.some.injEq] at he'
        rw [hb, ← he']
        exact hirqs
      · rw [hother b hb] at he'
        rw [hq b hb]
        exact h.irqs b e' he'
    · by_cases hb : b = a
      · rw [hb, hself] at he'
        cases he'
      · rw [hother b hb] at he'
        rw [hq b hb]
        exact h.gone b he'
    · by_cases hb : b = a
      · rw [hb, hself, Option.some.injEq] at he'
        rw [← he'] at hirq ⊢
        exact hcaps d hirq
      · rw [hother b hb] at he'
        exact h.caps b e' d he' hirq
  refine ⟨hinv, fun d => ?_, fun l' d hne => queue_congr h hinv (fun b e' he' hl' => ?_) fun b e' he' hl' hne' => ?_⟩
  · rw [← hl]
    exact hinv.queue_eq hself
  · have hb : b ≠ a := by
      rintro rfl
      rw [he, Option.some.injEq] at he'
      exact hne (by rw [← hl', he'])
    exact .inl ⟨e', (hother b hb).trans he', hl', rfl⟩
  · exact absurd (by rw [← hlabel b, label_eq he', hl']) hne'

/-- A change of an entry that keeps its label and cells. -/
theorem rewrite {f : CapTable → CapTable} (h : QueuesInv r q) (he : r.entries a = some e) (hl : (f e).label = e.label)
    (hc : ∀ d, (f e).capId d = e.capId d) (hi : ∀ d, (f e).irq d = e.irq d) :
    QueuesInv (r.modify a f) q ∧ ∀ l' d, queue (r.modify a f) l' d = queue r l' d := by
  have htx : (f e).txIrq = e.txIrq := hi .tx
  have hrx : (f e).rxIrq = e.rxIrq := hi .rx
  obtain ⟨hinv, hself, hother⟩ := h.change (f := f) he hl (fun _ _ => rfl) (by rw [htx, hrx]; exact h.irqs a e he)
    fun d hd => (hc d).trans (h.caps a e d he ((hi d).symm.trans hd))
  refine ⟨hinv, fun l' d => ?_⟩
  by_cases hl' : l' = e.label
  · rw [hl', hself, h.queue_eq he, entryCell, entryCell, hc, hi]
  · exact hother l' d hl'

end QueuesInv

theorem setCap_self (e : CapTable) (c : BitVec 64) (i : Int) (d : Direction) :
    (e.setCap c i d).capId d = c ∧ (e.setCap c i d).irq d = i := by cases d <;> exact ⟨rfl, rfl⟩

theorem setCap_other (e : CapTable) (c : BitVec 64) (i : Int) (hd : d' ≠ d) :
    (e.setCap c i d).capId d' = e.capId d' ∧ (e.setCap c i d).irq d' = e.irq d' := by
  cases d <;> cases d' <;> first | exact absurd rfl hd | exact ⟨rfl, rfl⟩

namespace QueuesInv

/-- A capability is recorded, or taken back, in one direction of the entry of a
label. -/
theorem setCap (q' : Addr → List Int) {c : BitVec 64} {i : Int} (h : QueuesInv r q) (hf : r.find l = some a)
    (hq : ∀ b, b ≠ a → q' b = q b) (hirqs : (q' a ++ (queue r l d).2).Perm (irqList i ++ q a))
    (hcap : i = 0 → c = GH_CAPID_INVAL) :
    QueuesInv (r.modify a fun e => e.setCap c i d) q' ∧
      queue (r.modify a fun e => e.setCap c i d) l d = (c, irqList i) ∧
      ∀ l' d', ¬(l' = l ∧ d' = d) → queue (r.modify a fun e => e.setCap c i d) l' d' = queue r l' d' := by
  obtain ⟨e, he, rfl⟩ := entries_of_label (find_some hf).2
  have hcells : (q' a).Perm (irqList (e.setCap c i d).txIrq ++ irqList (e.setCap c i d).rxIrq) := by
    rw [h.queue_eq he] at hirqs
    have hq := h.irqs a e he
    cases d with
    | tx =>
      have hp : (q' a ++ irqList e.txIrq).Perm (irqList i ++ irqList e.rxIrq ++ irqList e.txIrq) := by
        refine hirqs.trans ?_
        rw [List.append_assoc]
        exact (hq.trans List.perm_append_comm).append_left _
      exact (List.perm_append_right_iff _).mp hp
    | rx =>
      have hp : (q' a ++ irqList e.rxIrq).Perm (irqList e.txIrq ++ irqList i ++ irqList e.rxIrq) := by
        refine hirqs.trans ((hq.append_left _).trans ?_)
        rw [← List.append_assoc]
        exact List.perm_append_comm.append_right _
      exact (List.perm_append_right_iff _).mp hp
  obtain ⟨hinv, hself, hother⟩ := h.change (f := fun e => e.setCap c i d) he (label_setCap ..) hq hcells fun d' hd' => by
    by_cases hd : d' = d
    · subst hd
      rw [(setCap_self ..).2] at hd'
      rw [(setCap_self ..).1]
      exact hcap hd'
    · rw [(setCap_other e c i hd).2] at hd'
      rw [(setCap_other e c i hd).1]
      exact h.caps a e d' he hd'
  refine ⟨hinv, ?_, fun l' d' hne => ?_⟩
  · rw [hself, entryCell, (setCap_self ..).1, (setCap_self ..).2]
  · by_cases hl : l' = e.label
    · have hd : d' ≠ d := fun hd => hne ⟨hl, hd⟩
      rw [hl, hself, h.queue_eq he, entryCell, (setCap_other e c i hd).1, (setCap_other e c i hd).2, entryCell]
    · exact hother l' d' hl

/-- An entry without an interrupt goes. -/
theorem free (h : QueuesInv r q) (hf : r.find l = some a) (hempty : ∀ d, queue r l d = empty) :
    QueuesInv (r.free a) q ∧ ∀ l' d, queue (r.free a) l' d = queue r l' d := by
  obtain ⟨e, he, rfl⟩ := entries_of_label (find_some hf).2
  have hself : (r.free a).entries a = none := Function.update_self ..
  have hother : ∀ b, b ≠ a → (r.free a).entries b = r.entries b := fun b hb => Function.update_of_ne hb ..
  have hirq : ∀ d, e.irq d = 0 := fun d => (h.entryCell_eq_empty he).mp (h.queue_eq he ▸ hempty d)
  have hkept : ∀ b e', (r.free a).entries b = some e' → b ≠ a ∧ r.entries b = some e' := by
    intro b e' he'
    have hb : b ≠ a := by
      rintro rfl
      rw [hself] at he'
      cases he'
    exact ⟨hb, (hother b hb).symm.trans he'⟩
  have hinv : QueuesInv (r.free a) q := by
    refine ⟨fun b c l' hb hc => ?_, fun b => ?_, h.nodup.erase a, fun b hb => ?_,
      fun b e' he' => h.irqs b e' (hkept b e' he').2, fun b he' => ?_,
      fun b e' d he' => h.caps b e' d (hkept b e' he').2⟩
    · obtain ⟨e₁, he₁, hl₁⟩ := entries_of_label hb
      obtain ⟨e₂, he₂, hl₂⟩ := entries_of_label hc
      exact h.uniq b c l' (hl₁ ▸ label_eq (hkept b e₁ he₁).2) (hl₂ ▸ label_eq (hkept c e₂ he₂).2)
    · refine (h.nodup.mem_erase_iff).trans ?_
      by_cases hb : b = a
      · rw [hb, hself]
        exact iff_of_false (fun hm => hm.1 rfl) fun hn => hn rfl
      · rw [hother b hb, h.listed]
        exact and_iff_right hb
    · by_cases hba : b = a
      · rw [hba, hself]
      · rw [hother b hba]
        exact h.fresh b hb
    · by_cases hb : b = a
      · have hp := h.irqs a e he
        rw [show e.txIrq = 0 from hirq .tx, show e.rxIrq = 0 from hirq .rx] at hp
        rw [hb]
        exact hp.eq_nil
      · exact h.gone b ((hother b hb).symm.trans he')
  refine ⟨hinv, fun l' d => queue_congr h hinv (fun b e' he' hl' => ?_) fun b e' he' hl' hne => ?_⟩
  · by_cases hb : b = a
    · rw [hb, he, Option.some.injEq] at he'
      rw [← he']
      refine .inr ⟨(h.entryCell_eq_empty he).mpr (hirq d), fun c hc => ?_⟩
      obtain ⟨e₁, he₁, hl₁⟩ := entries_of_label hc
      have hca := h.uniq c a l' (hl₁ ▸ label_eq (hkept c e₁ he₁).2) (by rw [label_eq he, he', hl'])
      exact (hkept c e₁ he₁).1 hca
    · exact .inl ⟨e', (hother b hb).trans he', hl', rfl⟩
  · exact absurd (hl' ▸ label_eq (hkept b e' he').2) hne

/-- The descriptors of the clients do not matter. -/
theorem of_eq (r' : Registry) (h : QueuesInv r q) (hc : r'.capList = r.capList) (he : r'.entries = r.entries)
    (hn : r.next ≤ r'.next) : QueuesInv r' q ∧ ∀ l d, queue r' l d = queue r l d := by
  have hlabel : r'.label = r.label := by
    funext a
    rw [Registry.label, he, Registry.label]
  refine ⟨⟨?_, ?_, ?_, fun a ha => ?_, ?_, ?_, ?_⟩, fun l d => ?_⟩
  · rw [hlabel]
    exact h.uniq
  · rw [hc, he]
    exact h.listed
  · rw [hc]
    exact h.nodup
  · rw [he]
    exact h.fresh a (Nat.le_trans hn ha)
  · rw [he]
    exact h.irqs
  · rw [he]
    exact h.gone
  · rw [he]
    exact h.caps
  · rw [queue, Registry.find, hlabel, hc, he]
    rfl

/-! ## The operations -/

theorem findOrAlloc {alloc : Bool} {t : Registry} (h : QueuesInv r q) (hf : r.findOrAlloc l alloc = (t, .ok a)) :
    QueuesInv t q ∧ (∀ l' d, queue t l' d = queue r l' d) ∧ t.find l = some a := by
  obtain ⟨hfound, rfl⟩ | ⟨hnew, rfl, rfl⟩ := findOrAlloc_ok hf
  · exact ⟨h, fun _ _ => rfl, hfound⟩
  · obtain ⟨hinv, hqueue⟩ := h.alloc hnew
    refine ⟨hinv, hqueue, hinv.find_iff.mpr ?_⟩
    exact label_eq (e := { label := l }) (Function.update_self ..)

/-- What the clients do to the table does not matter. -/
theorem client {act : RegAct} {t : Registry} (h : QueuesInv r q) (hc : Spec.Rm.isClient act = true)
    (hs : regStep r act = some t) : QueuesInv t q ∧ ∀ l d, queue t l d = queue r l d := by
  cases act with
  | populate p => cases hc
  | reset label direction irq => cases hc
  | register label alloc desc =>
    cases hs
    unfold ghMsgqRegister
    split
    · exact ⟨h, fun _ _ => rfl⟩
    split
    · rename_i hf
      rw [(findOrAlloc_error hf).1]
      exact ⟨h, fun _ _ => rfl⟩
    · rename_i t a hf
      obtain ⟨ht, hqueue, hfind⟩ := h.findOrAlloc hf
      split
      · exact ⟨ht, hqueue⟩
      split
      · exact ⟨ht, hqueue⟩
      · obtain ⟨e, he, -⟩ := entries_of_label (find_some hfind).2
        obtain ⟨hinv, hsame⟩ := ht.rewrite (f := fun e => { e with clientDesc := some t.next }) he rfl
          (fun d => by cases d <;> rfl) fun d => by cases d <;> rfl
        obtain ⟨hinv', hsame'⟩ := hinv.of_eq { t.modify a (fun e => { e with clientDesc := some t.next }) with
          descs := Function.update t.descs t.next (some ⟨label, a⟩), next := t.next + 1 } rfl rfl (Nat.le_succ _)
        exact ⟨hinv', fun l d => (hsame' l d).trans ((hsame l d).trans (hqueue l d))⟩
  | unregister clientDesc =>
    obtain ⟨⟨t, ret⟩, hret, rfl⟩ := Option.map_eq_some_iff.mp hs
    cases clientDesc with
    | none =>
      cases hret
      exact ⟨h, fun _ _ => rfl⟩
    | some dd =>
      simp only [ghMsgqUnregister] at hret
      obtain ⟨desc, -, hret⟩ := Option.bind_eq_some_iff.mp hret
      obtain ⟨e, he, hret⟩ := Option.bind_eq_some_iff.mp hret
      split at hret
      · cases hret
        exact ⟨h, fun _ _ => rfl⟩
      · cases hret
        obtain ⟨hinv, hsame⟩ := h.rewrite (f := fun e => { e with clientDesc := none }) he rfl
          (fun d => by cases d <;> rfl) fun d => by cases d <;> rfl
        obtain ⟨hinv', hsame'⟩ := hinv.of_eq { r.modify desc.capTable (fun e => { e with clientDesc := none }) with
          descs := Function.update r.descs dd none } rfl rfl (Nat.le_refl _)
        exact ⟨hinv', fun l d => (hsame' l d).trans (hsame l d)⟩
  | answer d a resp =>
    obtain ⟨e, he, rfl⟩ := Option.map_eq_some_iff.mp hs
    have hkeeps : ∀ d', (ghMsgqAnswer d e resp).1.capId d' = e.capId d' ∧ (ghMsgqAnswer d e resp).1.irq d' = e.irq d' := by
      intro d'
      unfold ghMsgqAnswer
      split
      · cases d <;> cases d' <;> exact ⟨rfl, rfl⟩
      split
      · cases d <;> cases d' <;> exact ⟨rfl, rfl⟩
      · exact ⟨rfl, rfl⟩
    exact h.rewrite he (answer_keeps d e resp).1 (fun d' => (hkeeps d').1) fun d' => (hkeeps d').2
  | isr d a =>
    obtain ⟨e, he, rfl⟩ := Option.map_eq_some_iff.mp hs
    exact h.rewrite he (label_setBlocked e false d) (fun d' => by cases d <;> cases d' <;> rfl)
      fun d' => by cases d <;> cases d' <;> rfl

/-- `gh_msgq_populate_cap_info` fails before it comes to an entry, frees the entry, or
records the capability. -/
theorem populate (h : QueuesInv r q) (p : Populate) (hd : Direction.ofInt p.direction = some d) :
    (¬(0 ≤ p.label ∧ 0 ≤ p.irq ∧ p.alloc = true) ∧
      ∃ e, e < 0 ∧ e ≠ -EAGAIN ∧ ghMsgqPopulateCapInfo r p = (r, e)) ∨
    ∃ t a, 0 ≤ p.label ∧ 0 ≤ p.irq ∧ QueuesInv t q ∧ (∀ l d, queue t l d = queue r l d) ∧ t.find p.label = some a ∧
      ghMsgqPopulateCapInfo r p =
        if p.irqRet < 0 then (t.free a, p.irqRet) else (t.modify a fun e => e.setCap p.capId p.irq d, 0) := by
  unfold ghMsgqPopulateCapInfo
  split
  · rename_i hlabel
    exact .inl ⟨fun hc => absurd hc.1 (Int.not_le.mpr hlabel), _, by decide, by decide, rfl⟩
  split
  · rename_i hirq
    exact .inl ⟨fun hc => absurd hc.2.1 (Int.not_le.mpr hirq), _, by decide, by decide, rfl⟩
  rename_i hlabel hirq
  split
  · rename_i t err hf
    obtain ⟨rfl, hnone⟩ := findOrAlloc_error hf
    rw [findOrAlloc_new hnone, ghMsgqAllocEntry] at hf
    split at hf
    · simp at hf
    · rename_i halloc
      simp only [Prod.mk.injEq, Except.error.injEq, true_and] at hf
      exact .inl ⟨fun hc => halloc hc.2.2, err, by rw [← hf]; decide, by rw [← hf]; decide, rfl⟩
  · rename_i t a hf
    obtain ⟨ht, hqueue, hfind⟩ := h.findOrAlloc hf
    refine .inr ⟨t, a, Int.not_lt.mp hlabel, Int.not_lt.mp hirq, ht, hqueue, hfind, ?_⟩
    rw [hd]

/-- `gh_msgq_reset_cap_info` takes back what is recorded, or fails. -/
theorem reset (h : QueuesInv r q) {direction : Int} (hd : Direction.ofInt direction = some d) :
    (∃ a e, 0 ≤ l ∧ r.find l = some a ∧ r.entries a = some e ∧ e.irq d ≠ 0 ∧
      ghMsgqResetCapInfo r l direction true =
        (r.modify a fun e => e.setCap GH_CAPID_INVAL 0 d, 0, some (e.irq d))) ∨
    (l < 0 ∨ queue r l d = empty) ∧ ∃ e, e < 0 ∧ ghMsgqResetCapInfo r l direction true = (r, e, none) := by
  unfold ghMsgqResetCapInfo
  split
  · rename_i hl
    exact .inr ⟨.inl hl, _, by decide, rfl⟩
  rename_i hl
  rw [if_neg (by decide)]
  split
  · rename_i hf
    exact .inr ⟨.inr (by rw [queue, hf, Option.bind_none]), _, by decide, rfl⟩
  rename_i a hf
  obtain ⟨e, he, rfl⟩ := entries_of_label (find_some hf).2
  simp only [hd, he, Option.map_some, Option.getD_some]
  split
  · rename_i hi
    exact .inr ⟨.inr (by rw [h.queue_eq he, h.entryCell_eq_empty he, hi]), _, by decide, rfl⟩
  · rename_i hi
    exact .inl ⟨a, e, Int.not_lt.mp hl, hf, he, hi, rfl⟩

end QueuesInv

end GH.Proof.HypRes
