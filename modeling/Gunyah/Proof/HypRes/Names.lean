import Gunyah.Framework.Cells
import Gunyah.Proof.HypRes.Queues

/-!
# What is recorded of an entry

The entries of a list that have a capability of their own name a cell each, of
the message queues or of the doorbells (`cell`). `populateEntry` and
`resetEntry` change no cell but the one that the entry names (`Sets`). The cell
is filled where the first goes well (`populateEntry_named`), and then the second
goes well and empties it (`resetEntry_named`).
-/

namespace GH.Proof.HypRes

open GH.Impl GH.Impl.Rm GH.Impl.Msgq GH.Impl.Dbl GH.Impl.Proxy GH.Spec.Rm GH.Proof.Msgq

/-! ## Cells -/

/-- What a direction of a doorbell holds. -/
def dblCell (s : Doorbells) (l : Label) : Direction → Cell
  | .tx => ((s.table l).txCapId, [])
  | .rx => ((s.table l).rxCapId, s.irqs l)

/-- What the tables hold under a name. -/
def cell (s : Tables) : Name → Cell
  | .msgq label d => queue s.msgq label d
  | .dbl label d => if h : label.toNat < GH_DBL_LABEL_MAX then dblCell s.dbl ⟨label.toNat, h⟩ d else empty

/-- The interrupt of a doorbell is requested if its capability is recorded, and it is
the only one. -/
structure DoorbellsInv (s : Doorbells) : Prop where
  initialized : s.initialized = true
  rx : ∀ l, (s.irqs l = [] ∧ (s.table l).rxCapId = GH_CAPID_INVAL) ∨
    (s.irqs l = [(s.table l).rxIrq] ∧ (s.table l).rxIrq ≠ 0)

/-- The invariants of the message queues and of the doorbells. -/
structure TablesInv (s : Tables) : Prop where
  msgq : QueuesInv s.msgq s.msgqIrqs
  dbl : DoorbellsInv s.dbl

/-- At most the cell `n` is changed. -/
structure Sets (n : Name) (s t : Tables) : Prop where
  inv : TablesInv t
  cells : ∀ m, m ≠ n → cell t m = cell s m
  sched : t.sched = s.sched
  callbacks : t.callbacks = s.callbacks

/-- The capability of a name can be taken back. -/
def Recorded (s : Tables) : Name → Prop
  | .msgq label d => 0 ≤ label ∧ (queue s.msgq label d).2 ≠ []
  | .dbl label .tx => label.toNat < GH_DBL_LABEL_MAX
  | .dbl label .rx => label.toNat < GH_DBL_LABEL_MAX ∧ (cell s (.dbl label .rx)).2 ≠ []

/-- What `populateEntry` does to the cell it names: it can be taken back where that
goes well, and is as before where it fails. -/
structure Fills (n : Name) (s : Tables) (r : Tables × Int) : Prop where
  sets : Sets n s r.1
  recorded : 0 ≤ r.2 → Recorded r.1 n
  kept : r.2 < 0 → cell r.1 n = cell s n

/-- What `resetEntry` does to the cell it names: it is empty where that goes well,
and where it was. -/
structure Empties (n : Name) (s : Tables) (r : Tables × Int) : Prop where
  sets : Sets n s r.1
  goesWell : Recorded s n → r.2 = 0
  emptied : 0 ≤ r.2 → cell r.1 n = empty
  stays : cell s n = empty → cell r.1 n = empty

variable {s t u : Tables} {n : Name}

theorem Sets.refl (h : TablesInv s) (n : Name) : Sets n s s := ⟨h, fun _ _ => rfl, rfl, rfl⟩

theorem Sets.trans (h : Sets n s t) (h' : Sets n t u) : Sets n s u :=
  ⟨h'.inv, fun m hm => (h'.cells m hm).trans (h.cells m hm), h'.sched.trans h.sched, h'.callbacks.trans h.callbacks⟩

theorem Fills.fails (h : TablesInv s) (n : Name) {e : Int} (he : e < 0) : Fills n s (s, e) :=
  ⟨.refl h n, fun h' => absurd he (Int.not_lt.mpr h'), fun _ => rfl⟩

theorem Empties.fails (h : TablesInv s) {e : Int} (he : e < 0) (hn : ¬ Recorded s n) : Empties n s (s, e) :=
  ⟨.refl h n, fun h' => absurd h' hn, fun h' => absurd he (Int.not_lt.mpr h'), id⟩

theorem Recorded.congr (h : Recorded s n) (hc : cell t n = cell s n) : Recorded t n := by
  cases n with
  | msgq label d =>
    simp only [cell] at hc
    exact ⟨h.1, hc ▸ h.2⟩
  | dbl label d =>
    cases d with
    | tx => exact h
    | rx => exact ⟨h.1, hc ▸ h.2⟩

theorem cell_dbl {label : BitVec 32} (h : label.toNat < GH_DBL_LABEL_MAX) (d : Direction) :
    cell s (.dbl label d) = dblCell s.dbl ⟨label.toNat, h⟩ d := dif_pos h

/-! ## Message queues -/

/-- Message queues are changed for one label and direction. -/
theorem sets_msgq {label : Int} {d : Direction} {msgq : Registry} {q : Addr → List Int} (h : TablesInv s)
    (hinv : QueuesInv msgq q) (hq : ∀ l d', ¬(l = label ∧ d' = d) → queue msgq l d' = queue s.msgq l d') :
    Sets (.msgq label d) s { s with msgq := msgq, msgqIrqs := q } := by
  refine ⟨⟨hinv, h.dbl⟩, fun m hm => ?_, rfl, rfl⟩
  cases m with
  | msgq l d' =>
    refine hq l d' ?_
    rintro ⟨rfl, rfl⟩
    exact hm rfl
  | dbl l d' => rfl

/-- A message queue that has no capability yet. It must have an interrupt, and the
other direction is freed with it if that is refused. -/
theorem populateMsgq_fills (h : TablesInv s) (p : Populate) {d : Direction} (hd : Direction.ofInt p.direction = some d)
    (hempty : queue s.msgq p.label d = empty) (hirq : p.irq ≠ 0 ∨ p.irqRet < 0)
    (hfree : p.irqRet < 0 → ∀ d', queue s.msgq p.label d' = empty) :
    Fills (.msgq p.label d) s (populateMsgq s p) ∧
      (0 ≤ p.label → 0 ≤ p.irq → p.alloc = true → ¬ Refuses p.irqRet → ¬ Refuses (populateMsgq s p).2) := by
  have hfails : ∀ {r : Registry} {e : Int}, ghMsgqPopulateCapInfo s.msgq p = (r, e) → e ≠ 0 →
      populateMsgq s p = ({ s with msgq := r }, e) := by
    intro r e hr he
    rw [populateMsgq, hr]
    simp only [if_neg he]
    split <;> rfl
  obtain ⟨hno, e, he, hagain, hr⟩ | ⟨r, a, hlabel, hi, hinv, hqueue, hfind, hr⟩ := h.msgq.populate p hd
  · rw [hfails hr (Int.ne_of_lt he)]
    exact ⟨.fails h _ he, fun h₁ h₂ h₃ _ => absurd ⟨h₁, h₂, h₃⟩ hno⟩
  by_cases hret : p.irqRet < 0
  · rw [if_pos hret] at hr
    rw [hfails hr (Int.ne_of_lt hret)]
    obtain ⟨hinv', hqueue'⟩ := hinv.free hfind fun d' => (hqueue _ d').trans (hfree hret d')
    refine ⟨⟨sets_msgq h hinv' fun l d' _ => (hqueue' l d').trans (hqueue l d'),
      fun h' => absurd hret (Int.not_lt.mpr h'), fun _ => ?_⟩, fun _ _ _ hn => hn⟩
    exact (hqueue' _ _).trans (hqueue _ _)
  · rw [if_neg hret] at hr
    have hirq := hirq.resolve_right hret
    have hset := hinv.setCap (Function.update s.msgqIrqs a (p.irq :: s.msgqIrqs a)) (d := d) (c := p.capId)
      (i := p.irq) hfind (fun b hb => Function.update_of_ne hb ..)
      (by rw [Function.update_self, hqueue, hempty, irqList_ne hirq]; exact .of_eq (List.append_nil _))
      fun hz => absurd hz hirq
    obtain ⟨hinv', hself, hother⟩ := hset
    have hpop : populateMsgq s p = ({ s with
        msgq := r.modify a fun e => e.setCap p.capId p.irq d
        msgqIrqs := Function.update s.msgqIrqs a (p.irq :: s.msgqIrqs a) }, 0) := by
      rw [populateMsgq, hr]
      simp only [find_modify fun e => label_setCap e p.capId p.irq d, hfind, if_true]
    rw [hpop]
    refine ⟨⟨sets_msgq h hinv' fun l d' hne => (hother l d' hne).trans (hqueue l d'), fun _ => ⟨hlabel, ?_⟩,
      fun h' => absurd h' (Int.lt_irrefl 0)⟩, fun _ _ _ _ hr => absurd hr.1 (Int.lt_irrefl 0)⟩
    rw [hself, irqList_ne hirq]
    exact List.cons_ne_nil _ _

theorem resetMsgq_empties (h : TablesInv s) (label : Int) {direction : Int} {d : Direction}
    (hd : Direction.ofInt direction = some d) :
    Empties (.msgq label d) s ((resetMsgq s label direction).1, (resetMsgq s label direction).2.1) := by
  obtain ⟨a, e, hlabel, hfind, he, hi, hr⟩ | ⟨hno, err, herr, hr⟩ := h.msgq.reset (l := label) hd
  · obtain ⟨e', he', hl⟩ := entries_of_label (find_some hfind).2
    rw [he, Option.some.injEq] at he'
    subst he'
    subst hl
    have hmem : e.irq d ∈ s.msgqIrqs a := by
      refine (h.msgq.irqs a e he).mem_iff.mpr ?_
      cases d with
      | tx =>
        rw [irqList_ne (show e.txIrq ≠ 0 from hi)]
        exact List.mem_cons_self
      | rx =>
        rw [irqList_ne (show e.rxIrq ≠ 0 from hi)]
        exact List.mem_append_right _ List.mem_cons_self
    have hset := h.msgq.setCap (Function.update s.msgqIrqs a ((s.msgqIrqs a).erase (e.irq d))) (d := d)
      (c := GH_CAPID_INVAL) (i := 0) hfind (fun b hb => Function.update_of_ne hb ..)
      (by
        rw [Function.update_self, h.msgq.queue_eq he, entryCell, irqList_ne hi, irqList_zero, List.nil_append]
        exact List.perm_append_comm.trans (List.perm_cons_erase hmem).symm)
      fun _ => rfl
    obtain ⟨hinv', hself, hother⟩ := hset
    have hreset : resetMsgq s e.label direction = ({ s with
        msgq := s.msgq.modify a fun e => e.setCap GH_CAPID_INVAL 0 d
        msgqIrqs := Function.update s.msgqIrqs a ((s.msgqIrqs a).erase (e.irq d)) }, 0, some (e.irq d)) := by
      simp only [resetMsgq, hr, hfind]
    rw [hreset]
    exact ⟨sets_msgq h hinv' hother, fun _ => rfl, fun _ => hself, fun _ => hself⟩
  · have hreset : resetMsgq s label direction = (s, err, none) := by
      simp only [resetMsgq, hr]
      cases s.msgq.find label <;> rfl
    rw [hreset]
    refine .fails h herr fun hrec => ?_
    rcases hno with hl | hq
    · exact absurd hrec.1 (Int.not_le.mpr hl)
    · exact absurd (congrArg Prod.snd hq) hrec.2

/-! ## Doorbells -/

/-- The entry of a label is changed, in one direction, with its interrupts. -/
theorem sets_dbl {label : BitVec 32} {d : Direction} {e : DblCapTable} {q : Label → List Int} (h : TablesInv s)
    (hl : label.toNat < GH_DBL_LABEL_MAX) (hq : ∀ l, l ≠ ⟨label.toNat, hl⟩ → q l = s.dbl.irqs l)
    (hrx : (q ⟨label.toNat, hl⟩ = [] ∧ e.rxCapId = GH_CAPID_INVAL) ∨
      (q ⟨label.toNat, hl⟩ = [e.rxIrq] ∧ e.rxIrq ≠ 0))
    (hcell : ∀ d', d' ≠ d → dblCell { s.dbl.set ⟨label.toNat, hl⟩ e with irqs := q } ⟨label.toNat, hl⟩ d' =
      dblCell s.dbl ⟨label.toNat, hl⟩ d') :
    Sets (.dbl label d) s { s with dbl := { s.dbl.set ⟨label.toNat, hl⟩ e with irqs := q } } := by
  have hother : ∀ l, l ≠ ⟨label.toNat, hl⟩ → (s.dbl.set ⟨label.toNat, hl⟩ e).table l = s.dbl.table l :=
    fun l hne => Function.update_of_ne hne ..
  refine ⟨⟨h.msgq, h.dbl.initialized, fun l => ?_⟩, fun m hm => ?_, rfl, rfl⟩
  · by_cases hne : l = ⟨label.toNat, hl⟩
    · rw [hne]
      simp only [Doorbells.set, Function.update_self]
      exact hrx
    · simp only [hother l hne, hq l hne]
      exact h.dbl.rx l
  · cases m with
    | msgq l d' => rfl
    | dbl label' d' =>
      by_cases hlab : label' = label
      · subst hlab
        rw [cell_dbl hl, cell_dbl hl]
        exact hcell d' fun hd => hm (by rw [hd])
      · simp only [cell]
        split
        · rename_i hl'
          have hne : (⟨label'.toNat, hl'⟩ : Label) ≠ ⟨label.toNat, hl⟩ :=
            fun hc => hlab (BitVec.eq_of_toNat_eq (Fin.mk.inj hc))
          cases d' with
          | tx => simp only [dblCell, hother _ hne]
          | rx => simp only [dblCell, hother _ hne, hq _ hne]
        · rfl

theorem populateDbl_eq {label : BitVec 32} {capId : BitVec 64} {direction irq irqRet e : Int} {dbl : Doorbells}
    (h : ghDblPopulateCapInfo s.dbl label capId direction irq irqRet = (dbl, e)) :
    populateDbl s label capId direction irq irqRet = ({ s with dbl := dbl }, e) := by
  rw [populateDbl, h]

theorem resetDbl_eq {label : BitVec 32} {direction e : Int} {irq : Option Int} {dbl : Doorbells}
    (h : ghDblResetCapInfo s.dbl label direction true = (dbl, e, irq)) :
    resetDbl s label direction = ({ s with dbl := dbl }, e, irq) := by
  rw [resetDbl, h]

/-- A doorbell that is sent to. -/
theorem populateDbl_tx (h : TablesInv s) (label : BitVec 32) (capId : BitVec 64) (irq irqRet : Int) :
    Fills (.dbl label .tx) s (populateDbl s label capId GH_MSGQ_DIRECTION_TX irq irqRet) ∧
      (label.toNat < GH_DBL_LABEL_MAX → irq = 0 →
        ¬ Refuses (populateDbl s label capId GH_MSGQ_DIRECTION_TX irq irqRet).2) := by
  have hinit : ¬ s.dbl.initialized = false := by rw [h.dbl.initialized]; decide
  by_cases hl : label.toNat < GH_DBL_LABEL_MAX
  · by_cases hirq : irq > 0
    · have hpop : populateDbl s label capId GH_MSGQ_DIRECTION_TX irq irqRet = (s, - ENXIO) := by
        refine populateDbl_eq ?_
        rw [ghDblPopulateCapInfo, if_neg hinit, dif_pos hl]
        exact if_pos hirq
      rw [hpop]
      exact ⟨.fails h _ (by decide), fun _ h' => absurd h' (Int.ne_of_gt hirq)⟩
    · have hpop : populateDbl s label capId GH_MSGQ_DIRECTION_TX irq irqRet = ({ s with
          dbl := { s.dbl.set ⟨label.toNat, hl⟩ { s.dbl.table ⟨label.toNat, hl⟩ with txCapId := capId } with
            irqs := s.dbl.irqs } }, 0) := by
        refine populateDbl_eq ?_
        rw [ghDblPopulateCapInfo, if_neg hinit, dif_pos hl]
        exact if_neg hirq
      rw [hpop]
      refine ⟨⟨sets_dbl h hl (fun _ _ => rfl) (h.dbl.rx _) fun d' hd' => ?_, fun _ => hl,
        fun h' => absurd h' (Int.lt_irrefl 0)⟩, fun _ _ hr => absurd hr.1 (Int.lt_irrefl 0)⟩
      cases d' with
      | tx => exact absurd rfl hd'
      | rx => simp only [dblCell, Doorbells.set, Function.update_self]
  · have hpop : populateDbl s label capId GH_MSGQ_DIRECTION_TX irq irqRet = (s, -EINVAL) := by
      refine populateDbl_eq ?_
      rw [ghDblPopulateCapInfo, if_neg hinit, dif_neg hl]
    rw [hpop]
    exact ⟨.fails h _ (by decide), fun h' => absurd h' hl⟩

/-- A doorbell that is received from, and has no capability yet. -/
theorem populateDbl_rx (h : TablesInv s) (label : BitVec 32) (capId : BitVec 64) (irq irqRet : Int)
    (hempty : cell s (.dbl label .rx) = empty) :
    Fills (.dbl label .rx) s (populateDbl s label capId GH_MSGQ_DIRECTION_RX irq irqRet) ∧
      (label.toNat < GH_DBL_LABEL_MAX → 0 < irq → ¬ Refuses irqRet →
        ¬ Refuses (populateDbl s label capId GH_MSGQ_DIRECTION_RX irq irqRet).2) := by
  have hinit : ¬ s.dbl.initialized = false := by rw [h.dbl.initialized]; decide
  by_cases hl : label.toNat < GH_DBL_LABEL_MAX
  · rw [cell_dbl hl, dblCell, empty, Prod.mk.injEq] at hempty
    obtain ⟨hcap, hirqs⟩ := hempty
    by_cases hirq : irq ≤ 0
    · have hpop : populateDbl s label capId GH_MSGQ_DIRECTION_RX irq irqRet = (s, - ENXIO) := by
        refine populateDbl_eq ?_
        rw [ghDblPopulateCapInfo, if_neg hinit, dif_pos hl]
        exact if_pos hirq
      rw [hpop]
      exact ⟨.fails h _ (by decide), fun _ h' => absurd h' (Int.not_lt.mpr hirq)⟩
    by_cases hret : irqRet < 0
    · have hpop : populateDbl s label capId GH_MSGQ_DIRECTION_RX irq irqRet = ({ s with
          dbl := { s.dbl.set ⟨label.toNat, hl⟩ { s.dbl.table ⟨label.toNat, hl⟩ with rxIrq := irq } with
            irqs := s.dbl.irqs } }, irqRet) := by
        refine populateDbl_eq ?_
        rw [ghDblPopulateCapInfo, if_neg hinit, dif_pos hl]
        exact (if_neg hirq).trans (if_pos hret)
      rw [hpop]
      refine ⟨⟨sets_dbl h hl (fun _ _ => rfl) (.inl ⟨hirqs, hcap⟩) fun d' hd' => ?_,
        fun h' => absurd hret (Int.not_lt.mpr h'), fun _ => ?_⟩, fun _ _ hn => hn⟩
      · cases d' with
        | tx => simp only [dblCell, Doorbells.set, Function.update_self]
        | rx => exact absurd rfl hd'
      · rw [cell_dbl hl, cell_dbl hl]
        simp only [dblCell, Doorbells.set, Function.update_self]
    · have hpop : populateDbl s label capId GH_MSGQ_DIRECTION_RX irq irqRet = ({ s with
          dbl := { s.dbl.set ⟨label.toNat, hl⟩
              { s.dbl.table ⟨label.toNat, hl⟩ with rxIrq := irq, rxCapId := capId } with
            irqs := Function.update s.dbl.irqs ⟨label.toNat, hl⟩ [irq] } }, irqRet) := by
        refine populateDbl_eq ?_
        rw [ghDblPopulateCapInfo, if_neg hinit, dif_pos hl]
        refine ((if_neg hirq).trans (if_neg hret)).trans ?_
        simp only [Doorbells.set, Function.update_self, Function.update_idem, hirqs]
      rw [hpop]
      refine ⟨⟨sets_dbl h hl (fun l hne => Function.update_of_ne hne ..)
        (.inr ⟨Function.update_self .., by simp only; omega⟩) fun d' hd' => ?_, fun _ => ⟨hl, ?_⟩,
        fun h' => absurd h' hret⟩, fun _ _ _ hr => absurd hr.1 hret⟩
      · cases d' with
        | tx => simp only [dblCell, Doorbells.set, Function.update_self]
        | rx => exact absurd rfl hd'
      · rw [cell_dbl hl]
        simp only [dblCell, Function.update_self]
        exact List.cons_ne_nil _ _
  · have hpop : populateDbl s label capId GH_MSGQ_DIRECTION_RX irq irqRet = (s, -EINVAL) := by
      refine populateDbl_eq ?_
      rw [ghDblPopulateCapInfo, if_neg hinit, dif_neg hl]
    rw [hpop]
    exact ⟨.fails h _ (by decide), fun h' => absurd h' hl⟩

theorem resetDbl_tx (h : TablesInv s) (label : BitVec 32) :
    Empties (.dbl label .tx) s ((resetDbl s label GH_RM_RES_TYPE_DB_TX).1, (resetDbl s label GH_RM_RES_TYPE_DB_TX).2.1) := by
  have hinit : ¬ s.dbl.initialized = false := by rw [h.dbl.initialized]; decide
  by_cases hl : label.toNat < GH_DBL_LABEL_MAX
  · have hreset : resetDbl s label GH_RM_RES_TYPE_DB_TX = ({ s with
        dbl := { s.dbl.set ⟨label.toNat, hl⟩ { s.dbl.table ⟨label.toNat, hl⟩ with txCapId := GH_CAPID_INVAL } with
          irqs := s.dbl.irqs } }, 0, some 0) := by
      refine resetDbl_eq ?_
      rw [ghDblResetCapInfo, if_neg hinit, dif_pos hl]
      rfl
    have hcell : cell (resetDbl s label GH_RM_RES_TYPE_DB_TX).1 (.dbl label .tx) = empty := by
      rw [hreset, cell_dbl hl]
      simp only [dblCell, Doorbells.set, Function.update_self, empty]
    rw [hreset] at hcell ⊢
    refine ⟨sets_dbl h hl (fun _ _ => rfl) (h.dbl.rx _) fun d' hd' => ?_, fun _ => rfl, fun _ => hcell, fun _ => hcell⟩
    cases d' with
    | tx => exact absurd rfl hd'
    | rx => simp only [dblCell, Doorbells.set, Function.update_self]
  · have hreset : resetDbl s label GH_RM_RES_TYPE_DB_TX = (s, -EINVAL, none) := by
      refine resetDbl_eq ?_
      rw [ghDblResetCapInfo, if_neg hinit, dif_neg hl]
    rw [hreset]
    exact .fails h (show -EINVAL < 0 by decide) hl

theorem resetDbl_rx (h : TablesInv s) (label : BitVec 32) :
    Empties (.dbl label .rx) s ((resetDbl s label GH_RM_RES_TYPE_DB_RX).1, (resetDbl s label GH_RM_RES_TYPE_DB_RX).2.1) := by
  have hinit : ¬ s.dbl.initialized = false := by rw [h.dbl.initialized]; decide
  by_cases hl : label.toNat < GH_DBL_LABEL_MAX
  · by_cases hirq : (s.dbl.table ⟨label.toNat, hl⟩).rxIrq = 0
    · have hreset : resetDbl s label GH_RM_RES_TYPE_DB_RX = (s, - ENXIO, none) := by
        refine resetDbl_eq ?_
        rw [ghDblResetCapInfo, if_neg hinit, dif_pos hl]
        exact if_pos hirq
      rw [hreset]
      refine .fails h (show - ENXIO < 0 by decide) fun hrec => ?_
      rcases h.dbl.rx ⟨label.toNat, hl⟩ with ⟨h₁, -⟩ | ⟨-, h₂⟩
      · have hne := hrec.2
        rw [cell_dbl hl] at hne
        exact hne h₁
      · exact h₂ hirq
    · have hirqs : (s.dbl.irqs ⟨label.toNat, hl⟩).erase (s.dbl.table ⟨label.toNat, hl⟩).rxIrq = [] := by
        rcases h.dbl.rx ⟨label.toNat, hl⟩ with ⟨h₁, -⟩ | ⟨h₁, -⟩
        · rw [h₁, List.erase_nil]
        · rw [h₁, List.erase_cons_head]
      have hreset : resetDbl s label GH_RM_RES_TYPE_DB_RX = ({ s with
          dbl := { s.dbl.set ⟨label.toNat, hl⟩
              { s.dbl.table ⟨label.toNat, hl⟩ with rxIrq := 0, rxCapId := GH_CAPID_INVAL } with
            irqs := Function.update s.dbl.irqs ⟨label.toNat, hl⟩ [] } }, 0,
          some (s.dbl.table ⟨label.toNat, hl⟩).rxIrq) := by
        refine resetDbl_eq ?_
        rw [ghDblResetCapInfo, if_neg hinit, dif_pos hl]
        refine (if_neg hirq).trans ?_
        rw [hirqs]
      have hcell : cell (resetDbl s label GH_RM_RES_TYPE_DB_RX).1 (.dbl label .rx) = empty := by
        rw [hreset, cell_dbl hl]
        simp only [dblCell, Doorbells.set, Function.update_self, empty]
      rw [hreset] at hcell ⊢
      refine ⟨sets_dbl h hl (fun l hne => Function.update_of_ne hne ..) (.inl ⟨Function.update_self .., rfl⟩)
        fun d' hd' => ?_, fun _ => rfl, fun _ => hcell, fun _ => hcell⟩
      cases d' with
      | tx => simp only [dblCell, Doorbells.set, Function.update_self]
      | rx => exact absurd rfl hd'
  · have hreset : resetDbl s label GH_RM_RES_TYPE_DB_RX = (s, -EINVAL, none) := by
      refine resetDbl_eq ?_
      rw [ghDblResetCapInfo, if_neg hinit, dif_neg hl]
    rw [hreset]
    exact .fails h (show -EINVAL < 0 by decide) fun hrec => hl hrec.1

/-! ## Entries -/

/-- What an entry names has no capability, but for doorbells that are sent to; it is
given an interrupt; and where an interrupt is refused the queue is not in use. -/
structure Fits (s : Tables) (x : ResEntry × EntryAnswers) : Prop where
  unused : ∀ n, name x.1 = some n → (∀ l, n ≠ .dbl l .tx) → cell s n = empty
  irq : HasIrq x
  frees : FreesQueue x → ∀ d, cell s (.msgq x.1.label.toInt d) = empty

theorem Fits.congr {x : ResEntry × EntryAnswers} (h : Fits s x) (hc : ∀ n, cell t n = cell s n) : Fits t x :=
  ⟨fun n hn htx => (hc n).trans (h.unused n hn htx), h.irq, fun hf d => (hc _).trans (h.frees hf d)⟩

/-- An entry that names a message queue is for one, with that label. -/
theorem isMsgq_of_name {e : ResEntry} {label : Int} {d : Direction} (h : name e = some (.msgq label d)) :
    isMsgq e ∧ e.label.toInt = label := by
  unfold name at h
  unfold isMsgq
  split at h
  · rename_i ht
    simp only [Option.some.injEq, Name.msgq.injEq] at h
    exact ⟨.inl ht, h.1⟩
  · rename_i ht
    simp only [Option.some.injEq, Name.msgq.injEq] at h
    exact ⟨.inr ht, h.1⟩
  · simp at h
  · simp at h
  · cases h

theorem populateEntry_named {x : ResEntry × EntryAnswers} (vmid : VmId) {e : EntryTry} (h : TablesInv s) (hx : Fits s x)
    (hn : name x.1 = some n) (he : e ∈ x.2.tries) :
    Fills n s (populateEntry vmid x.1 (ghRmGetIrq x.1 x.2.irq) s e) ∧
      (∀ virtio, EntryGoesWell virtio x → ¬ Refuses (populateEntry vmid x.1 (ghRmGetIrq x.1 x.2.irq) s e).2) := by
  have hmsgq : ∀ d direction, Direction.ofInt direction = some d → isMsgq x.1 → n = .msgq x.1.label.toInt d →
      ∀ p : Populate, p =
        { label := x.1.label.toInt, capId := x.1.capId, direction := direction,
          irq := ghRmGetIrq x.1 x.2.irq, alloc := e.alloc, irqRet := e.irqRet } →
      Fills n s (populateMsgq s p) ∧ (∀ virtio, EntryGoesWell virtio x → ¬ Refuses (populateMsgq s p).2) := by
    rintro d direction hd hm rfl p hp
    have hempty : queue s.msgq x.1.label.toInt d = empty := hx.unused _ hn fun l => by simp
    have hirq : ghRmGetIrq x.1 x.2.irq ≠ 0 ∨ e.irqRet < 0 := (hx.irq hm).imp_right fun hall => hall e he
    have hfree (hret : e.irqRet < 0) (d' : Direction) : queue s.msgq x.1.label.toInt d' = empty :=
      hx.frees ⟨hm, e, he, hret⟩ d'
    have hfill := populateMsgq_fills h p (d := d)
    subst hp
    obtain ⟨hfills, hwell⟩ := hfill hd hempty hirq hfree
    refine ⟨hfills, fun virtio ⟨hi, hgood⟩ => ?_⟩
    obtain ht | ht := hm
    · rw [ht] at hgood
      exact hwell hgood.1 hi (hgood.2 e he).1 (hgood.2 e he).2
    · rw [ht] at hgood
      exact hwell hgood.1 hi (hgood.2 e he).1 (hgood.2 e he).2
  unfold populateEntry
  unfold name at hn
  cases ht : x.1.resType with
  | mqTx =>
    rw [ht, Option.some.injEq] at hn
    exact hmsgq .tx GH_MSGQ_DIRECTION_TX rfl (.inl ht) hn.symm _ rfl
  | mqRx =>
    rw [ht, Option.some.injEq] at hn
    exact hmsgq .rx GH_MSGQ_DIRECTION_RX rfl (.inr ht) hn.symm _ rfl
  | dbTx =>
    rw [ht, Option.some.injEq] at hn
    subst hn
    obtain ⟨hfills, hwell⟩ := populateDbl_tx h x.1.label x.1.capId (ghRmGetIrq x.1 x.2.irq) e.irqRet
    refine ⟨hfills, fun virtio hgood => ?_⟩
    have hgood := hgood.2
    rw [ht] at hgood
    exact hwell hgood.1 hgood.2
  | dbRx =>
    rw [ht, Option.some.injEq] at hn
    have hempty := hx.unused n (by rw [name, ht, ← hn]) (by rw [← hn]; simp)
    subst hn
    obtain ⟨hfills, hwell⟩ := populateDbl_rx h x.1.label x.1.capId (ghRmGetIrq x.1 x.2.irq) e.irqRet hempty
    refine ⟨hfills, fun virtio hgood => ?_⟩
    have hgood := hgood.2
    rw [ht] at hgood
    exact hwell hgood.1 hgood.2.1 (hgood.2.2 e he)
  | vcpu | vpmgrp | virtioMmio | watchdog | unknown =>
    rw [ht] at hn
    cases hn

theorem resetEntry_named {e : ResEntry} (vmid : VmId) (ret : Int) (h : TablesInv s) (hn : name e = some n) :
    Empties n s ((resetEntry vmid e s ret).1, (resetEntry vmid e s ret).2.1) := by
  unfold resetEntry
  unfold name at hn
  cases ht : e.resType with
  | mqTx =>
    rw [ht, Option.some.injEq] at hn
    subst hn
    exact resetMsgq_empties h _ rfl
  | mqRx =>
    rw [ht, Option.some.injEq] at hn
    subst hn
    exact resetMsgq_empties h _ rfl
  | dbTx =>
    rw [ht, Option.some.injEq] at hn
    subst hn
    exact resetDbl_tx h _
  | dbRx =>
    rw [ht, Option.some.injEq] at hn
    subst hn
    exact resetDbl_rx h _
  | vcpu | vpmgrp | virtioMmio | watchdog | unknown =>
    rw [ht] at hn
    cases hn

end GH.Proof.HypRes
