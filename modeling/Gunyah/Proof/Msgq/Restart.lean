import Gunyah.Proof.Msgq.Queue
import Gunyah.Proof.Msgq.Registry

/-!
# A queue that is taken back and handed out again

`tx_full` and `rx_empty` of an entry are what the last answer or interrupt
made of them (`flag_hist`): nothing else writes them after the entry was
allocated, `gh_msgq_reset_cap_info` included. So a queue that is handed out
again starts as a new one exactly if the old queue left its flag clean
(`restart_iff`).
-/

namespace GH.Proof.Msgq

open GH.Impl GH.Impl.Msgq

variable {s t u : Registry} {a b : Addr} {d d' : Direction} {f : CapTable → CapTable}

/-- `tx_full` and `rx_empty` of a new entry. -/
def allocFlag (d : Direction) : Bool := ({ label := 0 } : CapTable).blocked d

/-- The value an action writes to the flag of a direction of the entry at `a`. -/
def flagWrite (d : Direction) (a : Addr) : RegAct → Option Bool
  | .answer d' b r => if d' = d ∧ b = a then answerFlag d r else none
  | .isr d' b => if d' = d ∧ b = a then some false else none
  | _ => none

/-- The value that was written last. -/
def lastWrite (d : Direction) (a : Addr) (as : List RegAct) : Option Bool := as.reverse.findSome? (flagWrite d a)

theorem lastWrite_snoc (as : List RegAct) (act : RegAct) :
    lastWrite d a (as ++ [act]) = (flagWrite d a act).or (lastWrite d a as) := by
  rw [lastWrite, List.reverse_append, List.reverse_singleton, List.singleton_append, List.findSome?_cons]
  cases flagWrite d a act <;> rfl

/-! ## Steps that write no flag -/

/-- Each entry has its flags from before, or is new. -/
structure Quiet (s t : Registry) : Prop where
  next : s.next ≤ t.next
  flags : ∀ a e, t.entries a = some e →
    (∃ e₀, s.entries a = some e₀ ∧ ∀ d, e.blocked d = e₀.blocked d) ∨
      (s.next ≤ a ∧ a < t.next ∧ ∀ d, e.blocked d = allocFlag d)

theorem Quiet.refl (s : Registry) : Quiet s s := ⟨Nat.le_refl _, fun _ e he => .inl ⟨e, he, fun _ => rfl⟩⟩

theorem Quiet.trans (h : Quiet s t) (h' : Quiet t u) : Quiet s u := by
  refine ⟨Nat.le_trans h.next h'.next, fun a e he => ?_⟩
  obtain ⟨e₁, he₁, hf₁⟩ | ⟨hge, hlt, hf⟩ := h'.flags a e he
  · obtain ⟨e₀, he₀, hf₀⟩ | ⟨hge, hlt, hf⟩ := h.flags a e₁ he₁
    · exact .inl ⟨e₀, he₀, fun d => (hf₁ d).trans (hf₀ d)⟩
    · exact .inr ⟨hge, Nat.lt_of_lt_of_le hlt h'.next, fun d => (hf₁ d).trans (hf d)⟩
  · exact .inr ⟨Nat.le_trans h.next hge, hlt, hf⟩

theorem Quiet.modify (hf : ∀ e d, (f e).blocked d = e.blocked d) (he : t.entries = (s.modify a f).entries)
    (hn : s.next ≤ t.next) : Quiet s t := by
  refine ⟨hn, fun b e hb => .inl ?_⟩
  rw [he] at hb
  by_cases e' : b = a
  · subst e'
    simp only [Registry.modify, Function.update_self] at hb
    obtain ⟨e₀, he₀, rfl⟩ := Option.map_eq_some_iff.mp hb
    exact ⟨e₀, he₀, hf e₀⟩
  · simp only [Registry.modify, Function.update_of_ne e'] at hb
    exact ⟨e, hb, fun _ => rfl⟩

theorem Quiet.free (a : Addr) : Quiet s (s.free a) := by
  refine ⟨Nat.le_refl _, fun b e hb => .inl ⟨e, ?_, fun _ => rfl⟩⟩
  by_cases e' : b = a
  · subst e'
    simp only [Registry.free, Function.update_self] at hb
    cases hb
  · simpa only [Registry.free, Function.update_of_ne e'] using hb

theorem Quiet.alloc (s : Registry) (label : Int) : Quiet s (ghMsgqAllocEntry s label true).1 := by
  refine ⟨Nat.le_succ _, fun b e hb => ?_⟩
  simp only [ghMsgqAllocEntry, if_true] at hb
  by_cases e' : b = s.next
  · subst e'
    simp only [Function.update_self, Option.some.injEq] at hb
    refine .inr ⟨Nat.le_refl _, Nat.lt_succ_self _, fun d => ?_⟩
    rw [← hb]
    cases d <;> rfl
  · simp only [Function.update_of_ne e'] at hb
    exact .inl ⟨e, hb, fun _ => rfl⟩

theorem blocked_setCap (e : CapTable) (capId : BitVec 64) (irq : Int) (d d' : Direction) :
    (e.setCap capId irq d).blocked d' = e.blocked d' := by cases d <;> rfl

theorem Quiet.change (h : Change s t) : Quiet s t := by
  cases h with
  | alloc label hnew => exact .alloc s label
  | cap a capId irq d => exact .modify (fun e d' => blocked_setCap e ..) rfl (Nat.le_refl _)
  | attach label ha hno => exact .modify (fun _ d => by cases d <;> rfl) rfl (Nat.le_succ _)
  | detach hd hc => exact .modify (fun _ d => by cases d <;> rfl) rfl (Nat.le_refl _)

theorem Quiet.changes (h : Changes s t) : Quiet s t := by
  induction h with
  | refl => exact .refl s
  | tail _ hc ih => exact ih.trans (.change hc)

theorem Quiet.populate (s : Registry) (p : Populate) : Quiet s (ghMsgqPopulateCapInfo s p).1 := by
  obtain ⟨t, a, hf, -, ht, -⟩ | ⟨hc, -⟩ := populate_cases s p
  · rw [ht]
    exact (Quiet.changes (findOrAlloc_changes hf).1).trans (.free a)
  · exact .changes hc

/-! ## The flags and the history -/

/-- The flags are what was written last, and nothing was written where the next
objects go. -/
structure FlagHist (as : List RegAct) (s : Registry) : Prop where
  flags : ∀ a e, s.entries a = some e → ∀ d, e.blocked d = (lastWrite d a as).getD (allocFlag d)
  fresh : ∀ a, s.next ≤ a → s.entries a = none ∧ ∀ d, lastWrite d a as = none

theorem FlagHist.quiet {as : List RegAct} {act : RegAct} (h : FlagHist as s) (hq : Quiet s t)
    (hact : ∀ d a, flagWrite d a act = none) : FlagHist (as ++ [act]) t := by
  have hsame : ∀ d a, lastWrite d a (as ++ [act]) = lastWrite d a as := fun d a => by
    rw [lastWrite_snoc, hact, Option.none_or]
  refine ⟨fun a e he d => ?_, fun a ha => ⟨?_, fun d => ?_⟩⟩
  · rw [hsame]
    obtain ⟨e₀, he₀, hf⟩ | ⟨hge, -, hf⟩ := hq.flags a e he
    · rw [hf, h.flags a e₀ he₀]
    · rw [hf, (h.fresh a hge).2, Option.getD_none]
  · cases he : t.entries a with
    | none => rfl
    | some e =>
      obtain ⟨e₀, he₀, -⟩ | ⟨-, hlt, -⟩ := hq.flags a e he
      · rw [(h.fresh a (Nat.le_trans hq.next ha)).1] at he₀
        cases he₀
      · exact absurd hlt (Nat.not_lt.mpr ha)
  · rw [hsame]
    exact (h.fresh a (Nat.le_trans hq.next ha)).2 d

/-- An action that writes a flag of the entry at `a`. -/
theorem FlagHist.write {as : List RegAct} {act : RegAct} (h : FlagHist as s) (ha : s.entries a ≠ none)
    (hself : ∀ e d, (f e).blocked d = (flagWrite d a act).getD (e.blocked d))
    (hother : ∀ b, b ≠ a → ∀ d, flagWrite d b act = none) : FlagHist (as ++ [act]) (s.modify a f) := by
  refine ⟨fun b e hb d => ?_, fun b hb => ⟨?_, fun d => ?_⟩⟩
  · rw [lastWrite_snoc]
    by_cases e' : b = a
    · subst e'
      simp only [Registry.modify, Function.update_self] at hb
      obtain ⟨e₀, he₀, rfl⟩ := Option.map_eq_some_iff.mp hb
      rw [hself, h.flags b e₀ he₀]
      cases flagWrite d b act <;> rfl
    · simp only [Registry.modify, Function.update_of_ne e'] at hb
      rw [hother b e', Option.none_or]
      exact h.flags b e hb d
  · exact entries_modify_eq_none.mpr (h.fresh b hb).1
  · have e' : b ≠ a := by
      rintro rfl
      exact ha (h.fresh b hb).1
    rw [lastWrite_snoc, hother b e', Option.none_or]
    exact (h.fresh b hb).2 d

theorem FlagHist.step {as : List RegAct} {act : RegAct} (h : FlagHist as s) (hs : regStep s act = some t) :
    FlagHist (as ++ [act]) t := by
  cases act with
  | register label alloc desc =>
    cases hs
    exact h.quiet (.changes (register_changes s label alloc desc)) fun _ _ => rfl
  | unregister clientDesc =>
    obtain ⟨⟨t, ret⟩, hret, rfl⟩ := Option.map_eq_some_iff.mp hs
    exact h.quiet (.changes (unregister_changes hret)) fun _ _ => rfl
  | populate p =>
    cases hs
    exact h.quiet (.populate s p) fun _ _ => rfl
  | reset label direction irq =>
    cases hs
    exact h.quiet (.changes (reset_changes s label direction irq)) fun _ _ => rfl
  | answer d a r =>
    obtain ⟨e, he, rfl⟩ := Option.map_eq_some_iff.mp hs
    refine h.write (by rw [he]; simp) (fun e d' => ?_) fun b hb d' => if_neg fun hc => hb hc.2.symm
    by_cases e' : d = d'
    · subst e'
      rw [flagWrite, if_pos ⟨rfl, rfl⟩, answer_blocked]
    · rw [flagWrite, if_neg fun hc => e' hc.1, answer_other _ _ (Ne.symm e'), Option.getD_none]
  | isr d a =>
    obtain ⟨e, he, rfl⟩ := Option.map_eq_some_iff.mp hs
    refine h.write (by rw [he]; simp) (fun e d' => ?_) fun b hb d' => if_neg fun hc => hb hc.2.symm
    by_cases e' : d = d'
    · subst e'
      rw [flagWrite, if_pos ⟨rfl, rfl⟩, ghMsgqIsr, setBlocked_self, Option.getD_some]
    · rw [flagWrite, if_neg fun hc => e' hc.1, ghMsgqIsr, setBlocked_other _ _ (Ne.symm e'), Option.getD_none]

theorem flag_hist {as : List RegAct} (h : exec regStep .init as = some s) : FlagHist as s := by
  refine inv_hist (I := FlagHist) ⟨fun a e he => ?_, fun a _ => ⟨rfl, fun d => rfl⟩⟩ (fun as s act t h hs => ?_) h
  · cases he
  · exact h.step hs

/-! ## Reset and populate -/

/-- The entry at `a` is as a new one in direction `d`: the flag, and for TX
that a send goes on to the hypercall without waiting. -/
def StartsFresh (s : Registry) (a : Addr) (d : Direction) : Prop :=
  ∃ e, s.entries a = some e ∧ e.blocked d = ({ label := e.label } : CapTable).blocked d ∧
    (d = .tx → ∀ args, ghMsgqSend args e false .loop = some .waitReady ∧
      ghMsgqSend args e false .waitReady = some .hcall)

/-- The old queue left its flag clean: the last answer or interrupt did not make
`tx_full` true, or `rx_empty` false. -/
def LeftClean (as : List RegAct) (a : Addr) : Direction → Prop
  | .tx => lastWrite .tx a as ≠ some true
  | .rx => lastWrite .rx a as ≠ some false

instance (as : List RegAct) (a : Addr) : (d : Direction) → Decidable (LeftClean as a d)
  | .tx => inferInstanceAs (Decidable (_ ≠ _))
  | .rx => inferInstanceAs (Decidable (_ ≠ _))

theorem leftClean_iff (as : List RegAct) :
    LeftClean as a d ↔ (lastWrite d a as).getD (allocFlag d) = allocFlag d := by
  cases d with
  | tx => rcases h : lastWrite .tx a as with _ | _ | _ <;> simp [LeftClean, h, allocFlag, CapTable.blocked]
  | rx => rcases h : lastWrite .rx a as with _ | _ | _ <;> simp [LeftClean, h, allocFlag, CapTable.blocked]

theorem startsFresh_iff {e : CapTable} (he : s.entries a = some e) :
    StartsFresh s a d ↔ e.blocked d = allocFlag d := by
  have halloc : ∀ label, ({ label } : CapTable).blocked d = allocFlag d := fun _ => by cases d <;> rfl
  constructor
  · rintro ⟨e', he', hf, -⟩
    rw [he, Option.some.injEq] at he'
    rw [he', hf, halloc]
  · intro hf
    refine ⟨e, he, by rw [hf, halloc], fun hd args => ?_⟩
    subst hd
    have hfalse : e.blocked .tx = false := hf
    constructor
    · rw [ghMsgqSend, ghMsgqXfer, if_neg]
      rw [hfalse]
      simp
    · rw [ghMsgqSend, ghMsgqXfer, if_pos hfalse]

theorem find_modify {label : Int} (hf : ∀ e, (f e).label = e.label) : (s.modify a f).find label = s.find label := by
  simp only [Registry.find, label_modify hf]
  rfl

theorem populate_found {p : Populate} (ha : s.find p.label = some a) (h : ghMsgqPopulateCapInfo s p = (t, 0)) :
    ∃ d, t = s.modify a fun e => e.setCap p.capId p.irq d := by
  unfold ghMsgqPopulateCapInfo at h
  split at h
  · cases h
  split at h
  · cases h
  rw [findOrAlloc_found ha] at h
  dsimp only at h
  split at h
  · rename_i d _
    split at h
    · rename_i hret
      simp only [Prod.mk.injEq] at h
      exact absurd h.2 (Int.ne_of_lt hret)
    · cases h
      exact ⟨d, rfl⟩
  · cases h

theorem entries_modify {e : CapTable} (he : s.entries a = some e) : (s.modify a f).entries a = some (f e) := by
  simp only [Registry.modify, Function.update_self, he, Option.map_some]

/-- After a run with any sends, receives and interrupts, `gh_msgq_reset_cap_info`
and then `gh_msgq_populate_cap_info` succeed for a label and a direction `d`:
the entry starts fresh in that direction exactly if the old queue left its flag
clean. -/
theorem restart_iff (as : List RegAct) (p : Populate) {i : Option Int} (hs : exec regStep .init as = some s)
    (hreset : ghMsgqResetCapInfo s p.label p.direction true = (t, 0, i))
    (hpop : ghMsgqPopulateCapInfo t p = (u, 0)) :
    ∃ a d, Direction.ofInt p.direction = some d ∧ s.find p.label = some a ∧ u.find p.label = some a ∧
      (StartsFresh u a d ↔ LeftClean as a d) := by
  obtain ⟨a, d, _, ha, hd, h⟩ | ⟨ret, hret, h⟩ := reset_cases s p.label p.direction true
  case inr =>
    rw [h] at hreset
    cases hreset
    exact absurd rfl hret
  rw [h] at hreset
  cases hreset
  obtain ⟨e, he, -⟩ := Option.map_eq_some_iff.mp (find_some ha).2
  have ha' := (find_modify (a := a) (fun e => label_setCap e GH_CAPID_INVAL 0 d)).trans ha
  obtain ⟨d', rfl⟩ := populate_found ha' hpop
  have hflag : ∀ c i c' i', ((e.setCap c i d).setCap c' i' d').blocked d = e.blocked d := by
    intro c i c' i'
    rw [blocked_setCap, blocked_setCap]
  refine ⟨a, d, hd, ha, ?_, ?_⟩
  · rw [find_modify fun e => label_setCap e ..]
    exact ha'
  · rw [startsFresh_iff (entries_modify (entries_modify he)), hflag, leftClean_iff, (flag_hist hs).flags a e he]

/-- The queue was full when its VM went away. -/
theorem not_startsFresh_full : ∃ s t u i,
    exec regStep .init [.register 3 true true, .populate { label := 3, capId := 7, direction := 0, irq := 40 },
      .answer .tx 0 ⟨GH_ERROR_MSGQUEUE_FULL, false⟩] = some s ∧
    ghMsgqResetCapInfo s 3 0 true = (t, 0, i) ∧
    ghMsgqPopulateCapInfo t { label := 3, capId := 8, direction := 0, irq := 41 } = (u, 0) ∧
    u.find 3 = some 0 ∧ ¬ StartsFresh u 0 .tx := by
  refine ⟨_, _, _, _, rfl, rfl, rfl, rfl, ?_⟩
  rintro ⟨e, he, hf, -⟩
  cases he
  cases hf

/-- The queue was full, but its TX interrupt came before its VM went away. -/
theorem restart_iff_drained : ∃ s t u i,
    exec regStep .init [.register 3 true true, .populate { label := 3, capId := 7, direction := 0, irq := 40 },
      .answer .tx 0 ⟨GH_ERROR_MSGQUEUE_FULL, false⟩, .isr .tx 0] = some s ∧
    ghMsgqResetCapInfo s 3 0 true = (t, 0, i) ∧
    ghMsgqPopulateCapInfo t { label := 3, capId := 8, direction := 0, irq := 41 } = (u, 0) ∧
    StartsFresh u 0 .tx := by
  refine ⟨_, _, _, _, rfl, rfl, rfl, ?_⟩
  obtain ⟨a, d, hd, -, ha, hiff⟩ := restart_iff [.register 3 true true,
    .populate { label := 3, capId := 7, direction := 0, irq := 40 },
    .answer .tx 0 ⟨GH_ERROR_MSGQUEUE_FULL, false⟩, .isr .tx 0]
    { label := 3, capId := 8, direction := 0, irq := 41 } rfl rfl rfl
  cases hd
  cases ha
  exact hiff.mpr (by decide)

end GH.Proof.Msgq
