import Gunyah.Spec.MemNotifier
import Gunyah.Framework.Run

/-!
# Notifications and registrations in any order

Each event adds to the history, and what it adds is read off `registered_cons`: the
table changes with it (`Inv.register`, `Inv.unregister`). A notification finds what
the table holds (`found_iff`). `Inv` has the numbers of the notifications too:
each is given once, and only a notification that is pending calls a handler.
-/

namespace GH.Proof.MemNotifier

open GH.Impl GH.Impl.Handlers GH.Impl.MemNotifier GH.Spec.MemNotifier
open GH.Impl.Rm (ReadM)

variable {s t : Notifier} {hist past : List Event} {e : Event} {tag : Nat} {handler data : Addr} {n n' : Notif}

theorem registered_cons : Registered (e :: hist) tag handler data ↔
    e = .registered tag handler data ∨ (e ≠ .unregistered tag ∧ Registered hist tag handler data) :=
  since_cons_iff

/-- An event that is not about registrations. -/
theorem registered_skip (h : ∀ handler data, e ≠ .registered tag handler data) (h' : e ≠ .unregistered tag) :
    Registered (e :: hist) tag handler data ↔ Registered hist tag handler data := by
  simp only [registered_cons, h, h', false_or, ne_eq, not_false_eq_true, true_and]

theorem found_iff (entries : MemNotifierEntries) (n : Notif) :
    ((ghMemNotifierCall entries n.action).val n.msg).2 = some (handler, data) ↔
      Interesting n.action ∧ ∃ tag : Tag, tag.val = n.tag ∧ entries tag = (some handler, data) := by
  unfold ghMemNotifierCall
  split
  case isTrue h =>
    refine iff_of_false nofun fun hi => ?_
    rcases hi.1 with hi | hi | hi
    exacts [h.1 hi, h.2.1 hi, h.2.2 hi]
  case isFalse h =>
    have hi : Interesting n.action := by unfold Interesting; tauto
    rw [ReadM.val_bind, and_iff_right hi]
    split
    case isTrue ht =>
      rw [ReadM.val_pure]
      constructor
      · intro hf
        obtain ⟨handler', he, hp⟩ := Option.map_eq_some_iff.mp hf
        obtain ⟨rfl, rfl⟩ := Prod.mk.inj hp
        exact ⟨⟨_, ht⟩, rfl, Prod.ext he rfl⟩
      · rintro ⟨tag, htag, he⟩
        have htag : tag = ⟨_, ht⟩ := Fin.ext htag
        rw [← htag, he]
        rfl
    case isFalse ht =>
      refine iff_of_false nofun fun ⟨tag, htag, _⟩ => ht ?_
      exact lt_of_eq_of_lt htag.symm tag.isLt

theorem registered_cases (s : Notifier) (tag : BitVec 32) (handler : Option Addr) (data : Addr) :
    (GH_MEM_NOTIFIER_TAG_MAX ≤ tag.toNat ∨ handler = none) ∧
        s.registered tag handler data = { s with hist := .refused tag handler (-EINVAL) :: s.hist } ∨
      ∃ (ht : tag.toNat < GH_MEM_NOTIFIER_TAG_MAX) (handler' : Addr),
        (∃ old : Addr × Addr, s.entries ⟨tag.toNat, ht⟩ = (some old.1, old.2)) ∧
            s.registered tag handler data = { s with hist := .refused tag handler (-EEXIST) :: s.hist } ∨
          (s.entries ⟨tag.toNat, ht⟩).1 = none ∧
            s.registered tag handler data =
              { s with
                entries := Function.update s.entries ⟨tag.toNat, ht⟩ (some handler', data)
                hist := .registered tag.toNat handler' data :: s.hist } := by
  unfold Notifier.registered ghMemNotifierRegister
  by_cases ht : tag.toNat < GH_MEM_NOTIFIER_TAG_MAX
  · rw [dif_pos ht]
    cases handler with
    | none => exact .inl ⟨.inr rfl, rfl⟩
    | some handler =>
      refine .inr ⟨ht, handler, ?_⟩
      rcases he : s.entries ⟨tag.toNat, ht⟩ with ⟨_ | old, data'⟩
      · exact .inr ⟨rfl, rfl⟩
      · exact .inl ⟨⟨(old, data'), rfl⟩, rfl⟩
  · rw [dif_neg ht]
    exact .inl ⟨.inl (not_lt.mp ht), rfl⟩

/-! ## What every step keeps -/

/-- What `Right` says, and how the notifications are numbered. -/
structure Inv (s : Notifier) : Prop extends Right s where
  valid : ∀ tag handler data, .registered tag handler data ∈ s.hist → tag < GH_MEM_NOTIFIER_TAG_MAX
  old : ∀ n found, .looked n found ∈ s.hist → n.i < s.next
  unique : ∀ n found n' found', .looked n found ∈ s.hist → .looked n' found' ∈ s.hist → n.i = n'.i → n = n'
  pend : ∀ i n handler data, s.pending i = some (n, handler, data) →
    n.i = i ∧ i < s.next ∧ ∃ past, .looked n (some (handler, data)) :: past <:+ s.hist

theorem inv_init : Inv {} where
  table tag handler data := iff_of_false nofun since_nil
  events e past h := by simp at h
  once n found h := by simp at h
  valid tag handler data h := by simp at h
  old n found h := by simp at h
  unique n found n' found' h := by simp at h
  pend i n handler data h := by simp at h

theorem events_cons (h : ∀ e past, e :: past <:+ hist → EventRight e past) (he : EventRight e hist) :
    ∀ e' past, e' :: past <:+ e :: hist → EventRight e' past := by
  intro e' past hs
  rcases List.suffix_cons_iff.mp hs with hs | hs
  · obtain ⟨rfl, rfl⟩ := List.cons.inj hs
    exact he
  · exact h e' past hs

/-- A notification calls nothing before it has looked. -/
theorem calls_fresh (h : Inv s) (hn : s.next ≤ n.i) : calls s.hist n = 0 := by
  rw [calls, List.countP_eq_zero]
  intro e he hc
  split at hc
  case h_2 => simp at hc
  case h_1 n' handler data =>
    simp only [decide_eq_true_eq] at hc
    subst hc
    obtain ⟨newer, past, hpast⟩ := List.append_of_mem he
    obtain ⟨past', hs, -⟩ := h.events (.called n' handler data) past ⟨newer, hpast.symm⟩
    have hold := h.old n' (some (handler, data))
      (hpast ▸ List.mem_append_right newer (List.mem_cons_of_mem _ (hs.subset List.mem_cons_self)))
    omega

theorem registered_mem (h : Registered hist tag handler data) : .registered tag handler data ∈ hist := by
  obtain ⟨newer, older, rfl, -⟩ := h
  exact List.mem_append_right newer List.mem_cons_self

/-- An event that is not about a notification, with the entries after it. -/
theorem Inv.entries (h : Inv s) {entries : MemNotifierEntries} (he : EventRight e s.hist)
    (hn : ∀ n found, e ≠ .looked n found) (hc : ∀ n handler data, e ≠ .called n handler data)
    (hv : ∀ tag handler data, e = .registered tag handler data → tag < GH_MEM_NOTIFIER_TAG_MAX)
    (ht : ∀ (tag : Tag) handler data,
      entries tag = (some handler, data) ↔ Registered (e :: s.hist) tag handler data) :
    Inv { s with entries, hist := e :: s.hist } where
  table := ht
  events := events_cons h.events he
  once n found hl := by
    have hcalls : calls (e :: s.hist) n = calls s.hist n := by
      rw [calls, List.countP_cons_of_neg]
      · rfl
      · cases e
        case called => exact absurd rfl (hc _ _ _)
        all_goals nofun
    show calls (e :: s.hist) n + _ = _
    rw [hcalls]
    exact h.once n found ((List.mem_cons.mp hl).resolve_left (hn n found).symm)
  valid tag handler data hr := by
    rcases List.mem_cons.mp hr with hr | hr
    · exact hv tag handler data hr.symm
    · exact h.valid tag handler data hr
  old n found hl := h.old n found ((List.mem_cons.mp hl).resolve_left (hn n found).symm)
  unique n found n' found' hl hl' := h.unique n found n' found'
    ((List.mem_cons.mp hl).resolve_left (hn n found).symm) ((List.mem_cons.mp hl').resolve_left (hn n' found').symm)
  pend i n handler data hp := by
    obtain ⟨hi, hlt, past, hs⟩ := h.pend i n handler data hp
    exact ⟨hi, hlt, past, hs.trans (List.suffix_cons _ _)⟩

theorem Inv.register (h : Inv s) (tag : BitVec 32) (handler : Option Addr) (data : Addr) :
    Inv (s.registered tag handler data) := by
  have hsame : ∀ e : Event, (∀ tag handler data, e ≠ .registered tag handler data) → (∀ tag, e ≠ .unregistered tag) →
      ∀ (tag : Tag) handler data, s.entries tag = (some handler, data) ↔ Registered (e :: s.hist) tag handler data :=
    fun e he he' tag handler data => by
      rw [registered_skip (he _) (he' _)]
      exact h.table tag handler data
  rcases registered_cases s tag handler data with ⟨hbad, hr⟩ | ⟨ht, handler', ⟨⟨old, hold⟩, hr⟩ | ⟨hnone, hr⟩⟩
  · rw [hr]
    exact h.entries (.inl ⟨rfl, hbad⟩) nofun nofun nofun (hsame _ nofun nofun)
  · rw [hr]
    exact h.entries (.inr ⟨rfl, old.1, old.2, (h.table ⟨tag.toNat, ht⟩ _ _).mp hold⟩) nofun nofun nofun
      (hsame _ nofun nofun)
  rw [hr]
  have hfree : ∀ handler data, ¬ Registered s.hist tag.toNat handler data := by
    intro handler data hreg
    rw [(h.table ⟨tag.toNat, ht⟩ handler data).mpr hreg] at hnone
    cases hnone
  refine h.entries ⟨ht, hfree⟩ nofun nofun (fun _ _ _ he => (Event.registered.inj he).1 ▸ ht) fun tag' handler data => ?_
  rw [registered_cons]
  by_cases htag : tag' = ⟨tag.toNat, ht⟩
  · subst htag
    simp only [Function.update_self, hfree, and_false, or_false, Event.registered.injEq, true_and, Prod.mk.injEq,
      Option.some.injEq]
  · have hval : ¬ tag.toNat = tag'.val := fun hv => htag (Fin.ext hv.symm)
    simp only [Function.update_of_ne htag, h.table tag' handler data, Event.registered.injEq, hval, false_and,
      false_or, ne_eq, reduceCtorEq, not_false_eq_true, true_and]

theorem Inv.unregister (h : Inv s) (tag : Tag) :
    Inv { s with entries := Function.update s.entries tag (none, 0), hist := .unregistered tag :: s.hist } := by
  refine h.entries trivial nofun nofun nofun fun tag' handler data => ?_
  rw [registered_cons]
  by_cases htag : tag' = tag
  · subst htag
    simp
  · have hval : ¬ tag.val = tag'.val := fun hv => htag (Fin.ext hv.symm)
    simp only [Function.update_of_ne htag, h.table tag' handler data, reduceCtorEq, false_or, ne_eq,
      Event.unregistered.injEq, hval, not_false_eq_true, true_and]

theorem Inv.notify (h : Inv s) (hn : n.i = s.next) :
    Inv (s.looked n ((ghMemNotifierCall s.entries n.action).val n.msg).2) := by
  generalize hf : ((ghMemNotifierCall s.entries n.action).val n.msg).2 = found
  have hright : EventRight (.looked n found) s.hist := by
    intro handler data
    rw [← hf, found_iff]
    refine and_congr_right fun _ => ⟨?_, fun hreg => ?_⟩
    · rintro ⟨tag, htag, he⟩
      exact htag ▸ (h.table tag handler data).mp he
    · exact ⟨⟨n.tag, h.valid _ _ _ (registered_mem hreg)⟩, rfl, (h.table _ handler data).mpr hreg⟩
  have hnew : ∀ n' found', .looked n' found' ∈ s.hist → n'.i ≠ n.i := by
    intro n' found' hl
    have := h.old n' found' hl
    omega
  refine { table := ?_, events := events_cons h.events hright, once := ?_, valid := ?_, old := ?_, unique := ?_, pend := ?_ }
  · intro tag handler data
    show s.entries tag = _ ↔ Registered (.looked n found :: s.hist) _ _ _
    rw [registered_skip (e := .looked n found) nofun nofun]
    exact h.table tag handler data
  · intro n' found' hl
    show calls (.looked n found :: s.hist) n' + (if (Function.update s.pending n.i _ n'.i).isSome then 1 else 0) = _
    have hcalls : calls (.looked n found :: s.hist) n' = calls s.hist n' := by
      rw [calls, List.countP_cons_of_neg (by simp)]
      rfl
    rw [hcalls]
    rcases List.mem_cons.mp hl with hl | hl
    · obtain ⟨rfl, rfl⟩ := Event.looked.inj hl
      rw [calls_fresh h (by omega), Function.update_self, Option.isSome_map, Nat.zero_add]
    · rw [Function.update_of_ne (hnew n' found' hl)]
      exact h.once n' found' hl
  · intro tag handler data hr
    exact h.valid tag handler data ((List.mem_cons.mp hr).resolve_left nofun)
  · intro n' found' hl
    show n'.i < s.next + 1
    rcases List.mem_cons.mp hl with hl | hl
    · rw [(Event.looked.inj hl).1]
      omega
    · have := h.old n' found' hl
      omega
  · intro n₁ found₁ n₂ found₂ hl₁ hl₂ hi
    rcases List.mem_cons.mp hl₁ with hl₁ | hl₁ <;> rcases List.mem_cons.mp hl₂ with hl₂ | hl₂
    · rw [(Event.looked.inj hl₁).1, (Event.looked.inj hl₂).1]
    · rw [(Event.looked.inj hl₁).1] at hi
      exact absurd hi.symm (hnew n₂ found₂ hl₂)
    · rw [(Event.looked.inj hl₂).1] at hi
      exact absurd hi (hnew n₁ found₁ hl₁)
    · exact h.unique n₁ found₁ n₂ found₂ hl₁ hl₂ hi
  · intro i n' handler data hp
    change Function.update s.pending n.i (found.map (n, ·)) i = _ at hp
    show n'.i = i ∧ i < s.next + 1 ∧ ∃ past, _ <:+ .looked n found :: s.hist
    by_cases hi : i = n.i
    · subst hi
      rw [Function.update_self] at hp
      obtain ⟨_, rfl, he⟩ := Option.map_eq_some_iff.mp hp
      obtain ⟨rfl, rfl⟩ := Prod.mk.inj he
      exact ⟨rfl, by omega, s.hist, List.suffix_rfl⟩
    · rw [Function.update_of_ne hi] at hp
      obtain ⟨hi, hlt, past, hs⟩ := h.pend i n' handler data hp
      exact ⟨hi, by omega, past, hs.trans (List.suffix_cons _ _)⟩

theorem Inv.call (h : Inv s) {i : Nat} (hp : s.pending i = some (n, handler, data)) :
    Inv { s with pending := Function.update s.pending i none, hist := .called n handler data :: s.hist } := by
  obtain ⟨rfl, hlt, past, hs⟩ := h.pend i n handler data hp
  have hright : EventRight (.called n handler data) s.hist :=
    ⟨past, hs, ((h.events _ _ hs handler data).mp rfl).2⟩
  have hlooked : .looked n (some (handler, data)) ∈ s.hist := hs.subset List.mem_cons_self
  refine { table := ?_, events := events_cons h.events hright, once := ?_, valid := ?_, old := ?_, unique := ?_, pend := ?_ }
  · intro tag handler' data'
    show s.entries tag = _ ↔ Registered (.called n handler data :: s.hist) _ _ _
    rw [registered_skip (e := .called n handler data) nofun nofun]
    exact h.table tag handler' data'
  · intro n' found hl
    have hl : .looked n' found ∈ s.hist := (List.mem_cons.mp hl).resolve_left nofun
    have hOnce := h.once n' found hl
    show calls (.called n handler data :: s.hist) n' + (if (Function.update s.pending n.i none n'.i).isSome then 1 else 0) = _
    by_cases hn : n = n'
    · subst hn
      rw [hp] at hOnce
      rw [← hOnce, Function.update_self, calls, List.countP_cons_of_pos (by simp)]
      rfl
    · have hi : n'.i ≠ n.i := fun hi => hn (h.unique n _ n' _ hlooked hl hi.symm)
      rw [Function.update_of_ne hi, calls, List.countP_cons_of_neg (by simpa using hn)]
      exact hOnce
  · intro tag handler' data' hr
    exact h.valid tag handler' data' ((List.mem_cons.mp hr).resolve_left nofun)
  · intro n' found hl
    exact h.old n' found ((List.mem_cons.mp hl).resolve_left nofun)
  · intro n₁ found₁ n₂ found₂ hl₁ hl₂
    exact h.unique n₁ found₁ n₂ found₂ ((List.mem_cons.mp hl₁).resolve_left nofun)
      ((List.mem_cons.mp hl₂).resolve_left nofun)
  · intro i n' handler' data' hp'
    change Function.update s.pending n.i none i = _ at hp'
    by_cases hi : i = n.i
    · subst hi
      rw [Function.update_self] at hp'
      cases hp'
    · rw [Function.update_of_ne hi] at hp'
      obtain ⟨hi, hlt, past, hs⟩ := h.pend i n' handler' data' hp'
      exact ⟨hi, hlt, past, hs.trans (List.suffix_cons _ _)⟩

theorem inv_step (s : Notifier) (a : Act) (t : Notifier) (h : Inv s) (ht : step s a = some t) : Inv t := by
  cases a with
  | register tag handler data =>
    cases ht
    exact h.register tag handler data
  | unregister cookie =>
    cases ht
    cases cookie with
    | none => exact h
    | some tag => exact h.unregister tag
  | notify action msg =>
    cases ht
    exact Inv.notify (n := ⟨s.next, action, msg⟩) h rfl
  | call i =>
    obtain ⟨⟨n, handler, data⟩, hp, rfl⟩ := Option.map_eq_some_iff.mp ht
    exact h.call hp

/-- In every run, a notification calls the handler that was registered for its tag when it looked,
and calls it once. -/
theorem registered_handler_called (as : List Act) : Always step Right {} as := by
  intro bs cs t _ ht
  exact (inv_exec inv_step inv_init ht).toRight

end GH.Proof.MemNotifier
