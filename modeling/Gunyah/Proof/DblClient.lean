import Mathlib.Tactic.Common
import Gunyah.Spec.DblClient
import Gunyah.Framework.Run

/-!
# The registrations of doorbells

What each of the four functions does is a `DblMove`: nothing, or it makes a
registration, or drops one, and each looks at the other direction before it
allocates or frees the descriptor. Every such move keeps that an entry has a
descriptor exactly while one of its clients is registered (`DblInv`), so the
descriptor is freed with the last of them (`doorbell_registrations`).
-/

namespace GH.Proof.Dbl

open GH.Impl GH.Impl.Dbl GH.Spec.Dbl

/-- The table and the descriptors that are allocated agree with the registrations. -/
structure DblInv (s : DblState) : Prop where
  regs : ∀ dir l, s.regs dir l = if regDone (s.clients.table l) dir then (s.clients.table l).clientDesc else none
  desc : ∀ l, (s.clients.table l).clientDesc ≠ none ↔ ∃ dir, regDone (s.clients.table l) dir = true
  own : ∀ l d, (s.clients.table l).clientDesc = some d →
    ∃ label, s.clients.descs d = some label ∧ label.toNat = l.val
  live : ∀ d, s.clients.descs d ≠ none → ∃ l, (s.clients.table l).clientDesc = some d

theorem DblInv.init (initialized : Bool) : DblInv (.init initialized) where
  regs dir l := by cases dir <;> rfl
  desc l := by
    refine iff_of_false (fun h => h rfl) ?_
    rintro ⟨dir, hdir⟩
    cases dir <;> cases hdir
  own l d h := by cases h
  live d h := absurd rfl h

theorem exists_dir {p : Dir → Prop} : (∃ dir, p dir) ↔ p .tx ∨ p .rx := by
  constructor
  · rintro ⟨_ | _, h⟩
    · exact .inl h
    · exact .inr h
  · rintro (h | h)
    · exact ⟨_, h⟩
    · exact ⟨_, h⟩

variable {s t : DblState}

/-! ## What the invariant gives -/

/-- A registration has the descriptor of its entry. -/
theorem DblInv.reg_some (h : DblInv s) {dir : Dir} {l : Label} {d : Addr} (hr : s.regs dir l = some d) :
    regDone (s.clients.table l) dir = true ∧ (s.clients.table l).clientDesc = some d := by
  rw [h.regs] at hr
  split at hr
  · rename_i hdone
    exact ⟨hdone, hr⟩
  · cases hr

/-- The descriptor of an entry serves a registration of the entry. -/
theorem DblInv.served (h : DblInv s) {l : Label} {d : Addr} (hd : (s.clients.table l).clientDesc = some d) :
    ∃ dir, s.regs dir l = some d := by
  obtain ⟨dir, hdir⟩ := (h.desc l).mp (by rw [hd]; nofun)
  exact ⟨dir, by rw [h.regs, if_pos hdir, hd]⟩

/-- Two entries have different descriptors. -/
theorem DblInv.desc_unique (h : DblInv s) {l l' : Label} {d : Addr} (hl : (s.clients.table l).clientDesc = some d)
    (hl' : (s.clients.table l').clientDesc = some d) : l = l' := by
  obtain ⟨label, hlabel, he⟩ := h.own l d hl
  obtain ⟨label', hlabel', he'⟩ := h.own l' d hl'
  rw [hlabel, Option.some.injEq] at hlabel'
  exact Fin.ext (by rw [← he, ← he', hlabel'])

theorem DblInv.live_iff (h : DblInv s) (d : Addr) : s.clients.descs d ≠ none ↔ Serves s d := by
  constructor
  · intro hd
    obtain ⟨l, hl⟩ := h.live d hd
    obtain ⟨dir, hdir⟩ := h.served hl
    exact ⟨dir, l, hdir⟩
  · rintro ⟨dir, l, hr⟩
    obtain ⟨label, hlabel, -⟩ := h.own l d (h.reg_some hr).2
    rw [hlabel]
    nofun

theorem DblInv.registered (h : DblInv s) : Registered s where
  flags dir l := by
    rw [h.regs]
    split
    · rename_i hdone
      have := (h.desc l).mpr ⟨dir, hdone⟩
      rw [hdone, Option.isSome_iff_ne_none.mpr this]
    · rename_i hdone
      rw [Option.isSome_none]
      exact Bool.eq_false_iff.mpr hdone
  desc l := (h.desc l).trans exists_dir
  shared l d d' hd hd' := by
    have := (h.reg_some hd).2.symm.trans (h.reg_some hd').2
    exact Option.some.inj this
  live := h.live_iff
  label := h.own
  apart _ _ _ _ _ hr hr' := h.desc_unique (h.reg_some hr).2 (h.reg_some hr').2

/-! ## Moves -/

/-- What a function does: nothing, or it makes or drops the registration of one
direction. -/
inductive DblMove (s : DblState) : Option Addr → DblState → Prop where
  | same (p : Option Addr) : DblMove s p s
  | register (dir : Dir) (l : Label) (d : Addr) (e : ClientEntry) (descs : Addr → Option (BitVec 32))
      (hreg : regDone e = Function.update (regDone (s.clients.table l)) dir true) (he : e.clientDesc = some d)
      (hd : (s.clients.table l).clientDesc = some d ∧ descs = s.clients.descs ∨
        (s.clients.table l).clientDesc = none ∧ s.clients.descs d = none ∧
          ∃ label, label.toNat = l.val ∧ descs = Function.update s.clients.descs d (some label)) :
      DblMove s none ⟨{ s.clients.set l e with descs := descs },
        Function.update s.regs dir (Function.update (s.regs dir) l (some d))⟩
  | unregister (dir : Dir) (l : Label) (d : Addr) (e : ClientEntry) (descs : Addr → Option (BitVec 32))
      (hl : (s.clients.table l).clientDesc = some d)
      (hreg : regDone e = Function.update (regDone (s.clients.table l)) dir false)
      (hd : (∃ dir, regDone e dir = true) ∧ e.clientDesc = some d ∧ descs = s.clients.descs ∨
        (∀ dir, regDone e dir = false) ∧ e.clientDesc = none ∧ descs = Function.update s.clients.descs d none) :
      DblMove s (some d) ⟨{ s.clients.set l e with descs := descs },
        Function.update s.regs dir (Function.update (s.regs dir) l none)⟩

theorem regs_update {regs : Dir → Label → Option Addr} {dir dir' : Dir} {l l' : Label} {x : Option Addr} :
    Function.update regs dir (Function.update (regs dir) l x) dir' l' =
      if dir' = dir ∧ l' = l then x else regs dir' l' := by
  by_cases hdir : dir' = dir
  · subst hdir
    by_cases hl : l' = l
    · subst hl
      simp
    · simp [hl]
  · simp [hdir]

/-- The registrations of an entry, after one of them is made or dropped, have its
descriptor. -/
theorem DblInv.regs_move (h : DblInv s) {dir : Dir} {l : Label} {e : ClientEntry} {b : Bool} {x : Option Addr}
    (hreg : regDone e = Function.update (regDone (s.clients.table l)) dir b) (hx : x = if b then e.clientDesc else none)
    (hkept : (s.clients.table l).clientDesc ≠ none → (∃ dir, regDone e dir = true) →
      e.clientDesc = (s.clients.table l).clientDesc) :
    ∀ dir' l', Function.update s.regs dir (Function.update (s.regs dir) l x) dir' l' =
      if regDone (Function.update s.clients.table l e l') dir' then
        (Function.update s.clients.table l e l').clientDesc else none := by
  intro dir' l'
  rw [regs_update]
  by_cases hl : l' = l
  · subst hl
    rw [Function.update_self]
    by_cases hdir : dir' = dir
    · subst hdir
      rw [if_pos ⟨rfl, rfl⟩, hx, hreg, Function.update_self]
    · have hsame : regDone e dir' = regDone (s.clients.table l') dir' := by rw [hreg, Function.update_of_ne hdir]
      rw [if_neg fun h => hdir h.1, h.regs, hsame]
      by_cases hdone : regDone (s.clients.table l') dir' = true
      · rw [if_pos hdone, if_pos hdone, hkept ((h.desc l').mpr ⟨dir', hdone⟩) ⟨dir', hsame.trans hdone⟩]
      · rw [if_neg hdone, if_neg hdone]
  · rw [if_neg fun h => hl h.2, Function.update_of_ne hl]
    exact h.regs dir' l'

/-- An entry is changed, and the descriptors are, but for those of the other
entries. -/
theorem DblInv.setEntry (h : DblInv s) {l : Label} {e : ClientEntry} {descs : Addr → Option (BitVec 32)}
    {regs : Dir → Label → Option Addr}
    (hregs : ∀ dir' l', regs dir' l' =
      if regDone (Function.update s.clients.table l e l') dir' then
        (Function.update s.clients.table l e l').clientDesc else none)
    (hdesc : e.clientDesc ≠ none ↔ ∃ dir, regDone e dir = true)
    (hown : ∀ d, e.clientDesc = some d → ∃ label, descs d = some label ∧ label.toNat = l.val)
    (hkept : ∀ l' d, l' ≠ l → (s.clients.table l').clientDesc = some d → descs d = s.clients.descs d)
    (hlive : ∀ d, descs d ≠ none →
      e.clientDesc = some d ∨ s.clients.descs d ≠ none ∧ (s.clients.table l).clientDesc ≠ some d) :
    DblInv ⟨{ s.clients.set l e with descs := descs }, regs⟩ where
  regs := hregs
  desc := (Function.forall_update_iff s.clients.table fun _ e =>
    e.clientDesc ≠ none ↔ ∃ dir, regDone e dir = true).mpr ⟨hdesc, fun l' _ => h.desc l'⟩
  own := by
    refine (Function.forall_update_iff s.clients.table fun l e =>
      ∀ d, e.clientDesc = some d → ∃ label, descs d = some label ∧ label.toNat = l.val).mpr
        ⟨hown, fun l' hl' d hd => ?_⟩
    rw [hkept l' d hl' hd]
    exact h.own l' d hd
  live d hd := by
    rcases hlive d hd with he | ⟨hold, hne⟩
    · exact ⟨l, by simp [Clients.set, he]⟩
    · obtain ⟨l', hl'⟩ := h.live d hold
      have hll : l' ≠ l := by
        rintro rfl
        exact hne hl'
      exact ⟨l', by simpa [Clients.set, Function.update_of_ne hll] using hl'⟩

theorem DblInv.register (h : DblInv s) {dir : Dir} {l : Label} {d : Addr} {e : ClientEntry}
    {descs : Addr → Option (BitVec 32)} (hreg : regDone e = Function.update (regDone (s.clients.table l)) dir true)
    (he : e.clientDesc = some d)
    (hd : (s.clients.table l).clientDesc = some d ∧ descs = s.clients.descs ∨
      (s.clients.table l).clientDesc = none ∧ s.clients.descs d = none ∧
        ∃ label, label.toNat = l.val ∧ descs = Function.update s.clients.descs d (some label)) :
    DblInv ⟨{ s.clients.set l e with descs := descs },
      Function.update s.regs dir (Function.update (s.regs dir) l (some d))⟩ := by
  have hdesc : e.clientDesc ≠ none ↔ ∃ dir, regDone e dir = true :=
    iff_of_true (by rw [he]; nofun) ⟨dir, by rw [hreg, Function.update_self]⟩
  refine h.setEntry (h.regs_move hreg (by rw [if_pos rfl, he]) fun hne _ => ?_) hdesc ?_ ?_ ?_
  · rcases hd with ⟨hd, -⟩ | ⟨hd, -⟩
    · rw [he, hd]
    · exact absurd hd hne
  · intro d' hd'
    rw [he, Option.some.injEq] at hd'
    subst hd'
    rcases hd with ⟨hd, rfl⟩ | ⟨-, -, label, hlabel, rfl⟩
    · exact h.own l _ hd
    · exact ⟨label, Function.update_self .., hlabel⟩
  · intro l' d' _ hd'
    rcases hd with ⟨-, rfl⟩ | ⟨-, hnone, label, -, rfl⟩
    · rfl
    · -- a new descriptor is that of no other entry
      have hne : d' ≠ d := by
        rintro rfl
        obtain ⟨label', hlabel', -⟩ := h.own l' d' hd'
        rw [hnone] at hlabel'
        cases hlabel'
      exact Function.update_of_ne hne _ _
  · intro d' hd'
    by_cases hdd : d' = d
    · exact .inl (hdd ▸ he)
    right
    rcases hd with ⟨hd, rfl⟩ | ⟨hd, -, label, -, rfl⟩
    · refine ⟨hd', fun h' => hdd ?_⟩
      rw [hd, Option.some.injEq] at h'
      exact h'.symm
    · rw [Function.update_of_ne hdd] at hd'
      exact ⟨hd', by rw [hd]; nofun⟩

theorem DblInv.unregister (h : DblInv s) {dir : Dir} {l : Label} {d : Addr} {e : ClientEntry}
    {descs : Addr → Option (BitVec 32)} (hl : (s.clients.table l).clientDesc = some d)
    (hreg : regDone e = Function.update (regDone (s.clients.table l)) dir false)
    (hd : (∃ dir, regDone e dir = true) ∧ e.clientDesc = some d ∧ descs = s.clients.descs ∨
      (∀ dir, regDone e dir = false) ∧ e.clientDesc = none ∧ descs = Function.update s.clients.descs d none) :
    DblInv ⟨{ s.clients.set l e with descs := descs },
      Function.update s.regs dir (Function.update (s.regs dir) l none)⟩ := by
  rcases hd with ⟨hsome, hd, rfl⟩ | ⟨hno, hd, rfl⟩
  · -- the other client is still registered, and keeps the descriptor
    refine h.setEntry (h.regs_move hreg rfl fun _ _ => hd.trans hl.symm) (iff_of_true (by rw [hd]; nofun) hsome)
      (fun d' hd' => h.own l d' (by rw [hl, ← hd, hd'])) (fun _ _ _ _ => rfl) fun d' hd' => ?_
    by_cases hdd : d' = d
    · exact .inl (hdd ▸ hd)
    · refine .inr ⟨hd', fun h' => hdd ?_⟩
      rw [hl, Option.some.injEq] at h'
      exact h'.symm
  · have hnone : ¬ ∃ dir, regDone e dir = true := by simp [hno]
    refine h.setEntry (h.regs_move hreg rfl fun _ he => absurd he hnone) (iff_of_false (fun hne => hne hd) hnone)
      (by rw [hd]; nofun) (fun l' d' hl' hd' => ?_) fun d' hd' => ?_
    · have hne : d' ≠ d := by
        rintro rfl
        exact hl' (h.desc_unique hd' hl)
      exact Function.update_of_ne hne _ _
    · have hdd : d' ≠ d := by
        rintro rfl
        exact hd' (Function.update_self ..)
      rw [Function.update_of_ne hdd] at hd'
      refine .inr ⟨hd', fun h' => hdd ?_⟩
      rw [hl, Option.some.injEq] at h'
      exact h'.symm

theorem DblInv.move {p : Option Addr} (h : DblInv s) (hm : DblMove s p t) : DblInv t := by
  cases hm with
  | same => exact h
  | register dir l d e descs hreg he hd => exact h.register hreg he hd
  | unregister dir l d e descs hl hreg hd => exact h.unregister hl hreg hd

/-! ## The functions -/

theorem regDone_tx {e e' : ClientEntry} {b : Bool} (htx : e'.txRegDone = b) (hrx : e'.rxRegDone = e.rxRegDone) :
    regDone e' = Function.update (regDone e) .tx b := by
  funext dir
  cases dir with
  | tx => rw [Function.update_self, regDone, htx]
  | rx => rw [Function.update_of_ne (show Dir.rx ≠ .tx by decide), regDone, hrx, regDone]

theorem regDone_rx {e e' : ClientEntry} {b : Bool} (hrx : e'.rxRegDone = b) (htx : e'.txRegDone = e.txRegDone) :
    regDone e' = Function.update (regDone e) .rx b := by
  funext dir
  cases dir with
  | tx => rw [Function.update_of_ne (show Dir.tx ≠ .rx by decide), regDone, htx, regDone]
  | rx => rw [Function.update_self, regDone, hrx]

/-- The descriptor of an entry is the one that it has, or a new one. -/
theorem clientDesc_some {c c' : Clients} {l : Label} {label : BitVec 32} {alloc : Option Addr} {d : Addr}
    (hl : label.toNat = l.val) (hf : ∀ d ∈ alloc, c.descs d = none)
    (h : c.clientDesc l label alloc = some (c', d)) :
    ∃ descs, (∀ f : ClientEntry → ClientEntry, c'.set l (f (c'.table l)) =
        { c.set l (f { c.table l with clientDesc := some d }) with descs := descs }) ∧
      ((c.table l).clientDesc = some d ∧ descs = c.descs ∨
        (c.table l).clientDesc = none ∧ c.descs d = none ∧
          ∃ label, label.toNat = l.val ∧ descs = Function.update c.descs d (some label)) := by
  unfold Clients.clientDesc at h
  split at h
  · rename_i d' hd'
    cases h
    refine ⟨c.descs, fun f => ?_, .inl ⟨hd', rfl⟩⟩
    rw [← hd']
    rfl
  · rename_i hnone
    obtain ⟨d', hd', he⟩ := Option.map_eq_some_iff.mp h
    cases he
    refine ⟨_, fun f => ?_, .inr ⟨hnone, hf d hd', label, hl, rfl⟩⟩
    simp [Clients.set]

/-- A register function, once it has got the descriptor. -/
theorem registered_move {dir : Dir} {label : BitVec 32} {l : Label} {d : Addr} {c' : Clients} {alloc : Option Addr}
    {f : ClientEntry → ClientEntry} (hl : label.toNat = l.val) (hf : Fresh s alloc)
    (h : s.clients.clientDesc l label alloc = some (c', d))
    (hreg : ∀ e, regDone (f { e with clientDesc := some d }) = Function.update (regDone e) dir true)
    (hdesc : ∀ e, (f e).clientDesc = e.clientDesc) :
    DblMove s none (s.registered dir label (c'.set l (f (c'.table l)), .obj d)) := by
  obtain ⟨descs, hset, hd⟩ := clientDesc_some hl hf h
  have hlt : label.toNat < GH_DBL_LABEL_MAX := hl ▸ l.isLt
  have hlabel : (⟨label.toNat, hlt⟩ : Label) = l := Fin.ext hl
  rw [DblState.registered, DblState.setReg, dif_pos hlt, hlabel, hset]
  exact .register dir l d _ descs (hreg _) (hdesc _) hd

theorem txRegister_move (label : BitVec 32) {alloc : Option Addr} (hf : Fresh s alloc) :
    DblMove s none (s.registered .tx label (ghDblTxRegister s.clients label alloc)) := by
  unfold ghDblTxRegister
  split
  · rename_i hlt
    split
    · exact .same none
    · dsimp only
      split
      · exact .same none
      · split
        · exact .same none
        · rename_i c' d h
          exact registered_move (f := fun e => { e with txRegDone := true }) rfl hf h (fun e => regDone_tx rfl rfl)
            fun _ => rfl
  · exact .same none

theorem rxRegister_move (label : BitVec 32) (rxCb : Option Addr) (priv : Addr) {alloc : Option Addr}
    (hf : Fresh s alloc) :
    DblMove s none (s.registered .rx label (ghDblRxRegister s.clients label rxCb priv alloc)) := by
  unfold ghDblRxRegister
  split
  · rename_i hlt
    split
    · exact .same none
    · dsimp only
      split
      · exact .same none
      · split
        · exact .same none
        · rename_i c' d h
          exact registered_move (f := fun e => { e with rxCallback := rxCb, rxPrivData := priv, rxRegDone := true })
            rfl hf h (fun e => regDone_rx rfl rfl) fun _ => rfl
  · exact .same none

/-- The descriptor that is passed to an unregister function. -/
def passed : Ptr → Option Addr
  | .obj d => some d
  | _ => none

/-- An unregister function, once it has found that the descriptor is that of the
entry: it is freed if the other client is not registered. -/
theorem unregistered_move {dir : Dir} {other : ClientEntry → Bool} {label : BitVec 32} {l : Label} {d : Addr}
    {f : ClientEntry → ClientEntry} (hl : label.toNat = l.val) (hlabel : s.clients.descs d = some label)
    (hd : (s.clients.table l).clientDesc = some d)
    (hreg : ∀ e x, regDone (f { e with clientDesc := x }) = Function.update (regDone e) dir false)
    (hother : ∀ e, other e = true ↔ ∃ dir', dir' ≠ dir ∧ regDone e dir' = true)
    (hdesc : ∀ e, (f e).clientDesc = e.clientDesc) :
    let c := if other (s.clients.table l) = false then s.clients.free l d else s.clients
    DblMove s (some d) (s.unregistered dir (.obj d) (c.set l (f (c.table l)), 0)) := by
  intro c
  have hlt : label.toNat < GH_DBL_LABEL_MAX := hl ▸ l.isLt
  have hl' : (⟨label.toNat, hlt⟩ : Label) = l := Fin.ext hl
  simp only [DblState.unregistered, if_true, hlabel, Option.getD_some, DblState.setReg, dif_pos hlt, hl']
  by_cases ho : other (s.clients.table l) = true
  · have hc : c = s.clients := if_neg (by rw [ho]; nofun)
    obtain ⟨dir', hne, hdone⟩ := (hother _).mp ho
    have hsome : regDone (f (s.clients.table l)) dir' = true := by
      rw [hreg (s.clients.table l) (s.clients.table l).clientDesc, Function.update_of_ne hne, hdone]
    rw [hc]
    exact .unregister dir l d _ _ hd (hreg _ _) (.inl ⟨⟨dir', hsome⟩, (hdesc _).trans hd, rfl⟩)
  · have hc : c = s.clients.free l d := if_pos (Bool.eq_false_iff.mpr ho)
    have hset : c.set l (f (c.table l)) = { s.clients.set l (f { s.clients.table l with clientDesc := none }) with
        descs := Function.update s.clients.descs d none } := by
      rw [hc]
      simp [Clients.free, Clients.set]
    have hno : ∀ dir', regDone (f { s.clients.table l with clientDesc := none }) dir' = false := by
      intro dir'
      rw [hreg]
      by_cases hdir : dir' = dir
      · rw [hdir, Function.update_self]
      · rw [Function.update_of_ne hdir, Bool.eq_false_iff]
        exact fun hdone => ho ((hother _).mpr ⟨dir', hdir, hdone⟩)
    rw [hset]
    exact .unregister dir l d _ _ hd (hreg _ _) (.inr ⟨hno, hdesc _, rfl⟩)

theorem txUnregister_move {p : Ptr} {x : Clients × Int} (h : ghDblTxUnregister s.clients p = some x) :
    DblMove s (passed p) (s.unregistered .tx p x) := by
  cases p with
  | null =>
    cases h
    exact .same _
  | err e =>
    cases h
    exact .same _
  | obj d =>
    obtain ⟨label, hlabel, h⟩ := Option.bind_eq_some_iff.mp h
    split at h
    · rename_i hlt
      dsimp only at h
      split at h
      · cases h
        exact .same _
      · rename_i hd
        cases h
        refine unregistered_move (f := fun e => { e with txRegDone := false }) rfl hlabel (not_not.mp hd)
          (fun e x => regDone_tx rfl rfl) (fun e => ?_) fun _ => rfl
        simp [exists_dir, regDone]
    · cases h
      exact .same _

theorem rxUnregister_move {p : Ptr} {x : Clients × Int} (h : ghDblRxUnregister s.clients p = some x) :
    DblMove s (passed p) (s.unregistered .rx p x) := by
  cases p with
  | null =>
    cases h
    exact .same _
  | err e =>
    cases h
    exact .same _
  | obj d =>
    obtain ⟨label, hlabel, h⟩ := Option.bind_eq_some_iff.mp h
    split at h
    · rename_i hlt
      dsimp only at h
      split at h
      · cases h
        exact .same _
      · rename_i hd
        cases h
        refine unregistered_move (f := fun e => { e with rxCallback := none, rxPrivData := 0, rxRegDone := false }) rfl
          hlabel (not_not.mp hd) (fun e x => regDone_rx rfl rfl) (fun e => ?_) fun _ => rfl
        simp [exists_dir, regDone]
    · cases h
      exact .same _

/-- The descriptor that an action passes to an unregister function. -/
def passedBy : DblAct → Option Addr
  | .txUnregister p | .rxUnregister p => passed p
  | _ => none

theorem step_move {act : DblAct} (h : dblStep s act = some t) : DblMove s (passedBy act) t := by
  cases act with
  | txRegister label alloc =>
    simp only [dblStep, Option.ite_none_right_eq_some, Option.some.injEq] at h
    obtain ⟨hf, rfl⟩ := h
    exact txRegister_move label hf
  | rxRegister label rxCb priv alloc =>
    simp only [dblStep, Option.ite_none_right_eq_some, Option.some.injEq] at h
    obtain ⟨hf, rfl⟩ := h
    exact rxRegister_move label rxCb priv hf
  | txUnregister p =>
    obtain ⟨x, hx, rfl⟩ := Option.map_eq_some_iff.mp h
    exact txUnregister_move hx
  | rxUnregister p =>
    obtain ⟨x, hx, rfl⟩ := Option.map_eq_some_iff.mp h
    exact rxUnregister_move hx

/-! ## Runs -/

theorem DblInv.step {act : DblAct} (h : DblInv s) (hst : dblStep s act = some t) : DblInv t := h.move (step_move hst)

/-- The entry that a move with a descriptor changes has that descriptor. -/
theorem DblMove.own {d : Addr} (hm : DblMove s (some d) t) {l : Label}
    (hne : t.clients.table l ≠ s.clients.table l) : (s.clients.table l).clientDesc = some d := by
  cases hm with
  | same => exact absurd rfl hne
  | unregister dir l' d e descs hl hreg hd =>
    have hll : l = l' := by
      by_contra hll
      exact hne (Function.update_of_ne hll _ _)
    rw [hll]
    exact hl

theorem DblInv.dropsLast {act : DblAct} (h : DblInv s) (hst : dblStep s act = some t) : DropsLast s act t where
  freed d hd := by
    rw [← (h.step hst).live_iff, not_not, and_iff_right ((h.live_iff d).mp hd)]
  own d hact l hne := by
    have hp : passedBy act = some d := by
      rcases hact with rfl | rfl <;> rfl
    have hm := step_move hst
    rw [hp] at hm
    exact h.served (hm.own hne)

/-- The registrations of doorbells and their descriptors, in every run. -/
theorem doorbell_registrations (initialized : Bool) (as : List DblAct) :
    Always dblStep Registered (.init initialized) as ∧ Each dblStep DropsLast (.init initialized) as := by
  have hinv : ∀ bs t, exec dblStep (.init initialized) bs = some t → DblInv t := fun bs t hex =>
    inv_exec (fun _ _ _ h hst => h.step hst) (DblInv.init initialized) hex
  constructor
  · intro bs cs t _ hex
    exact (hinv bs t hex).registered
  · intro bs act cs t u _ hex hst
    exact (hinv bs t hex).dropsLast hst

end GH.Proof.Dbl
