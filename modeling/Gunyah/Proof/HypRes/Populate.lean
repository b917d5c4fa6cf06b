import Gunyah.Proof.HypRes.Names
import Gunyah.Proof.HypRes.Slots

/-!
# Populating a VM

The first loop of `ghRmPopulateHypRes` leaves everything as it is where no vCPU
is taken (`populateVcpus_keeps`), and otherwise fills in the slot of the VM
(`populateVcpus_gains`). The second gets over the first entries of the list and
leaves all but these as it is (`populateEntries_enters`). What the two make of
the tables is `Enters`.
-/

namespace GH.Proof.HypRes

open GH.Impl GH.Impl.Rm GH.Impl.Proxy GH.Spec.Rm

/-! ## A loop that is repeated -/

section Retry

variable {S T : Type} {P : S → Prop} {f : S → T → S × Int} {ts : List T} {s : S} {r : S × Int}

/-- The loop ends with its last turn, and all turns before give `-EAGAIN`. -/
theorem retry_ends (h : retry f ts s = some r) (hs : P s)
    (hagain : ∀ t ∈ ts, ∀ u, P u → (f u t).2 = -EAGAIN → P (f u t).1) :
    ∃ last ∈ ts, ∃ u, P u ∧ r = f u last ∧ r.2 ≠ -EAGAIN ∧
      ∀ t ∈ ts, t = last ∨ ∃ u, P u ∧ (f u t).2 = -EAGAIN := by
  induction ts generalizing s with
  | nil => cases h
  | cons t ts ih =>
    simp only [retry] at h
    split at h
    · rename_i he
      obtain ⟨last, hmem, u, hu, hr, hne, hall⟩ :=
        ih h (hagain t List.mem_cons_self s hs he) fun t' ht' => hagain t' (List.mem_cons_of_mem t ht')
      exact ⟨last, List.mem_cons_of_mem t hmem, u, hu, hr, hne, List.forall_mem_cons.mpr ⟨.inr ⟨s, hs, he⟩, hall⟩⟩
    · rename_i he
      split at h
      · rename_i hempty
        rw [Option.some.injEq] at h
        subst h
        rw [List.isEmpty_iff] at hempty
        subst hempty
        exact ⟨t, List.mem_cons_self, s, hs, rfl, he, fun t' ht' => .inl (List.mem_singleton.mp ht')⟩
      · cases h

/-- A turn of a loop over a list: an error ends the loop. -/
theorem stops_or_next {s' t : S} {r' ret : Int} {next : Option (S × Int)}
    (h : (if r' < 0 then some (s', r') else next) = some (t, ret)) :
    (r' < 0 ∧ t = s' ∧ ret = r') ∨ 0 ≤ r' ∧ next = some (t, ret) := by
  by_cases hr : r' < 0
  · rw [if_pos hr] at h
    cases h
    exact .inl ⟨hr, rfl, rfl⟩
  · rw [if_neg hr] at h
    exact .inr ⟨Int.not_lt.mp hr, h⟩

end Retry

variable {s t : Tables} {v : VmId} {i : Slot} {r ret : Int} {x : ResEntry × EntryAnswers}
  {res : List (ResEntry × EntryAnswers)}

/-! ## The first loop -/

/-- The interrupt of a vCPU, in the first loop. -/
abbrev vcpuIrq (x : ResEntry × EntryAnswers) : Int := ghRmGetIrq x.1 x.2.vcpuIrq

/-- There is room for a vCPU in slot `i`, whose VM is not complete. -/
structure Room (s : Sched) (i : Slot) : Prop where
  flag : (s.vms i).isVcpuInfoPopulated = false
  slot : (s.vms i).vcpuCount < GH_MAX_VCPUS_PER_VM
  system : s.nrVcpus < GH_MAX_SYSTEM_VCPUS

/-- The turns for a vCPU leave the tables as they are, but for the last. -/
theorem retryVcpu (hat : At s.sched v i) (hroom : Room s.sched i)
    (h : retry (populateVcpu v x.1 (vcpuIrq x)) x.2.vcpuTries s = some (t, ret)) :
    ∃ u ∈ x.2.vcpuTries, (t, ret) = populateVcpu v x.1 (vcpuIrq x) s u ∧ ret ≠ -EAGAIN ∧
      ∀ w ∈ x.2.vcpuTries, w = u ∨ (populateVcpu v x.1 (vcpuIrq x) s w).2 = -EAGAIN := by
  obtain ⟨u, hu, s', rfl, hr, hne, hall⟩ := retry_ends (P := (· = s)) h rfl fun w _ s' hs' hagain => by
    subst hs'
    rw [populateVcpu_eq _ _ w hat hroom.flag hroom.slot hroom.system] at hagain ⊢
    split
    · rfl
    split
    · rename_i hskip hfill
      rw [if_neg hskip, if_pos hfill] at hagain
      exact absurd hfill.1 (by rw [show w.irqRet = -EAGAIN from hagain]; decide)
    · rfl
  refine ⟨u, hu, hr, hne, fun w hw => (hall w hw).imp_right ?_⟩
  rintro ⟨s', rfl, hs'⟩
  exact hs'

/-- One turn of the first loop, over the entry `x`. -/
theorem populateVcpus_cons (h : populateVcpus v (x :: res) s r = some (t, ret)) :
    (x.1.resType ≠ .vcpu ∧ populateVcpus v res s r = some (t, ret)) ∨
    x.1.resType = .vcpu ∧ ((vcpuIrq x < 0 ∧ t = s ∧ ret < 0) ∨
      0 ≤ vcpuIrq x ∧ ∃ s' r',
        ((s.callbacks.vcpuAffinitySet = false ∧ s' = s ∧ r' = vcpuIrq x) ∨
          s.callbacks.vcpuAffinitySet = true ∧
            retry (populateVcpu v x.1 (vcpuIrq x)) x.2.vcpuTries s = some (s', r')) ∧
        ((r' < 0 ∧ t = s' ∧ ret = r') ∨ 0 ≤ r' ∧ populateVcpus v res s' r' = some (t, ret))) := by
  simp only [populateVcpus] at h
  split at h
  · rename_i htype
    refine .inr ⟨htype, ?_⟩
    split at h
    · rename_i hirq
      simp only [Option.some.injEq, Prod.mk.injEq] at h
      exact .inl ⟨hirq, h.1.symm, h.2 ▸ hirq⟩
    · rename_i hirq
      refine .inr ⟨Int.not_lt.mp hirq, ?_⟩
      split at h
      · rename_i hcb
        obtain ⟨⟨s', r'⟩, hs', h⟩ := Option.bind_eq_some_iff.mp h
        exact ⟨s', r', .inr ⟨hcb, hs'⟩, stops_or_next h⟩
      · rename_i hcb
        exact ⟨s, vcpuIrq x, .inl ⟨by simpa using hcb, rfl, rfl⟩, stops_or_next h⟩
  · rename_i htype
    exact .inl ⟨htype, h⟩

theorem vcpus_cons_vcpu (hx : x.1.resType = .vcpu) : vcpus (x :: res) = x :: vcpus res :=
  List.filter_cons_of_pos (by simpa using hx)

theorem vcpus_cons_other (hx : x.1.resType ≠ .vcpu) : vcpus (x :: res) = vcpus res :=
  List.filter_cons_of_neg (by simpa using hx)

/-- A list in which no vCPU is taken: the first is refused, or is not taken. -/
theorem noneTaken_vcpu (hx : x.1.resType = .vcpu) (h : NoneTaken v (x :: res)) :
    ¬ VcpuGoesWell v x ∨ ¬ Taken v x ∧ NoneTaken v res := by
  by_cases hgood : VcpuGoesWell v x
  · rw [NoneTaken, vcpus_cons_vcpu hx, List.takeWhile_cons_of_pos (by simpa using hgood)] at h
    exact .inr (List.forall_mem_cons.mp h)
  · exact .inl hgood

theorem noneTaken_other (hx : x.1.resType ≠ .vcpu) (h : NoneTaken v (x :: res)) : NoneTaken v res := by
  rwa [NoneTaken, vcpus_cons_other hx] at h

/-- A vCPU that is refused, or is not taken. -/
theorem retryVcpu_keeps (hat : At s.sched v i) (hroom : Room s.sched i) (hirq : 0 ≤ vcpuIrq x)
    (h : retry (populateVcpu v x.1 (vcpuIrq x)) x.2.vcpuTries s = some (t, ret)) :
    (¬ VcpuGoesWell v x → t = s ∧ ret < 0) ∧ (¬ Taken v x → t = s) := by
  obtain ⟨u, hu, hr, hne, hall⟩ := retryVcpu hat hroom h
  have heq := fun w => populateVcpu_eq x.1 (vcpuIrq x) w hat hroom.flag hroom.slot hroom.system
  constructor
  · intro hbad
    obtain ⟨w, hw, hskip, hrefuses⟩ : ∃ w ∈ x.2.vcpuTries, ¬ Skips v (vcpuIrq x) w ∧ Refuses w.irqRet := by
      simpa [VcpuGoesWell, hirq] using hbad
    have hw' : populateVcpu v x.1 (vcpuIrq x) s w = (s, w.irqRet) := by
      rw [heq, if_neg hskip, if_neg fun hc => absurd hrefuses.1 (Int.not_lt.mpr hc.1)]
    rcases hall w hw with rfl | hagain
    · rw [hw', Prod.mk.injEq] at hr
      exact ⟨hr.1, hr.2 ▸ hrefuses.1⟩
    · rw [hw'] at hagain
      exact absurd hagain hrefuses.2
  · intro hno
    rw [heq] at hr
    split at hr
    · exact (Prod.mk.inj hr).1
    split at hr
    · rename_i hskip hfill
      exact absurd ⟨u, hu, hskip, hfill.1, hfill.2⟩ hno
    · exact (Prod.mk.inj hr).1

/-- Where no vCPU is taken the first loop leaves everything as it is. -/
theorem populateVcpus_keeps (hat : At s.sched v i) (hroom : Room s.sched i)
    (hnone : s.callbacks.vcpuAffinitySet = true → NoneTaken v res)
    (h : populateVcpus v res s r = some (t, ret)) : t = s := by
  induction res generalizing r with
  | nil =>
    simp only [populateVcpus, Option.some.injEq, Prod.mk.injEq] at h
    exact h.1.symm
  | cons x res ih =>
    obtain ⟨htype, h⟩ | ⟨htype, ⟨-, hts, -⟩ | ⟨hirq, s', r', hs', hnext⟩⟩ := populateVcpus_cons h
    · exact ih (fun hcb => noneTaken_other htype (hnone hcb)) h
    · exact hts
    have hkeeps : s' = s ∧ (r' < 0 ∨ (s.callbacks.vcpuAffinitySet = true → NoneTaken v res)) := by
      rcases hs' with ⟨hcb, hs', -⟩ | ⟨hcb, hs'⟩
      · exact ⟨hs', .inr fun hcb' => by rw [hcb] at hcb'; cases hcb'⟩
      obtain ⟨hbad, hno⟩ := retryVcpu_keeps hat hroom hirq hs'
      rcases noneTaken_vcpu htype (hnone hcb) with hx | ⟨hx, hrest⟩
      · exact ⟨(hbad hx).1, .inl (hbad hx).2⟩
      · exact ⟨hno hx, .inr fun _ => hrest⟩
    obtain ⟨rfl, hrest⟩ := hkeeps
    rcases hnext with ⟨-, hts, -⟩ | ⟨hr', hnext⟩
    · exact hts
    · exact ih (hrest.resolve_left (Int.not_lt.mpr hr')) hnext

/-- A slot is given vCPUs with some of the capabilities `caps`, all with an interrupt. -/
structure Gains (caps : List (BitVec 64)) (vm vm' : ProxyVm) : Prop where
  vcpus : ∃ cs, vm'.vcpu = vm.vcpu ++ cs ∧ (cs.map (·.capId)).Sublist caps ∧ ∀ c ∈ cs, c.virq ≠ IRQ_INVAL
  flags : vm'.isVcpuInfoPopulated = vm.isVcpuInfoPopulated ∧ vm'.isVpmGroupInfoPopulated = vm.isVpmGroupInfoPopulated

theorem Gains.refl (vm : ProxyVm) (caps : List (BitVec 64)) : Gains caps vm vm where
  vcpus := ⟨[], (List.append_nil _).symm, List.nil_sublist _, fun _ hc => absurd hc List.not_mem_nil⟩
  flags := ⟨rfl, rfl⟩

theorem Gains.add {caps : List (BitVec 64)} {vm vm' : ProxyVm} (hirq : vcpuIrq x ≠ IRQ_INVAL)
    (h : Gains caps (addVcpu vm v x.1 (vcpuIrq x)) vm') : Gains (x.1.capId :: caps) vm vm' := by
  obtain ⟨⟨cs, hcs, hcaps, hirqs⟩, hflags⟩ := h
  exact ⟨⟨_, hcs.trans (List.append_assoc ..), hcaps.cons_cons _, List.forall_mem_cons.mpr ⟨hirq, hirqs⟩⟩, hflags⟩

theorem Gains.skip {caps : List (BitVec 64)} {vm vm' : ProxyVm} (c : BitVec 64) (h : Gains caps vm vm') :
    Gains (c :: caps) vm vm' := by
  obtain ⟨⟨cs, hcs, hcaps, hirqs⟩, hflags⟩ := h
  exact ⟨⟨cs, hcs, hcaps.cons c, hirqs⟩, hflags⟩

/-- A vCPU that goes well is filled in, or nothing happens. -/
theorem retryVcpu_well (hat : At s.sched v i) (hroom : Room s.sched i) (hgood : VcpuGoesWell v x)
    (h : retry (populateVcpu v x.1 (vcpuIrq x)) x.2.vcpuTries s = some (t, ret)) :
    0 ≤ ret ∧ (t = s ∨ vcpuIrq x ≠ IRQ_INVAL ∧ t = { s with sched := fillVcpu s.sched v x.1 (vcpuIrq x) }) := by
  obtain ⟨u, hu, hr, hne, -⟩ := retryVcpu hat hroom h
  rw [populateVcpu_eq _ _ u hat hroom.flag hroom.slot hroom.system] at hr
  split at hr
  · obtain ⟨rfl, rfl⟩ := Prod.mk.inj hr
    exact ⟨Int.le_refl 0, .inl rfl⟩
  rename_i hskip
  split at hr
  · rename_i hfill
    obtain ⟨rfl, rfl⟩ := Prod.mk.inj hr
    exact ⟨hfill.1, .inr ⟨fun hirq => hskip (.inr (.inr hirq)), rfl⟩⟩
  · obtain ⟨rfl, rfl⟩ := Prod.mk.inj hr
    exact ⟨Int.not_lt.mp fun hlt => hgood.2 u hu hskip ⟨hlt, hne⟩, .inl rfl⟩

/-- The capabilities of the vCPUs of a list. -/
def caps (res : List (ResEntry × EntryAnswers)) : List (BitVec 64) := (vcpus res).map (·.1.capId)

/-- No slot has too many vCPUs. -/
def NoneFull (s : Sched) : Prop := ∀ j, (s.vms j).vcpuCount ≤ GH_MAX_VCPUS_PER_VM

/-- Where all goes well the first loop fills in the slot of the VM. -/
theorem populateVcpus_gains (hat : At s.sched v i) (hs : Ledger s.sched) (hfull : NoneFull s.sched)
    (hflag : (s.sched.vms i).isVcpuInfoPopulated = false)
    (hroom : (s.sched.vms i).vcpuCount + (vcpus res).length ≤ GH_MAX_VCPUS_PER_VM)
    (hgood : ∀ x ∈ res, x.1.resType = .vcpu → VcpuGoesWell v x)
    (h : populateVcpus v res s r = some (t, ret)) :
    (0 ≤ r → 0 ≤ ret) ∧ NoneFull t.sched ∧ ∃ sched vm, t = { s with sched := sched } ∧ Moves s.sched i vm sched ∧
      Gains (caps res) (s.sched.vms i) vm ∧ (sched = s.sched ∨ Proxied vm v) := by
  induction res generalizing s r with
  | nil =>
    simp only [populateVcpus, Option.some.injEq, Prod.mk.injEq] at h
    obtain ⟨rfl, rfl⟩ := h
    exact ⟨id, hfull, s.sched, _, rfl, .refl _ i, .refl _ _, .inl rfl⟩
  | cons x res ih =>
    have hgood' := fun y hy => hgood y (List.mem_cons_of_mem x hy)
    obtain ⟨htype, h⟩ | ⟨htype, ⟨hirq, -, -⟩ | ⟨hirq, s', r', hs', hnext⟩⟩ := populateVcpus_cons h
    · rw [vcpus_cons_other htype] at hroom
      rw [caps, vcpus_cons_other htype]
      exact ih hat hs hfull hflag hroom hgood' h
    · exact absurd hirq (Int.not_lt.mpr (hgood x List.mem_cons_self htype).1)
    rw [vcpus_cons_vcpu htype, List.length_cons] at hroom
    rw [caps, vcpus_cons_vcpu htype, List.map_cons]
    have hlt : (s.sched.vms i).vcpuCount < GH_MAX_VCPUS_PER_VM := by omega
    have hwell : 0 ≤ r' ∧ (s' = s ∨
        vcpuIrq x ≠ IRQ_INVAL ∧ s' = { s with sched := fillVcpu s.sched v x.1 (vcpuIrq x) }) := by
      rcases hs' with ⟨-, rfl, rfl⟩ | ⟨-, hs'⟩
      · exact ⟨hirq, .inl rfl⟩
      · exact retryVcpu_well hat ⟨hflag, hlt, hs.vcpu_room hfull hlt⟩ (hgood x List.mem_cons_self htype) hs'
    obtain ⟨hr', hs'⟩ := hwell
    have hnext := (hnext.resolve_left fun hc => absurd hc.1 (Int.not_lt.mpr hr')).2
    rcases hs' with rfl | ⟨hinval, rfl⟩
    · obtain ⟨hret, hfull', sched, vm, ht, hmoves, hgains, hsame⟩ := ih hat hs hfull hflag (by omega) hgood' hnext
      exact ⟨fun _ => hret hr', hfull', sched, vm, ht, hmoves, hgains.skip _, hsame⟩
    · have hfill := fillVcpu_moves (e := x.1) hat hinval
      have hcount : (addVcpu (s.sched.vms i) v x.1 (vcpuIrq x)).vcpuCount = (s.sched.vms i).vcpuCount + 1 := by
        simp only [ProxyVm.vcpuCount, addVcpu, List.length_append, List.length_singleton]
      have hfull' : NoneFull (fillVcpu s.sched v x.1 (vcpuIrq x)) := by
        intro j
        rw [hfill.vms, Function.update_apply]
        split
        · rw [hcount]
          omega
        · exact hfull j
      have hnext' := ih (s := { s with sched := fillVcpu s.sched v x.1 (vcpuIrq x) }) (hat.moves hfill (.inl rfl))
        (hfill.ledger hs) hfull' (by rw [hfill.self]; exact hflag) (by rw [hfill.self, hcount]; omega) hgood' hnext
      obtain ⟨hret, hfull', sched, vm, ht, hmoves, hgains, hsame⟩ := hnext'
      rw [hfill.self] at hgains
      refine ⟨fun _ => hret hr', hfull', sched, vm, ht, hfill.trans hmoves, hgains.add hinval, .inr ?_⟩
      rcases hsame with hsame | hproxied
      · have hvm : vm = addVcpu (s.sched.vms i) v x.1 (vcpuIrq x) := by rw [← hmoves.self, hsame, hfill.self]
        rw [hvm]
        exact ⟨rfl, List.append_ne_nil_of_right_ne_nil _ (List.cons_ne_nil _ _)⟩
      · exact hproxied

/-! ## The second loop -/

/-- The interrupt of an entry, in the second loop. -/
abbrev entryIrq (x : ResEntry × EntryAnswers) : Int := ghRmGetIrq x.1 x.2.irq

/-- What the second loop does to slot `i` for the entries `P`: only for a VM that has
its slot, and not to its vCPUs. -/
structure Edits (v : VmId) (i : Slot) (P : List ResEntry) (s t : Sched) : Prop where
  moves : Moves s i (t.vms i) t
  id : (t.vms i).id = (s.vms i).id
  vcpu : (t.vms i).vcpu = (s.vms i).vcpu
  flag : (t.vms i).isVcpuInfoPopulated = (s.vms i).isVcpuInfoPopulated
  vpm : (t.vms i).isVpmGroupInfoPopulated = true →
    (s.vms i).isVpmGroupInfoPopulated = true ∨ ∃ e ∈ P, e.resType = .vpmgrp
  same : ¬ Proxied (s.vms i) v → t = s

theorem Edits.refl (v : VmId) (i : Slot) (P : List ResEntry) (s : Sched) : Edits v i P s s :=
  ⟨.refl s i, rfl, rfl, rfl, .inl, fun _ => rfl⟩

theorem Edits.of_moves {P : List ResEntry} {s t : Sched} {vm : ProxyVm} (h : Moves s i vm t)
    (hp : Proxied (s.vms i) v) (hid : vm.id = (s.vms i).id) (hvcpu : vm.vcpu = (s.vms i).vcpu)
    (hflag : vm.isVcpuInfoPopulated = (s.vms i).isVcpuInfoPopulated)
    (hvpm : vm.isVpmGroupInfoPopulated = true →
      (s.vms i).isVpmGroupInfoPopulated = true ∨ ∃ e ∈ P, e.resType = .vpmgrp) : Edits v i P s t := by
  rw [← h.self] at hid hvcpu hflag hvpm
  exact ⟨h.self ▸ h, hid, hvcpu, hflag, hvpm, fun hno => absurd hp hno⟩

theorem Edits.proxied {P : List ResEntry} {s t : Sched} (h : Edits v i P s t) :
    Proxied (t.vms i) v ↔ Proxied (s.vms i) v := by rw [Proxied, Proxied, h.id, h.vcpu]

theorem Edits.append {P P' : List ResEntry} {s t u : Sched} (h : Edits v i P s t) (h' : Edits v i P' t u) :
    Edits v i (P ++ P') s u where
  moves := h.moves.trans h'.moves
  id := h'.id.trans h.id
  vcpu := h'.vcpu.trans h.vcpu
  flag := h'.flag.trans h.flag
  vpm := by
    intro hu
    rcases h'.vpm hu with ht | ⟨e, he, htype⟩
    · exact (h.vpm ht).imp_right fun ⟨e, he, htype⟩ => ⟨e, List.mem_append_left P' he, htype⟩
    · exact .inr ⟨e, List.mem_append_right P he, htype⟩
  same := fun hno => (h'.same (mt h.proxied.mp hno)).trans (h.same hno)

/-- The kind of an entry does not make the second loop fail. -/
def Passes (cb : Callbacks) (proxied : Prop) (e : ResEntry) : Prop :=
  e.resType ≠ .unknown ∧ (e.resType = .watchdog → cb.wdogManage = true → proxied)

theorem passes_of_name {cb : Callbacks} {p : Prop} {e : ResEntry} {n : Name} (h : name e = some n) : Passes cb p e := by
  unfold name at h
  unfold Passes
  cases ht : e.resType with
  | mqTx | mqRx | dbTx | dbRx => simp
  | vcpu | vpmgrp | virtioMmio | watchdog | unknown =>
    rw [ht] at h
    cases h

/-- The second loop has got over the entries `P`. -/
structure Enters (v : VmId) (i : Slot) (P : List ResEntry) (s t : Tables) : Prop where
  inv : TablesInv t
  cells : ∀ n, (∀ e ∈ P, name e ≠ some n) → cell t n = cell s n
  recorded : ∀ e ∈ P, ∀ n, name e = some n → Recorded t n
  edits : Edits v i P s.sched t.sched
  passes : ∀ e ∈ P, Passes s.callbacks (Proxied (s.sched.vms i) v) e
  callbacks : t.callbacks = s.callbacks

theorem Enters.refl (v : VmId) (i : Slot) (h : TablesInv s) : Enters v i [] s s :=
  ⟨h, fun _ _ => rfl, fun _ he => absurd he List.not_mem_nil, .refl .., fun _ he => absurd he List.not_mem_nil, rfl⟩

theorem Enters.append {P P' : List ResEntry} {u : Tables} (h : Enters v i P s t) (h' : Enters v i P' t u) :
    Enters v i (P ++ P') s u where
  inv := h'.inv
  cells := fun n hn =>
    (h'.cells n fun e he => hn e (List.mem_append_right P he)).trans
      (h.cells n fun e he => hn e (List.mem_append_left P' he))
  recorded := by
    intro e he n hn
    by_cases hlater : ∀ e' ∈ P', name e' ≠ some n
    · rcases List.mem_append.mp he with he | he
      · exact (h.recorded e he n hn).congr (h'.cells n hlater)
      · exact h'.recorded e he n hn
    · simp only [not_forall, not_not] at hlater
      obtain ⟨e', he', hn'⟩ := hlater
      exact h'.recorded e' he' n hn'
  edits := h.edits.append h'.edits
  passes := by
    intro e he
    rcases List.mem_append.mp he with he | he
    · exact h.passes e he
    · have hpass := h'.passes e he
      rw [h.callbacks] at hpass
      exact hpass.imp_right fun hw ht hcb => h.edits.proxied.mp (hw ht hcb)
  callbacks := h'.callbacks.trans h.callbacks

/-- An entry that is after those that the second loop has got over. -/
theorem Fits.enters (h : Fits s x) {e : ResEntry × EntryAnswers} (ht : Enters v i [e.1] s t) (ha : Apart e x) :
    Fits t x := by
  have hcell : ∀ n, name e.1 ≠ some n → cell t n = cell s n := fun n hn =>
    ht.cells n fun e' he' => by rwa [List.mem_singleton.mp he']
  refine ⟨fun n hn htx => ?_, h.irq, fun hf d => ?_⟩
  · rw [hcell n fun hne => ?_]
    · exact h.unused n hn htx
    · obtain ⟨l, hl⟩ := ha.name n hne hn
      exact htx l hl
  · rw [hcell _ fun hne => ?_]
    · exact h.frees hf d
    · obtain ⟨hm, hl⟩ := isMsgq_of_name hne
      exact ha.queue hf hm (BitVec.eq_of_toInt_eq hl)

/-- A turn for an entry that names nothing changes at most the slot of the VM. -/
theorem populateEntry_other {e : EntryTry} (hat : At s.sched v i) (hn : name x.1 = none) (hirq : 0 ≤ entryIrq x)
    (he : e ∈ x.2.tries) :
    ∃ sched ret, populateEntry v x.1 (entryIrq x) s e = ({ s with sched := sched }, ret) ∧
      (ret < 0 → sched = s.sched) ∧
      (0 ≤ ret → Edits v i [x.1] s.sched sched ∧ Passes s.callbacks (Proxied (s.sched.vms i) v) x.1) ∧
      (EntryGoesWell s.callbacks.virtioMmio x → Proxied (s.sched.vms i) v → ¬ Refuses ret) := by
  have hok : ∀ {ret : Int}, 0 ≤ ret → ¬ Refuses ret := fun hret hr => absurd hr.1 (Int.not_lt.mpr hret)
  unfold populateEntry EntryGoesWell
  cases ht : x.1.resType with
  | vcpu => exact ⟨s.sched, _, rfl, fun _ => rfl, fun _ => ⟨.refl .., by simp [Passes, ht]⟩, fun _ _ => hok hirq⟩
  | vpmgrp =>
    have hpass : Passes s.callbacks (Proxied (s.sched.vms i) v) x.1 := by simp [Passes, ht]
    by_cases hcb : s.callbacks.vpmGrpSet = true
    · simp only [if_pos hcb]
      refine ⟨_, _, rfl, fun hret => ?_, fun hret => ⟨?_, hpass⟩, fun hgood _ => ?_⟩
      · rcases populateVpmGrp_moves x.1.capId (entryIrq x) e.irqRet hat with
          hsame | ⟨-, hret', -⟩
        · exact hsame
        · exact absurd hret (Int.not_lt.mpr hret')
      · rcases populateVpmGrp_moves x.1.capId (entryIrq x) e.irqRet hat with
          hsame | ⟨hp, -, hmoves⟩
        · rw [hsame]
          exact .refl ..
        · exact .of_moves hmoves hp rfl rfl rfl fun _ => .inr ⟨x.1, List.mem_singleton_self _, ht⟩
      · exact populateVpmGrp_ret hat hirq (hgood.2 e he)
    · simp only [if_neg hcb]
      exact ⟨s.sched, _, rfl, fun _ => rfl, fun _ => ⟨.refl .., hpass⟩, fun _ _ => hok hirq⟩
  | virtioMmio =>
    have hpass : Passes s.callbacks (Proxied (s.sched.vms i) v) x.1 := by simp [Passes, ht]
    by_cases hcb : s.callbacks.virtioMmio = true
    · simp only [if_pos hcb]
      exact ⟨s.sched, _, rfl, fun _ => rfl, fun _ => ⟨.refl .., hpass⟩, fun hgood _ => hgood.2 hcb e he⟩
    · simp only [if_neg hcb]
      exact ⟨s.sched, _, rfl, fun _ => rfl, fun _ => ⟨.refl .., hpass⟩, fun _ _ => hok hirq⟩
  | watchdog =>
    by_cases hcb : s.callbacks.wdogManage = true
    · simp only [if_pos hcb]
      obtain ⟨hp, hw⟩ | ⟨hp, t, w, hmoves, hw⟩ := wdogManage_moves (c := x.1.capId) (b := true) hat
      · rw [hw]
        exact ⟨s.sched, _, rfl, fun _ => rfl, fun hret => absurd hret (show ¬ 0 ≤ -EINVAL by decide),
          fun _ hp' => absurd hp' hp⟩
      · rw [hw]
        refine ⟨t, _, rfl, fun hret => absurd hret (Int.lt_irrefl 0), fun _ => ⟨?_, ?_⟩, fun _ _ => hok (Int.le_refl 0)⟩
        · exact .of_moves hmoves hp rfl rfl rfl .inl
        · exact ⟨by rw [ht]; decide, fun _ _ => hp⟩
    · simp only [if_neg hcb]
      refine ⟨s.sched, _, rfl, fun _ => rfl, fun _ => ⟨.refl .., ?_⟩, fun _ _ => hok hirq⟩
      exact ⟨by rw [ht]; decide, fun _ hcb' => absurd hcb' hcb⟩
  | unknown => exact ⟨s.sched, _, rfl, fun _ => rfl, fun hret => absurd hret (show ¬ 0 ≤ -EINVAL by decide),
      fun hgood => hgood.2.elim⟩
  | mqTx | mqRx | dbTx | dbRx =>
    unfold name at hn
    rw [ht] at hn
    cases hn

/-- The turns for an entry: where they fail everything is as before. -/
theorem retryEntry (hinv : TablesInv s) (hat : At s.sched v i) (hx : Fits s x) (hirq : 0 ≤ entryIrq x)
    (h : retry (populateEntry v x.1 (entryIrq x)) x.2.tries s = some (t, ret)) :
    (ret < 0 → Enters v i [] s t) ∧ (0 ≤ ret → Enters v i [x.1] s t) ∧
      (EntryGoesWell s.callbacks.virtioMmio x → Proxied (s.sched.vms i) v → 0 ≤ ret) := by
  cases hn : name x.1 with
  | some n =>
    obtain ⟨last, hlast, u, ⟨hsets, hcell⟩, hr, hne, -⟩ := retry_ends (P := fun u => Sets n s u ∧ cell u n = cell s n) h
      ⟨.refl hinv n, rfl⟩ fun e he u hu hagain => by
        obtain ⟨hsets, hcell⟩ := hu
        have hcells : ∀ m, cell u m = cell s m := fun m => by
          by_cases hm : m = n
          · rw [hm, hcell]
          · exact hsets.cells m hm
        obtain ⟨hfills, -⟩ := populateEntry_named v hsets.inv (hx.congr hcells) hn he
        exact ⟨hsets.trans hfills.sets, (hfills.kept (by rw [hagain]; decide)).trans hcell⟩
    have hcells : ∀ m, cell u m = cell s m := fun m => by
      by_cases hm : m = n
      · rw [hm, hcell]
      · exact hsets.cells m hm
    obtain ⟨hfills, hwell⟩ := populateEntry_named v hsets.inv (hx.congr hcells) hn hlast
    rw [← hr] at hfills hwell
    have hall := hsets.trans hfills.sets
    have hsched : Edits v i [x.1] s.sched t.sched := by
      rw [hall.sched]
      exact .refl ..
    refine ⟨fun hret => ⟨hall.inv, fun m _ => ?_, by simp, ?_, by simp, hall.callbacks⟩,
      fun hret => ⟨hall.inv, fun m hm => ?_, ?_, hsched, ?_, hall.callbacks⟩, fun hgood _ => ?_⟩
    · by_cases hm : m = n
      · rw [hm, hfills.kept hret, hcell]
      · exact hall.cells m hm
    · rw [hall.sched]
      exact .refl ..
    · exact hall.cells m fun hmn => hm x.1 (List.mem_singleton_self _) (by rw [hn, hmn])
    · rintro e he m hm
      rw [List.mem_singleton.mp he, hn, Option.some.injEq] at hm
      exact hm ▸ hfills.recorded hret
    · intro e he
      rw [List.mem_singleton.mp he]
      exact passes_of_name hn
    · exact Int.not_lt.mp fun hlt => hwell _ hgood ⟨hlt, hne⟩
  | none =>
    obtain ⟨last, hlast, u, rfl, hr, hne, -⟩ := retry_ends (P := (· = s)) h rfl fun e he u hu hagain => by
      subst hu
      obtain ⟨sched, ret, heq, hfails, -⟩ := populateEntry_other hat hn hirq he
      rw [heq] at hagain ⊢
      rw [hfails (by rw [show ret = -EAGAIN from hagain]; decide)]
    obtain ⟨sched, ret', heq, hfails, hpass, hwell⟩ := populateEntry_other hat hn hirq hlast
    rw [heq, Prod.mk.injEq] at hr
    obtain ⟨rfl, rfl⟩ := hr
    have hnone : ∀ e ∈ [x.1], ∀ m, name e = some m → Recorded { u with sched := sched } m := by
      intro e he m hm
      rw [List.mem_singleton.mp he, hn] at hm
      cases hm
    refine ⟨fun hret => ?_, fun hret => ?_, fun hgood hp => Int.not_lt.mp fun hlt => hwell hgood hp ⟨hlt, hne⟩⟩
    · rw [hfails hret]
      exact .refl v i hinv
    · obtain ⟨hedits, hpass⟩ := hpass hret
      refine ⟨⟨hinv.msgq, hinv.dbl⟩, fun _ _ => rfl, hnone, hedits, ?_, rfl⟩
      intro e he
      rw [List.mem_singleton.mp he]
      exact hpass

/-- One turn of the second loop, over the entry `x`. -/
theorem populateEntries_cons (h : populateEntries v (x :: res) s r = some (t, ret)) :
    (entryIrq x < 0 ∧ t = s ∧ ret < 0) ∨
      0 ≤ entryIrq x ∧ ∃ s' r', retry (populateEntry v x.1 (entryIrq x)) x.2.tries s = some (s', r') ∧
        ((r' < 0 ∧ t = s' ∧ ret = r') ∨ 0 ≤ r' ∧ populateEntries v res s' r' = some (t, ret)) := by
  simp only [populateEntries] at h
  split at h
  · rename_i hirq
    simp only [Option.some.injEq, Prod.mk.injEq] at h
    exact .inl ⟨hirq, h.1.symm, h.2 ▸ hirq⟩
  · rename_i hirq
    obtain ⟨⟨s', r'⟩, hs', h⟩ := Option.bind_eq_some_iff.mp h
    exact .inr ⟨Int.not_lt.mp hirq, s', r', hs', stops_or_next h⟩

/-- The second loop gets over the first entries of the list, and over all of them if it
does not fail. -/
theorem populateEntries_enters (hinv : TablesInv s) (hat : At s.sched v i) (hfits : ∀ x ∈ res, Fits s x)
    (hapart : res.Pairwise Apart) (h : populateEntries v res s r = some (t, ret)) :
    (∃ P Q, res.map (·.1) = P ++ Q ∧ Enters v i P s t ∧ (0 ≤ ret → Q = [])) ∧
      ((∀ x ∈ res, EntryGoesWell s.callbacks.virtioMmio x) → Proxied (s.sched.vms i) v → 0 ≤ r → 0 ≤ ret) := by
  induction res generalizing s r with
  | nil =>
    simp only [populateEntries, Option.some.injEq, Prod.mk.injEq] at h
    obtain ⟨rfl, rfl⟩ := h
    exact ⟨⟨[], [], rfl, .refl v i hinv, fun _ => rfl⟩, fun _ _ => id⟩
  | cons x res ih =>
    obtain ⟨hirq, rfl, hret⟩ | ⟨hirq, s', r', hs', hnext⟩ := populateEntries_cons h
    · refine ⟨⟨[], _, rfl, .refl v i hinv, fun h' => absurd hret (Int.not_lt.mpr h')⟩, fun hgood => ?_⟩
      exact absurd hirq (Int.not_lt.mpr (hgood x List.mem_cons_self).1)
    obtain ⟨hfails, henters, hwell⟩ := retryEntry hinv hat (hfits x List.mem_cons_self) hirq hs'
    rcases hnext with ⟨hr', rfl, rfl⟩ | ⟨hr', hnext⟩
    · refine ⟨⟨[], _, rfl, hfails hr', fun h' => absurd hr' (Int.not_lt.mpr h')⟩, fun hgood hp _ => ?_⟩
      exact hwell (hgood x List.mem_cons_self) hp
    have hx := henters hr'
    obtain ⟨hfirst, hrest⟩ := List.pairwise_cons.mp hapart
    have hat' : At s'.sched v i := hat.moves hx.edits.moves (by rw [hx.edits.id]; exact hat.own)
    have hfits' : ∀ y ∈ res, Fits s' y := fun y hy =>
      (hfits y (List.mem_cons_of_mem x hy)).enters hx (hfirst y hy)
    obtain ⟨⟨P, Q, hres, hP, hQ⟩, hgood'⟩ := ih hx.inv hat' hfits' hrest hnext
    refine ⟨⟨x.1 :: P, Q, ?_, hx.append hP, hQ⟩, fun hgood hp _ => hgood' (fun y hy => ?_) (hx.edits.proxied.mpr hp) hr'⟩
    · rw [List.map_cons, hres, List.cons_append]
    · rw [hx.callbacks]
      exact hgood y (List.mem_cons_of_mem x hy)

/-! ## The two loops -/

/-- A slot that is free. -/
structure Free (vm : ProxyVm) : Prop where
  id : vm.id = GH_VMID_INVAL
  vcpu : vm.vcpu = []
  flag : vm.isVcpuInfoPopulated = false
  vpm : vm.isVpmGroupInfoPopulated = false

/-- What is left of a complete VM while the entries `R` are still to be taken back: its
vCPUs that are among them have an interrupt, and so has its VPM group. -/
structure Left (v : VmId) (R : List ResEntry) (vm : ProxyVm) : Prop where
  proxied : Proxied vm v
  flag : vm.isVcpuInfoPopulated = true
  nodup : (vm.vcpu.map (·.capId)).Nodup
  irq : ∀ c ∈ vm.vcpu, c.virq ≠ IRQ_INVAL ↔ ∃ e ∈ R, e.resType = .vcpu ∧ e.capId = c.capId
  vpm : vm.isVpmGroupInfoPopulated = true → ∃ e ∈ R, e.resType = .vpmgrp

/-- The VM has no slot, or it is complete and its list has been got over. -/
structure InSlot (v : VmId) (i : Slot) (P Q : List ResEntry) (s t : Sched) : Prop where
  all : Q = []
  known : ∀ e ∈ P, e.resType ≠ .unknown
  moves : Moves s i (t.vms i) t
  full : NoneFull t
  left : Left v P (t.vms i)

/-- A VM has been populated with the entries `P`, before it failed at the first of `Q`. -/
structure Populates (v : VmId) (i : Slot) (P Q : List ResEntry) (s t : Tables) : Prop where
  inv : TablesInv t
  cells : ∀ n, (∀ e ∈ P, name e ≠ some n) → cell t n = cell s n
  recorded : ∀ e ∈ P, ∀ n, name e = some n → Recorded t n
  callbacks : t.callbacks = s.callbacks
  slot : (t.sched = s.sched ∧ ∀ e ∈ P, Passes s.callbacks False e) ∨
    s.callbacks.vcpuAffinitySet = true ∧ InSlot v i P Q s.sched t.sched

theorem Free.tally {vm : ProxyVm} (h : Free vm) : slotTally i vm = 0 := by
  have hvpm : vpmTally vm = 0 := if_neg (by rw [h.vpm]; decide)
  have hvm : vmTally vm = 0 := if_neg (by rw [h.flag]; decide)
  rw [slotTally, hvpm, hvm, h.vcpu]
  rfl

theorem Free.not_proxied {vm : ProxyVm} (h : Free vm) : ¬ Proxied vm v := fun hp => hp.2 h.vcpu

/-- The VM keeps no slot: what the second loop has got over. -/
theorem Enters.populates {P : List ResEntry} (Q : List ResEntry) (h : Enters v i P s t)
    (hno : ¬ Proxied (s.sched.vms i) v) : Populates v i P Q s t where
  inv := h.inv
  cells := h.cells
  recorded := h.recorded
  callbacks := h.callbacks
  slot := .inl ⟨h.edits.same hno, fun e he => (h.passes e he).imp_right fun hw ht hcb => hno (hw ht hcb)⟩

theorem mem_caps {c : BitVec 64} (h : c ∈ caps res) :
    ∃ e ∈ res.map (·.1), e.resType = .vcpu ∧ e.capId = c := by
  obtain ⟨x, hx, rfl⟩ := List.mem_map.mp h
  obtain ⟨hx, ht⟩ := List.mem_filter.mp hx
  exact ⟨x.1, List.mem_map_of_mem hx, by simpa using ht, rfl⟩

theorem nodup_caps (h : res.Pairwise Apart) : (caps res).Nodup := by
  rw [caps, List.Nodup, List.pairwise_map, vcpus, List.pairwise_filter]
  refine h.imp fun ha hx hy => ?_
  exact ha.vcpu (by simpa using hx) (by simpa using hy)

/-- The slot of a VM that is complete after both loops. -/
theorem left_complete {vm vm' : ProxyVm} (hfree : Free vm) (hg : Gains (caps res) vm vm') (hapart : res.Pairwise Apart)
    {s t : Sched} (hs : s.vms i = vm') (hp : Proxied vm' v) (he : Edits v i (res.map (·.1)) s t) :
    Left v (res.map (·.1)) (complete (t.vms i)) := by
  obtain ⟨⟨cs, hcs, hcaps, hirqs⟩, hflags⟩ := hg
  have hvcpu : (complete (t.vms i)).vcpu = cs := by
    show (t.vms i).vcpu = cs
    rw [he.vcpu, hs, hcs, hfree.vcpu, List.nil_append]
  refine ⟨he.proxied.mpr (hs ▸ hp), rfl, ?_, fun c hc => ?_, fun hvpm => ?_⟩
  · rw [hvcpu]
    exact hcaps.nodup (nodup_caps hapart)
  · rw [hvcpu] at hc
    exact iff_of_true (hirqs c hc) (mem_caps (hcaps.subset (List.mem_map_of_mem hc)))
  · refine (he.vpm hvpm).resolve_left fun hflag => ?_
    rw [hs, hflags.2, hfree.vpm] at hflag
    cases hflag

/-- The callbacks of the proxy scheduler are there together. -/
def Together (cb : Callbacks) : Prop := ∃ proxy virtio, cb = ⟨proxy, proxy, proxy, proxy, virtio, proxy, proxy⟩

theorem Together.all {cb : Callbacks} (h : Together cb) (hset : cb.vcpuAffinitySet = true) :
    cb.vcpuAffinityReset = true ∧ cb.vpmGrpReset = true ∧ cb.wdogManage = true ∧ cb.allResPopulated = true := by
  obtain ⟨proxy, virtio, rfl⟩ := h
  exact ⟨hset, hset, hset, hset⟩

theorem populate_cases (h : ghRmPopulateHypRes s v none res = some (t, ret)) :
    ∃ s₁ r₁, populateVcpus v res s 0 = some (s₁, r₁) ∧ ((r₁ < 0 ∧ t = s₁ ∧ ret = r₁) ∨
      0 ≤ r₁ ∧ ∃ s₂, populateEntries v res s₁ r₁ = some (s₂, ret) ∧
        t = if ret < 0 then s₂ else allResPopulated v true s₂) := by
  simp only [ghRmPopulateHypRes] at h
  obtain ⟨⟨s₁, r₁⟩, h₁, h⟩ := Option.bind_eq_some_iff.mp h
  refine ⟨s₁, r₁, h₁, ?_⟩
  simp only at h
  split at h
  · rename_i hr₁
    simp only [Option.some.injEq, Prod.mk.injEq] at h
    exact .inl ⟨hr₁, h.1.symm, h.2.symm⟩
  · rename_i hr₁
    obtain ⟨⟨s₂, r₂⟩, h₂, h⟩ := Option.bind_eq_some_iff.mp h
    refine .inr ⟨Int.not_lt.mp hr₁, s₂, ?_⟩
    simp only at h
    split at h
    · rename_i hr₂
      simp only [Option.some.injEq, Prod.mk.injEq] at h
      obtain ⟨rfl, rfl⟩ := h
      exact ⟨h₂, (if_pos hr₂).symm⟩
    · rename_i hr₂
      simp only [Option.some.injEq, Prod.mk.injEq] at h
      obtain ⟨rfl, rfl⟩ := h
      exact ⟨h₂, (if_neg hr₂).symm⟩

/-- Without a vCPU the VM gets no slot. -/
theorem allRes_keeps (b : Bool) (hat : At s.sched v i) (hno : ¬ Proxied (s.sched.vms i) v) :
    allResPopulated v b s = s := by
  unfold allResPopulated
  split
  · rw [allRes_not_proxied hat hno]
  · rfl

/-- `gh_rm_populate_hyp_res` for a VM without a slot, where no vCPU is taken before the
first loop fails or all goes well. -/
theorem populate_populates (hinv : TablesInv s) (hat : At s.sched v i) (hfree : Free (s.sched.vms i))
    (hs : Ledger s.sched) (hfull : NoneFull s.sched) (hcb : Together s.callbacks) (hfits : ∀ x ∈ res, Fits s x)
    (hapart : res.Pairwise Apart)
    (hcond : s.callbacks.vcpuAffinitySet = true → NoneTaken v res ∨ AllGoWell v s.callbacks.virtioMmio res)
    (h : ghRmPopulateHypRes s v none res = some (t, ret)) :
    ∃ P Q, res.map (·.1) = P ++ Q ∧ Populates v i P Q s t := by
  obtain ⟨s₁, r₁, h₁, hrest⟩ := populate_cases h
  have hcount : (s.sched.vms i).vcpuCount = 0 := by rw [ProxyVm.vcpuCount, hfree.vcpu, List.length_nil]
  have hlt : (s.sched.vms i).vcpuCount < GH_MAX_VCPUS_PER_VM := by rw [hcount]; decide
  have hunslotted : s₁ = s → ∃ P Q, res.map (·.1) = P ++ Q ∧ Populates v i P Q s t := by
    rintro rfl
    rcases hrest with ⟨-, rfl, -⟩ | ⟨-, s₂, h₂, rfl⟩
    · exact ⟨[], _, rfl, (Enters.refl v i hinv).populates _ hfree.not_proxied⟩
    obtain ⟨⟨P, Q, hres, hP, -⟩, -⟩ := populateEntries_enters hinv hat hfits hapart h₂
    have hall : allResPopulated v true s₂ = s₂ := by
      refine allRes_keeps (i := i) true ?_ ?_
      · rwa [hP.edits.same hfree.not_proxied]
      · exact mt hP.edits.proxied.mp hfree.not_proxied
    rw [hall, ite_self]
    exact ⟨P, Q, hres, hP.populates Q hfree.not_proxied⟩
  by_cases hnone : s.callbacks.vcpuAffinitySet = true → NoneTaken v res
  · exact hunslotted (populateVcpus_keeps hat ⟨hfree.flag, hlt, hs.vcpu_room hfull hlt⟩ hnone h₁)
  rw [Classical.not_imp] at hnone
  obtain ⟨hset, hnone⟩ := hnone
  obtain ⟨hwell, hlen⟩ := (hcond hset).resolve_left hnone
  obtain ⟨hr₁, hfull₁, sched, vm, rfl, hmoves, hgains, hsame⟩ := populateVcpus_gains hat hs hfull hfree.flag
    (by omega) (fun x hx => (hwell x hx).1) h₁
  rcases hsame with rfl | hp
  · exact hunslotted rfl
  obtain ⟨-, s₂, h₂, rfl⟩ := hrest.resolve_left fun hc => absurd hc.1 (Int.not_lt.mpr (hr₁ (Int.le_refl 0)))
  have hat₁ : At sched v i := hat.moves hmoves (.inl hp.1)
  have hp₁ : Proxied (sched.vms i) v := by rwa [hmoves.self]
  obtain ⟨⟨P, Q, hres, hP, hQ⟩, hret⟩ := populateEntries_enters (s := { s with sched := sched })
    ⟨hinv.msgq, hinv.dbl⟩ hat₁ (fun x hx => (hfits x hx).congr fun _ => rfl) hapart h₂
  have hret := hret (fun x hx => (hwell x hx).2) hp₁ (hr₁ (Int.le_refl 0))
  have hQ := hQ hret
  subst hQ
  rw [List.append_nil] at hres
  have hat₂ : At s₂.sched v i := hat₁.moves hP.edits.moves (.inl (hP.edits.id.trans hp₁.1))
  have hflag₂ : (s₂.sched.vms i).isVcpuInfoPopulated = false := by
    rw [hP.edits.flag]
    show (sched.vms i).isVcpuInfoPopulated = false
    rw [hmoves.self, hgains.flags.1, hfree.flag]
  have hs₂ : Ledger s₂.sched := hP.edits.moves.ledger (hmoves.ledger hs)
  have hall := allRes_moves hat₂ (hs₂.vm_room hflag₂) (hP.edits.proxied.mpr hp₁) hflag₂
  have hall' : allResPopulated v true s₂ = { s₂ with sched := ghPopulateAllResInfo s₂.sched v true } := by
    rw [allResPopulated, hP.callbacks]
    exact if_pos (hcb.all hset).2.2.2
  refine ⟨P, [], by rw [hres, List.append_nil], ?_⟩
  rw [if_neg (Int.not_lt.mpr hret), hall']
  refine ⟨⟨hP.inv.msgq, hP.inv.dbl⟩, hP.cells, hP.recorded, hP.callbacks,
    .inr ⟨hset, rfl, fun e he => (hP.passes e he).1, ?_, ?_, ?_⟩⟩
  · show Moves s.sched i ((ghPopulateAllResInfo s₂.sched v true).vms i) _
    rw [hall.self]
    exact (hmoves.trans hP.edits.moves).trans hall
  · intro j
    rw [hall.vms, Function.update_apply]
    split
    · show (s₂.sched.vms i).vcpu.length ≤ GH_MAX_VCPUS_PER_VM
      rw [hP.edits.vcpu]
      exact hfull₁ i
    · rename_i hj
      rw [hP.edits.moves.vms, Function.update_of_ne hj]
      exact hfull₁ j
  · show Left v P ((ghPopulateAllResInfo s₂.sched v true).vms i)
    rw [hall.self, ← hres]
    exact left_complete hfree hgains hapart hmoves.self hp (hres ▸ hP.edits)

end GH.Proof.HypRes
