import Gunyah.Framework.Run
import Gunyah.Proof.HypUdmabuf.Create

/-!
# Who frees the list of regions

Where `HYP_UDMABUF_CREATE` exports no dma-buf it frees the list
(`ioctl_of_not_exports`); where it does, the list is the dma-buf's, which frees it
when it is released. In between the dma-buf is in use (`Owned`). But where the
arguments cannot be copied back the list is freed, and the dma-buf stays
(`Doomed`), so the lists are all freed once if and only if this never happens
(`freed_once_iff`).
-/

namespace GH.Proof.HypUdmabuf

open GH.Impl GH.Impl.HypUdmabuf GH.Spec.HypUdmabuf

variable {log evs : List HeapEv} {p b : Addr} {e : HeapEv} {a : IoctlAnswers} {s t : Sys} {buf : DmaBuf}

/-! ## The heap -/

/-- The address that an event is about. -/
def addrOf : HeapEv → Addr
  | .kvzalloc p | .access p | .kvfree p => p

theorem accessedAfterFree_nil : ¬ AccessedAfterFree [] p := by
  rintro ⟨l, l', h, -⟩
  simp at h

theorem accessedAfterFree_cons : AccessedAfterFree (e :: log) p ↔
    (e = .kvfree p ∧ .access p ∈ log) ∨ AccessedAfterFree log p := by
  constructor
  · rintro ⟨_ | ⟨e', l⟩, l', h, hmem⟩
    · obtain ⟨rfl, rfl⟩ := List.cons.inj h
      exact .inl ⟨rfl, hmem⟩
    · exact .inr ⟨l, l', (List.cons.inj h).2, hmem⟩
  · rintro (⟨rfl, hmem⟩ | ⟨l, l', rfl, hmem⟩)
    · exact ⟨[], log, rfl, hmem⟩
    · exact ⟨e :: l, l', rfl, hmem⟩

theorem accessedAfterFree_append : AccessedAfterFree (log ++ evs) p ↔
    AccessedAfterFree log p ∨ (.kvfree p ∈ log ∧ .access p ∈ evs) ∨ AccessedAfterFree evs p := by
  induction log with
  | nil => simp [accessedAfterFree_nil]
  | cons e log ih =>
    rw [List.cons_append, accessedAfterFree_cons, accessedAfterFree_cons, ih, List.mem_append, List.mem_cons]
    by_cases he : e = .kvfree p
    · simp only [he, true_and, true_or]
      tauto
    · simp only [he, false_and, false_or, Ne.symm he]

/-- What happens to other lists makes no difference. -/
theorem freedOnce_append (h : FreedOnce log p) (hevs : ∀ e ∈ evs, addrOf e ≠ p) : FreedOnce (log ++ evs) p := by
  have hfree : .kvfree p ∉ evs := fun hmem => hevs _ hmem rfl
  have haccess : .access p ∉ evs := fun hmem => hevs _ hmem rfl
  refine ⟨?_, ?_⟩
  · rw [List.count_append, h.once, List.count_eq_zero.mpr hfree]
  · rw [accessedAfterFree_append]
    rintro (hlog | ⟨-, hmem⟩ | ⟨l, l', rfl, -⟩)
    · exact h.after hlog
    · exact haccess hmem
    · exact hfree (by simp)

theorem freedOnce_prepend (h : FreedOnce evs p) (hlog : ∀ e ∈ log, addrOf e ≠ p) : FreedOnce (log ++ evs) p := by
  have hfree : .kvfree p ∉ log := fun hmem => hlog _ hmem rfl
  refine ⟨?_, ?_⟩
  · rw [List.count_append, h.once, List.count_eq_zero.mpr hfree]
  · rw [accessedAfterFree_append]
    rintro (⟨l, l', rfl, -⟩ | ⟨hmem, -⟩ | hevs)
    · exact hfree (by simp)
    · exact hfree hmem
    · exact h.after hevs

/-- A list that has not been freed is freed. -/
theorem freedOnce_free (h : .kvfree p ∉ log) : FreedOnce (log ++ [.kvfree p]) p := by
  refine ⟨?_, ?_⟩
  · rw [List.count_append, List.count_eq_zero.mpr h, List.count_singleton_self]
  · rw [accessedAfterFree_append]
    rintro (⟨l, l', rfl, -⟩ | ⟨hmem, -⟩ | hevs)
    · exact h (by simp)
    · exact h hmem
    · simp [accessedAfterFree_cons, accessedAfterFree_nil] at hevs

/-! ## `HYP_UDMABUF_CREATE` -/

theorem length_list (a : IoctlAnswers) (n : Nat) : ((List.range n).map a.regions).length = n := by
  rw [List.length_map, List.length_range]

theorem ioctl_of_exports {head : HypUdmabufCreate} (h : Exports a head) (p : Addr) :
    (hypUdmabufIoctlCreate a p).heap =
        [.kvzalloc p, .access p, .access p] ++ (if a.copiedBack = false then [.kvfree p] else []) ∧
      ∃ buf, (hypUdmabufIoctlCreate a p).buf = some buf ∧ buf.priv.list = some p := by
  obtain ⟨buf, hmade⟩ := create_of_accepts (p := p) (length_list a _) h.accepts
  have hcount : ¬ (head.count = 0 ∨ head.count > listLimit) := by
    rintro (h0 | hlt)
    · exact h.count.1 h0
    · exact absurd h.count.2 (by bv_omega)
  unfold hypUdmabufIoctlCreate
  rw [h.read]
  dsimp only
  rw [if_neg hcount, if_neg (by rw [h.list]; exact Bool.noConfusion), if_neg (by rw [h.copied]; exact Bool.noConfusion),
    if_neg (not_not_intro hmade.ret), hmade.heap]
  split
  · exact ⟨rfl, buf, hmade.made, hmade.owned⟩
  · exact ⟨rfl, buf, hmade.made, hmade.owned⟩

theorem ioctl_of_not_exports (h : ¬ ∃ head, Exports a head) (p : Addr) :
    (hypUdmabufIoctlCreate a p).buf = none ∧
      ((hypUdmabufIoctlCreate a p).heap = [] ∨
        ∃ evs, (hypUdmabufIoctlCreate a p).heap = evs ++ [.kvfree p] ∧ (∀ e ∈ evs, addrOf e = p) ∧ .kvfree p ∉ evs) := by
  unfold hypUdmabufIoctlCreate
  cases hread : a.head with
  | none => exact ⟨rfl, .inl rfl⟩
  | some head =>
    dsimp only
    by_cases hcount : head.count = 0 ∨ head.count > listLimit
    case pos =>
      rw [if_pos hcount]
      exact ⟨rfl, .inl rfl⟩
    rw [if_neg hcount]
    by_cases hlist : a.list = false
    case pos =>
      rw [if_pos hlist]
      exact ⟨rfl, .inl rfl⟩
    rw [if_neg hlist]
    by_cases hcopied : a.copied = false
    case pos =>
      rw [if_pos hcopied]
      exact ⟨rfl, .inr ⟨[.kvzalloc p, .access p], rfl, by simp [addrOf], by simp⟩⟩
    rw [if_neg hcopied]
    have haccepts : ¬ Accepts a.toCreateAnswers head ((List.range head.count.toNat).map a.regions) := by
      intro haccepts
      rw [Bool.not_eq_false] at hlist hcopied
      rw [not_or] at hcount
      exact h ⟨head, hread, ⟨hcount.1, by have := hcount.2; bv_omega⟩, hlist, hcopied, haccepts⟩
    obtain ⟨hret, hbuf, hheap⟩ := create_of_not_accepts (p := p) (length_list a _) haccepts
    rw [if_pos (Int.ne_of_lt hret)]
    refine ⟨hbuf, .inr ⟨_, rfl, ?_, ?_⟩⟩
    · rcases hheap with hheap | hheap <;> rw [hheap] <;> simp [addrOf]
    · rcases hheap with hheap | hheap <;> rw [hheap] <;> simp

/-- What happens to the list where it is not lost. -/
structure Kept (p : Addr) (r : Ioctl) : Prop where
  heap : ∀ e ∈ r.heap, addrOf e = p
  owner (buf : DmaBuf) : r.buf = some buf → buf.priv.list = some p ∧ .kvfree p ∉ r.heap
  freed : r.buf = none → .kvzalloc p ∈ r.heap → FreedOnce r.heap p

theorem ioctl_kept (h : ¬ LosesList a) (p : Addr) : Kept p (hypUdmabufIoctlCreate a p) := by
  by_cases hexports : ∃ head, Exports a head
  case pos =>
    have hback : ¬ a.copiedBack = false := fun hback => h ⟨hexports, hback⟩
    obtain ⟨head, hexports⟩ := hexports
    obtain ⟨hheap, buf, hbuf, hlist⟩ := ioctl_of_exports hexports p
    rw [if_neg hback, List.append_nil] at hheap
    refine ⟨?_, fun buf' hbuf' => ?_, fun hnone => ?_⟩
    · rw [hheap]
      simp [addrOf]
    · obtain rfl : buf' = buf := Option.some.inj (hbuf'.symm.trans hbuf)
      rw [hheap]
      exact ⟨hlist, by simp⟩
    · rw [hbuf] at hnone
      cases hnone
  case neg =>
    obtain ⟨hbuf, hheap⟩ := ioctl_of_not_exports hexports p
    refine ⟨fun e he => ?_, fun buf' hbuf' => ?_, fun _ halloc => ?_⟩
    · rcases hheap with hheap | ⟨evs, hheap, haddr, -⟩
      · rw [hheap] at he
        cases he
      · rw [hheap] at he
        rcases List.mem_append.mp he with he | he
        · exact haddr e he
        · rw [List.mem_singleton.mp he, addrOf]
    · rw [hbuf] at hbuf'
      cases hbuf'
    · rcases hheap with hheap | ⟨evs, hheap, -, hfree⟩
      · rw [hheap] at halloc
        cases halloc
      · rw [hheap]
        exact freedOnce_free hfree

/-! ## The driver -/

/-- A list is a dma-buf's and has not been freed, or it has been freed once. -/
structure Owned (s : Sys) : Prop where
  fresh : ∀ e ∈ s.log, addrOf e < s.next
  owner (b : Addr) (buf : DmaBuf) : s.bufs b = some buf → buf.priv.list = some b ∧ b < s.next
  live (b : Addr) (buf : DmaBuf) : s.bufs b = some buf → .kvfree b ∉ s.log
  freed (p : Addr) : .kvzalloc p ∈ s.log → s.bufs p = none → FreedOnce s.log p

theorem owned_init : Owned {} where
  fresh _ h := absurd h List.not_mem_nil
  owner _ _ h := nomatch h
  live _ _ h := nomatch h
  freed _ h := absurd h List.not_mem_nil

/-- The list of a dma-buf is accessed. -/
theorem Owned.accesses (h : Owned s) (hb : s.bufs b = some buf) (hevs : ∀ e ∈ evs, e = .access b) :
    Owned { s with log := s.log ++ evs } := by
  refine ⟨fun e he => ?_, h.owner, fun b' buf' hb' hmem => ?_, fun p hp hnone => ?_⟩
  · rcases List.mem_append.mp he with he | he
    · exact h.fresh e he
    · rw [hevs e he]
      exact (h.owner b buf hb).2
  · rcases List.mem_append.mp hmem with hmem | hmem
    · exact h.live b' buf' hb' hmem
    · exact nomatch hevs _ hmem
  · rcases List.mem_append.mp hp with hp | hp
    · refine freedOnce_append (h.freed p hp hnone) fun e he hpe => ?_
      rw [hevs e he] at hpe
      rw [← hpe] at hnone
      exact nomatch hb.symm.trans hnone
    · exact nomatch hevs _ hp

theorem Owned.release (h : Owned s) (hb : s.bufs b = some buf) :
    Owned { s with bufs := Function.update s.bufs b none, log := s.log ++ hypUdmabufRelease buf } := by
  obtain ⟨hlist, hlt⟩ := h.owner b buf hb
  have hfree : hypUdmabufRelease buf = [.kvfree b] := by rw [hypUdmabufRelease, hlist]; rfl
  rw [hfree]
  have hother {b' : Addr} {buf' : DmaBuf} (hb' : Function.update s.bufs b none b' = some buf') :
      b' ≠ b ∧ s.bufs b' = some buf' := by
    by_cases he : b' = b
    · rw [he, Function.update_self] at hb'
      cases hb'
    · rw [Function.update_of_ne he] at hb'
      exact ⟨he, hb'⟩
  refine ⟨fun e he => ?_, fun b' buf' hb' => h.owner b' buf' (hother hb').2, fun b' buf' hb' hmem => ?_,
    fun p hp hnone => ?_⟩
  · rcases List.mem_append.mp he with he | he
    · exact h.fresh e he
    · rw [List.mem_singleton.mp he]
      exact hlt
  · rcases List.mem_append.mp hmem with hmem | hmem
    · exact h.live b' buf' (hother hb').2 hmem
    · exact (hother hb').1 (HeapEv.kvfree.inj (List.mem_singleton.mp hmem))
  · by_cases he : p = b
    · rw [he]
      exact freedOnce_free (h.live b buf hb)
    · have hp : .kvzalloc p ∈ s.log := by simpa using hp
      dsimp only at hnone
      rw [Function.update_of_ne he] at hnone
      refine freedOnce_append (h.freed p hp hnone) fun e hmem => ?_
      rw [List.mem_singleton.mp hmem]
      exact Ne.symm he

/-- A new list is the dma-buf's, or has been freed. -/
theorem Owned.create (h : Owned s) (hkept : ¬ LosesList a) (ht : s.step (.create a) = some t) : Owned t := by
  obtain ⟨hheap, howner, hfreed⟩ := ioctl_kept hkept s.next
  obtain rfl := Option.some.inj ht
  have hnew {e : HeapEv} (he : e ∈ s.log) : addrOf e ≠ s.next := Nat.ne_of_lt (h.fresh e he)
  have hold {p : Addr} (hp : p ≠ s.next) {e : HeapEv} (he : e ∈ (hypUdmabufIoctlCreate a s.next).heap) : addrOf e ≠ p := by
    rw [hheap e he]
    exact Ne.symm hp
  refine ⟨fun e he => ?_, fun b buf hb => ?_, fun b buf hb hmem => ?_, fun p hp hnone => ?_⟩
  · rcases List.mem_append.mp he with he | he
    · exact Nat.lt_succ_of_lt (h.fresh e he)
    · rw [hheap e he]
      exact Nat.lt_succ_self _
  · dsimp only at hb ⊢
    by_cases he : b = s.next
    · rw [he, Function.update_self] at hb
      rw [he]
      exact ⟨(howner buf hb).1, Nat.lt_succ_self _⟩
    · rw [Function.update_of_ne he] at hb
      exact ⟨(h.owner b buf hb).1, Nat.lt_succ_of_lt (h.owner b buf hb).2⟩
  · dsimp only at hb
    by_cases he : b = s.next
    · rw [he, Function.update_self] at hb
      rw [he] at hmem
      rcases List.mem_append.mp hmem with hmem | hmem
      · exact hnew hmem rfl
      · exact (howner buf hb).2 hmem
    · rw [Function.update_of_ne he] at hb
      rcases List.mem_append.mp hmem with hmem | hmem
      · exact h.live b buf hb hmem
      · exact hold he hmem rfl
  · dsimp only at hnone
    by_cases he : p = s.next
    · rw [he, Function.update_self] at hnone
      rw [he] at hp ⊢
      rcases List.mem_append.mp hp with hp | hp
      · exact absurd rfl (hnew hp)
      · exact freedOnce_prepend (hfreed hnone hp) fun e => hnew
    · rw [Function.update_of_ne he] at hnone
      rcases List.mem_append.mp hp with hp | hp
      · exact freedOnce_append (h.freed p hp hnone) fun e => hold he
      · exact absurd rfl (hold he hp)

/-- `mmap` and `map` only access the list. -/
theorem mmap_heap (remap : Nat → Int) (list : List GuestMemRegion) (vma : Vma) (hlist : buf.priv.list = some b) :
    ∀ e ∈ (hypUdmabufMmap remap buf list vma).2.2, e = .access b := by
  unfold hypUdmabufMmap
  split
  · exact fun e he => absurd he List.not_mem_nil
  · rw [hlist]
    exact fun e he => List.mem_singleton.mp he

theorem map_heap (ans : SgtAnswers) (list : List GuestMemRegion) (hlist : buf.priv.list = some b) :
    ∀ e ∈ (hypUdmabufMap ans buf list).2, e = .access b := by
  unfold hypUdmabufMap hypUdmabufGetSgt
  rw [hlist]
  split
  · exact fun e he => absurd he List.not_mem_nil
  split
  · exact fun e he => absurd he List.not_mem_nil
  dsimp only
  split <;> exact fun e he => List.mem_singleton.mp he

theorem Owned.step {o : Op} (h : Owned s) (hkept : ∀ a, o = .create a → ¬ LosesList a) (ht : s.step o = some t) :
    Owned t := by
  cases o with
  | create a => exact h.create (hkept a rfl) ht
  | mmap b remap vma =>
    obtain ⟨buf, hb, rfl⟩ := Option.map_eq_some_iff.mp ht
    exact h.accesses hb (mmap_heap remap _ vma (h.owner b buf hb).1)
  | map b ans =>
    obtain ⟨buf, hb, rfl⟩ := Option.map_eq_some_iff.mp ht
    exact h.accesses hb (map_heap ans _ (h.owner b buf hb).1)
  | release b =>
    obtain ⟨buf, hb, rfl⟩ := Option.map_eq_some_iff.mp ht
    exact h.release hb

/-- Over a run in which no list is lost. -/
theorem owned_run {ops : List Op} (hkept : ∀ a, .create a ∈ ops → ¬ LosesList a) : Always Sys.step Owned {} ops := by
  refine inv_each (C := fun _ o _ => ∀ a, o = .create a → ¬ LosesList a) (fun s o t h ht hc => h.step hc ht) owned_init ?_
  intro bs o cs t u heq _ _ a ho
  refine hkept a ?_
  rw [heq, ho]
  simp

/-! ## A lost list -/

/-- A list that has been freed is a dma-buf's, or has been freed twice. -/
structure Doomed (p : Addr) (s : Sys) : Prop where
  lt : p < s.next
  allocated : .kvzalloc p ∈ s.log
  freed : (1 ≤ s.log.count (.kvfree p) ∧ ∃ buf, s.bufs p = some buf ∧ buf.priv.list = some p) ∨
    2 ≤ s.log.count (.kvfree p)

theorem doomed_of_loses (hlost : LosesList a) (ht : s.step (.create a) = some t) : Doomed s.next t := by
  obtain ⟨⟨head, hexports⟩, hback⟩ := hlost
  obtain ⟨hheap, buf, hbuf, hlist⟩ := ioctl_of_exports hexports s.next
  obtain rfl := Option.some.inj ht
  rw [if_pos hback] at hheap
  refine ⟨Nat.lt_succ_self _, ?_, .inl ⟨?_, buf, ?_, hlist⟩⟩
  · rw [hheap]
    simp
  · rw [hheap]
    simp
  · exact (Function.update_self ..).trans hbuf

theorem Doomed.grow (h : Doomed p s) (hnext : s.next ≤ t.next) (hlog : t.log = s.log ++ evs)
    (hbufs : t.bufs p = s.bufs p) : Doomed p t := by
  obtain ⟨hlt, halloc, hfreed⟩ := h
  have hcount : s.log.count (.kvfree p) ≤ t.log.count (.kvfree p) := by
    rw [hlog, List.count_append]
    exact Nat.le_add_right _ _
  refine ⟨Nat.lt_of_lt_of_le hlt hnext, ?_, ?_⟩
  · rw [hlog]
    exact List.mem_append_left _ halloc
  · rcases hfreed with ⟨hone, hbuf⟩ | htwo
    · rw [hbufs]
      exact .inl ⟨Nat.le_trans hone hcount, hbuf⟩
    · exact .inr (Nat.le_trans htwo hcount)

/-- The dma-buf frees the list once more. -/
theorem Doomed.release (h : Doomed p s) (hb : s.bufs p = some buf) :
    Doomed p { s with bufs := Function.update s.bufs p none, log := s.log ++ hypUdmabufRelease buf } := by
  obtain ⟨hlt, halloc, hfreed⟩ := h
  refine ⟨hlt, List.mem_append_left _ halloc, .inr ?_⟩
  rw [List.count_append]
  rcases hfreed with ⟨hone, buf', hb', hlist⟩ | htwo
  · obtain rfl : buf' = buf := Option.some.inj (hb'.symm.trans hb)
    have hfree : hypUdmabufRelease buf' = [.kvfree p] := by rw [hypUdmabufRelease, hlist]; rfl
    rw [hfree, List.count_singleton_self]
    exact Nat.succ_le_succ hone
  · exact Nat.le_trans htwo (Nat.le_add_right _ _)

theorem Doomed.step {o : Op} (h : Doomed p s) (ht : s.step o = some t) : Doomed p t := by
  cases o with
  | create a =>
    obtain rfl := Option.some.inj ht
    exact h.grow (Nat.le_succ _) rfl (Function.update_of_ne (Nat.ne_of_lt h.lt) ..)
  | mmap b remap vma =>
    obtain ⟨buf, hb, rfl⟩ := Option.map_eq_some_iff.mp ht
    exact h.grow le_rfl rfl rfl
  | map b ans =>
    obtain ⟨buf, hb, rfl⟩ := Option.map_eq_some_iff.mp ht
    exact h.grow le_rfl rfl rfl
  | release b =>
    obtain ⟨buf, hb, rfl⟩ := Option.map_eq_some_iff.mp ht
    by_cases he : b = p
    · rw [he] at hb ⊢
      exact h.release hb
    · exact h.grow le_rfl rfl (Function.update_of_ne (Ne.symm he) ..)

theorem Doomed.not_freedOnce (h : Doomed p s) (hend : s.bufs p = none) : ¬ FreedOnce s.log p := by
  intro honce
  rcases h.freed with ⟨-, buf, hb, -⟩ | htwo
  · rw [hend] at hb
    cases hb
  · rw [honce.once] at htwo
    exact absurd htwo (by decide)

/-- Once all dma-bufs have been released, every list has been freed exactly once,
and not been used afterwards, if and only if none was lost. -/
theorem freed_once_iff {ops : List Op} (h : exec Sys.step {} ops = some s) (hend : ∀ b, s.bufs b = none) :
    (∀ p, .kvzalloc p ∈ s.log → FreedOnce s.log p) ↔ ∀ a, .create a ∈ ops → ¬ LosesList a := by
  constructor
  · intro honce a ha hlost
    obtain ⟨bs, cs, rfl⟩ := List.append_of_mem ha
    obtain ⟨t, -, ht⟩ := exec_append_some.mp h
    obtain ⟨u, hu, hs⟩ := exec_cons_some.mp ht
    have hdoomed : Doomed t.next s := inv_exec (fun _ _ _ hd => hd.step) (doomed_of_loses hlost hu) hs
    exact hdoomed.not_freedOnce (hend _) (honce _ hdoomed.allocated)
  · intro hkept p hp
    have howned : Owned s := owned_run hkept ops [] s (List.append_nil _).symm h
    exact howned.freed p hp (hend p)

/-- The answers for one region of a page; `back` says if the arguments can be copied back. -/
def onePage (back : Bool) : IoctlAnswers :=
  { answered with
    head := some { flags := O_RDWR, count := 1, fd := 0, size := 0 }, list := true, copied := true
    regions := fun _ => ⟨0x40000000, 0x1000⟩, copiedBack := back }

/-- A buffer is created, mapped both ways and released. -/
def usedAndReleased : List Op :=
  [.create (onePage true), .mmap 0 (fun _ => 0) ⟨0x1000, 0x2000, 0⟩, .map 0 ⟨true, 0, 0⟩, .release 0]

theorem usedAndReleased_freedOnce : ∃ s, exec Sys.step {} usedAndReleased = some s ∧
    ∀ p, .kvzalloc p ∈ s.log → FreedOnce s.log p := by
  refine ⟨_, rfl, (@freed_once_iff _ usedAndReleased rfl fun b => ?_).mpr fun a ha hlost => ?_⟩
  · cases b <;> rfl
  · have hback := hlost.2
    simp only [usedAndReleased, List.mem_cons, Op.create.injEq, reduceCtorEq, List.not_mem_nil, or_false] at ha
    rw [ha] at hback
    cases hback

/-- The list is freed by the ioctl, and again when the dma-buf is released. -/
theorem notCopiedBack_freedTwice : ¬ ∀ ops s, exec Sys.step {} ops = some s → (∀ b, s.bufs b = none) →
    ∀ p, .kvzalloc p ∈ s.log → FreedOnce s.log p := by
  intro h
  have honce := h [.create (onePage false), .release 0] _ rfl (fun b => by cases b <;> rfl) 0 (by decide)
  exact absurd honce.once (by decide)

end GH.Proof.HypUdmabuf
