import Gunyah.Proof.Rm.Accept

/-!
# The fragments of an SG list

The loop of `gh_rm_mem_accept` keeps the fragments in a list that grows at its head
(`loop_gather`), and goes on exactly as long as every reply has a fragment that is not the
last (`loop_iff`). So the SG list that it returns has the fragments in the opposite
order (`accept_returns`), and a fragment without entries does not bring
the loop nearer to its end (`loop_ends_iff`).
-/

namespace GH.Proof.Rm

open GH.Impl GH.Impl.Rm GH.Spec.Rm

/-! ## Lists of lists -/

section

variable {α : Type*} {frags : List (List α)} {f : List α}

theorem reverse_flatten_cons (f : List α) (frags : List (List α)) :
    (f :: frags).reverse.flatten = frags.reverse.flatten ++ f := by simp

theorem mem_reverse_flatten {x : α} : x ∈ frags.reverse.flatten ↔ x ∈ frags.flatten := by simp

theorem reverse_flatten_nil : frags.reverse.flatten = [] ↔ frags.flatten = [] := by simp

theorem atMostOne_cons_nil : AtMostOne ([] :: frags) ↔ AtMostOne frags := Iff.rfl

theorem atMostOne_cons (hf : f ≠ []) : AtMostOne (f :: frags) ↔ frags.flatten = [] := by
  rw [AtMostOne, List.filter_cons_of_pos (by simpa using hf), List.length_cons, List.flatten_eq_nil_iff]
  constructor
  · intro h g hg
    have hnil : frags.filter (fun f => !f.isEmpty) = [] := List.length_eq_zero_iff.mp (by omega)
    simpa using List.filter_eq_nil_iff.mp hnil g hg
  · intro h
    have hnil : frags.filter (fun f => !f.isEmpty) = [] :=
      List.filter_eq_nil_iff.mpr fun g hg => by simp [h g hg]
    rw [hnil, List.length_nil]

theorem reverse_flatten_of_atMostOne (h : AtMostOne frags) : frags.reverse.flatten = frags.flatten := by
  induction frags with
  | nil => rfl
  | cons f frags ih =>
    rw [reverse_flatten_cons, List.flatten_cons]
    by_cases hf : f = []
    · subst hf
      rw [ih (atMostOne_cons_nil.mp h), List.append_nil, List.nil_append]
    · have hnil := (atMostOne_cons hf).mp h
      rw [reverse_flatten_nil.mpr hnil, hnil, List.nil_append, List.append_nil]

/-- Lists without a common element are in the same order both ways only if there is no second one: otherwise
the first element would be the first of another list. -/
theorem atMostOne_of_reverse_flatten (h : frags.flatten.Nodup) (heq : frags.reverse.flatten = frags.flatten) :
    AtMostOne frags := by
  induction frags with
  | nil =>
    show 0 ≤ 1
    omega
  | cons f frags ih =>
    rw [List.flatten_cons, List.nodup_append] at h
    obtain ⟨-, hfrags, hdisjoint⟩ := h
    rw [reverse_flatten_cons, List.flatten_cons] at heq
    cases f with
    | nil =>
      rw [List.append_nil, List.nil_append] at heq
      exact atMostOne_cons_nil.mpr (ih hfrags heq)
    | cons x f =>
      rw [atMostOne_cons (List.cons_ne_nil x f), ← reverse_flatten_nil]
      cases hrev : frags.reverse.flatten with
      | nil => rfl
      | cons y rest =>
        rw [hrev] at heq
        have hyx : y = x := (List.cons.inj heq).1
        have hy : y ∈ frags.flatten := mem_reverse_flatten.mp (by rw [hrev]; exact List.mem_cons_self)
        exact absurd hyx.symm (hdisjoint x List.mem_cons_self y hy)

theorem sameBothWays_iff : SameBothWays frags ↔ frags.reverse.flatten = frags.flatten := by
  constructor
  · rintro (h | h)
    · exact reverse_flatten_of_atMostOne h
    · exact h.2
  · intro h
    by_cases hnodup : frags.flatten.Nodup
    · exact .inl (atMostOne_of_reverse_flatten hnodup h)
    · exact .inr ⟨hnodup, h⟩

end

/-! ## Turns of the loop -/

section

variable {a : AcceptArgs} {env : AcceptEnv} {xs : Nat → Outcome} {s : Accept} {x : Outcome} {k n : Nat}

theorem turn_more {gather : SglFragment} (hg : AddsFragment a env s x gather) (hi : Incomplete x) :
    s.turn a env x.callRet = { s with acceptInProgress := true, gather := gather } := by
  obtain ⟨hpass, h0, happ⟩ := hg
  obtain ⟨hx, hcheck⟩ := passes_iff.mp hpass
  unfold Accept.turn
  rw [checkedReply_of_answered env.out hx]
  simp only
  rw [if_neg (by rw [hcheck]; decide), if_neg h0, happ]
  exact if_pos hi

theorem turn_last {gather : SglFragment} (hg : AddsFragment a env s x gather) (hi : ¬ Incomplete x) :
    s.turn a env x.callRet = { s with acceptInProgress := true, gather := gather }.afterLoop a env := by
  obtain ⟨hpass, h0, happ⟩ := hg
  obtain ⟨hx, hcheck⟩ := passes_iff.mp hpass
  unfold Accept.turn
  rw [checkedReply_of_answered env.out hx]
  simp only
  rw [if_neg (by rw [hcheck]; decide), if_neg h0, happ]
  exact if_neg hi

theorem errRmCall_pc (ret : Int) : (s.errRmCall ret).pc ≠ .accept := by
  unfold Accept.errRmCall
  by_cases h : s.acceptInProgress = true
  · rw [if_pos h]
    exact AcceptPc.noConfusion
  · rw [if_neg h]
    exact AcceptPc.noConfusion

theorem finish_pc : (s.finish a env).pc ≠ .accept := by
  unfold Accept.finish
  by_cases h : a.sglDesc.isSome = true
  · rw [if_pos h]
    exact AcceptPc.noConfusion
  · rw [if_neg h]
    cases ghSglFragmentCombine s.gather env.combine with
    | error e => exact errRmCall_pc e
    | ok desc => exact AcceptPc.noConfusion

theorem afterLoop_pc : (s.afterLoop a env).pc ≠ .accept := by
  unfold Accept.afterLoop
  by_cases h : a.multiCall = true ∧ a.has GH_RM_MEM_ACCEPT_DONE = true
  · rw [if_pos h]
    exact AcceptPc.noConfusion
  · rw [if_neg h]
    exact finish_pc

/-- The loop goes on only with a fragment that is not the last. -/
theorem turn_pc (h : (s.turn a env x.callRet).pc = .accept) :
    Incomplete x ∧ ∃ gather, AddsFragment a env s x gather := by
  have ht := turn_turns a env s x
  generalize s.turn a env x.callRet = t at h ht
  cases ht with
  | fails _ ret => exact absurd h (errRmCall_pc ret)
  | stops _ _ ret => exact absurd h (errRmCall_pc ret)
  | empty => exact absurd h afterLoop_pc
  | more gather hg hi => exact ⟨hi, gather, hg⟩
  | last => exact absurd h afterLoop_pc

/-- The function does not come back to the loop. -/
theorem step_pc {t : Accept} (ht : acceptStep a env s x = some t) (h : t.pc = .accept) :
    s.pc = .accept ∧ t = s.turn a env x.callRet := by
  unfold acceptStep Accept.step at ht
  cases hpc : s.pc with
  | accept =>
    simp only [hpc, Option.some.injEq] at ht
    exact ⟨rfl, ht.symm⟩
  | done =>
    simp only [hpc] at ht
    split at ht
    · cases ht
      exact absurd h (errRmCall_pc _)
    · cases ht
      exact absurd h finish_pc
  | release ret =>
    simp only [hpc, Option.some.injEq] at ht
    rw [← ht] at h
    cases h
  | ret _ | fault =>
    simp only [hpc] at ht
    cases ht

theorem accept_of_succ (h : (acceptAt a env xs (k + 1)).pc = .accept) : (acceptAt a env xs k).pc = .accept := by
  cases ht : acceptStep a env (acceptAt a env xs k) (xs k) with
  | none =>
    have heq : acceptAt a env xs (k + 1) = acceptAt a env xs k := driven_succ_none ht
    rwa [heq] at h
  | some t =>
    have heq : acceptAt a env xs (k + 1) = t := driven_succ ht
    rw [heq] at h
    exact (step_pc ht h).1

theorem accept_of_le (h : (acceptAt a env xs n).pc = .accept) (hk : k ≤ n) : (acceptAt a env xs k).pc = .accept := by
  obtain ⟨d, rfl⟩ := Nat.exists_eq_add_of_le hk
  induction d with
  | zero => exact h
  | succ d ih => exact ih (accept_of_succ h) (Nat.le_add_right k d)

/-! ## What the loop has gathered -/

theorem fragments_succ : fragments xs (k + 1) = fragments xs k ++ [respSglEntries (xs k).reply] := by
  simp [fragments, List.range_succ]

theorem total_succ : total xs (k + 1) = total xs k + respNSglEntries (xs k).reply := by
  simp [total, List.range_succ]

/-- The fragments of the first `k` replies, as they are kept. -/
def gathered (xs : Nat → Outcome) (k : Nat) : SglFragment :=
  ⟨(fragments xs k).reverse, BitVec.ofNat 16 (total xs k)⟩

theorem gathered_succ :
    gathered xs (k + 1) = ⟨respSglEntries (xs k).reply :: (gathered xs k).list,
      (gathered xs k).nSglEntries + BitVec.ofNat 16 (respNSglEntries (xs k).reply)⟩ := by
  simp [gathered, fragments_succ, total_succ, BitVec.ofNat_add]

theorem gathers_iff (hs : s.gather = gathered xs k) (ht : total xs k ≤ 65535) {gather : SglFragment} :
    AddsFragment a env s (xs k) gather ↔
      (Passes a (xs k) ∧ (xs k).size ≠ 0 ∧ env.entry k = true) ∧ total xs (k + 1) ≤ 65535 ∧
        gather = gathered xs (k + 1) := by
  have hlen : (gathered xs k).list.length = k := by simp [gathered, fragments]
  have hn : (gathered xs k).nSglEntries.toNat = total xs k := by
    show (BitVec.ofNat 16 (total xs k)).toNat = _
    rw [BitVec.toNat_ofNat, Nat.mod_eq_of_lt (by omega)]
  have hle : respNSglEntries (xs k).reply ≤ 65535 - total xs k ↔ total xs (k + 1) ≤ 65535 := by
    rw [total_succ]
    omega
  unfold AddsFragment
  rw [hs, append_ok_iff, hlen, hn, hle, ← gathered_succ]
  constructor
  · rintro ⟨hpass, h0, hle, halloc, hgather⟩
    exact ⟨⟨hpass, h0, halloc⟩, hle, hgather⟩
  · rintro ⟨⟨hpass, h0, halloc⟩, hle, hgather⟩
    exact ⟨hpass, h0, hle, halloc, hgather⟩

/-- Reply `k` has a fragment that is kept, and is not the last. -/
def GoesOn (a : AcceptArgs) (env : AcceptEnv) (xs : Nat → Outcome) (k : Nat) : Prop :=
  (Passes a (xs k) ∧ (xs k).size ≠ 0 ∧ env.entry k = true) ∧ Incomplete (xs k)

theorem acceptAt_zero (hask : Asks a env) : (acceptAt a env xs 0).pc = .accept ∧ (acceptAt a env xs 0).gather = gathered xs 0 := by
  obtain ⟨args, hargs⟩ := hask
  have hstart : (Accept.start a env).request a env = some args := hargs
  show (Accept.start a env).pc = .accept ∧ (Accept.start a env).gather = gathered xs 0
  unfold Accept.start at hstart ⊢
  cases hreq : ghRmMemAcceptPrepareRequest a env.alloc with
  | error e =>
    rw [hreq] at hstart
    cases hstart
  | ok req =>
    rw [hreq] at hstart
    simp only at hstart ⊢
    cases hbytes : req.bytes with
    | none =>
      rw [hbytes] at hstart
      cases hstart
    | some reqPayload =>
      rw [hbytes] at hstart
      simp only at hstart ⊢
      by_cases hgather : env.gather = false
      · rw [if_pos hgather] at hstart
        cases hstart
      · rw [if_neg hgather]
        exact ⟨rfl, rfl⟩

/-- The loop is at its turn `k` exactly if all replies before it have fragments that are not the
last, and fit in; and it has kept them then. -/
theorem loop_iff (hask : Asks a env) (k : Nat) :
    ((acceptAt a env xs k).pc = .accept ↔ (∀ j < k, GoesOn a env xs j) ∧ total xs k ≤ 65535) ∧
    ((acceptAt a env xs k).pc = .accept → (acceptAt a env xs k).gather = gathered xs k) := by
  induction k with
  | zero =>
    obtain ⟨hpc, hgather⟩ : (acceptAt a env xs 0).pc = .accept ∧ (acceptAt a env xs 0).gather = gathered xs 0 :=
      acceptAt_zero hask
    exact ⟨iff_of_true hpc ⟨by simp, by simp [total]⟩, fun _ => hgather⟩
  | succ k ih =>
    obtain ⟨hiff, hgather⟩ := ih
    have hmono : total xs k ≤ total xs (k + 1) := by
      rw [total_succ]
      omega
    by_cases hpc : (acceptAt a env xs k).pc = .accept
    · have ht := (hiff.mp hpc).2
      have hturn := acceptAt_succ hpc
      have hgathers (gather : SglFragment) : AddsFragment a env (acceptAt a env xs k) (xs k) gather ↔ _ :=
        gathers_iff (hgather hpc) ht
      by_cases hon : GoesOn a env xs k ∧ total xs (k + 1) ≤ 65535
      · obtain ⟨hon, hle⟩ := hon
        have hnext : acceptAt a env xs (k + 1) = _ := hturn.trans
          (turn_more ((hgathers _).mpr ⟨hon.1, hle, rfl⟩) hon.2)
        rw [hnext]
        refine ⟨iff_of_true hpc ⟨fun j hj => ?_, hle⟩, fun _ => rfl⟩
        rcases Nat.lt_succ_iff_lt_or_eq.mp hj with hj | rfl
        · exact (hiff.mp hpc).1 j hj
        · exact hon
      · have hno : ¬ (acceptAt a env xs (k + 1)).pc = .accept := by
          rw [hturn]
          intro h
          obtain ⟨hi, gather, hg⟩ := turn_pc h
          obtain ⟨hok, hle, -⟩ := (hgathers gather).mp hg
          exact hon ⟨⟨hok, hi⟩, hle⟩
        exact ⟨iff_of_false hno fun h => hon ⟨h.1 k (Nat.lt_succ_self k), h.2⟩, fun h => absurd h hno⟩
    · have hno : ¬ (acceptAt a env xs (k + 1)).pc = .accept := fun h => hpc (accept_of_succ h)
      refine ⟨iff_of_false hno fun h => hpc (hiff.mpr ⟨fun j hj => h.1 j (by omega), by omega⟩), fun h => absurd h hno⟩

/-! ## The list that is returned -/

theorem size_eq_zero_iff (h : Passes a x) : x.size = 0 ↔ a.sglDesc.isSome = true := by
  refine ⟨sgl_of_empty h, fun hsgl => ?_⟩
  rw [h.2, if_pos hsgl]

theorem finish_returns (hsgl : a.sglDesc = none) (hcombine : env.combine = true) :
    (s.finish a env).pc = .ret (.ok (some (s.gather.nSglEntries, s.gather.list.flatten))) := by
  unfold Accept.finish
  rw [if_neg (by rw [hsgl]; decide), ghSglFragmentCombine, hcombine]
  rfl

/-- The descriptor that is returned for an SG list in fragments: the last fragment comes first. -/
theorem accept_returns (hsgl : a.sglDesc = none) (hask : Asks a env) (halloc : Allocated env)
    (h : InFragments a xs n)
    (hdone : a.multiCall = true → a.has GH_RM_MEM_ACCEPT_DONE = true → (xs n).Answered) :
    Returns a env xs (BitVec.ofNat 16 (total xs n)) (fragments xs n).reverse.flatten := by
  obtain ⟨m, rfl⟩ : ∃ m, n = m + 1 := ⟨n - 1, by have := h.some; omega⟩
  have hkept (j : Nat) (hj : j < m + 1) : Passes a (xs j) ∧ (xs j).size ≠ 0 ∧ env.entry j = true := by
    have hpass := h.passes j hj
    refine ⟨hpass, fun h0 => ?_, halloc.entry j⟩
    rw [size_eq_zero_iff hpass, hsgl] at h0
    cases h0
  have hle : total xs m ≤ 65535 := by
    have := h.total
    rw [total_succ] at this
    omega
  obtain ⟨hiff, hgather⟩ : ((acceptAt a env xs m).pc = .accept ↔ _) ∧ (_ → (acceptAt a env xs m).gather = _) :=
    loop_iff hask m
  have hpc := hiff.mpr ⟨fun j hj => ⟨hkept j (by omega), h.more j (by omega)⟩, hle⟩
  have hlast : AddsFragment a env (acceptAt a env xs m) (xs m) (gathered xs (m + 1)) :=
    (gathers_iff (hgather hpc) hle).mpr ⟨hkept m (Nat.lt_succ_self m), h.total, rfl⟩
  have hturn := (acceptAt_succ hpc).trans (turn_last hlast h.last)
  unfold Accept.afterLoop at hturn
  by_cases hcall : a.multiCall = true ∧ a.has GH_RM_MEM_ACCEPT_DONE = true
  · rw [if_pos hcall] at hturn
    have hstep : acceptStep a env (acceptAt a env xs (m + 1)) (xs (m + 1)) =
        some ((acceptAt a env xs (m + 1)).finish a env) := by
      rw [hturn]
      unfold acceptStep Accept.step
      simp only [checkedReply_of_answered env.out (hdone hcall.1 hcall.2)]
    have hnext : acceptAt a env xs (m + 2) = (acceptAt a env xs (m + 1)).finish a env := driven_succ hstep
    refine ⟨m + 2, ?_⟩
    rw [hnext, finish_returns hsgl halloc.combine, hturn]
    rfl
  · rw [if_neg hcall] at hturn
    refine ⟨m + 1, ?_⟩
    rw [hturn, finish_returns hsgl halloc.combine]
    rfl

/-- The function returns once. -/
theorem returns_unique {nSglEntries nSglEntries' : BitVec 16} {sgl sgl' : List SglEntry}
    (h : Returns a env xs nSglEntries sgl) (h' : Returns a env xs nSglEntries' sgl') :
    nSglEntries = nSglEntries' ∧ sgl = sgl' := by
  obtain ⟨j, hj⟩ := h
  obtain ⟨k, hk⟩ := h'
  have hstuck (i l : Nat) (res : Except Int (Option (BitVec 16 × List SglEntry))) (hil : i ≤ l)
      (hi : (acceptAt a env xs i).pc = .ret res) : (acceptAt a env xs l).pc = .ret res := by
    have heq : acceptAt a env xs l = acceptAt a env xs i := driven_stuck (step_ended (.inl ⟨res, hi⟩)) hil
    rw [heq, hi]
  have heq : AcceptPc.ret (.ok (some (nSglEntries, sgl))) = .ret (.ok (some (nSglEntries', sgl'))) := by
    rcases Nat.le_total j k with hjk | hkj
    · rw [← hk, hstuck j k _ hjk hj]
    · rw [← hj, hstuck k j _ hkj hk]
  cases heq
  exact ⟨rfl, rfl⟩

end

/-- The returned descriptor counts the entries, and has them in the order in which the RM returned them, exactly if
the fragments have the same entries in the same order from either end. -/
theorem accepted_in_order_iff (a : AcceptArgs) (env : AcceptEnv) (xs : Nat → Outcome) (n : Nat)
    (hsgl : a.sglDesc = none) (hask : Asks a env) (halloc : Allocated env) (h : InFragments a xs n)
    (hdone : a.multiCall = true → a.has GH_RM_MEM_ACCEPT_DONE = true → (xs n).Answered) :
    (∃ nSglEntries sgl, Returns a env xs nSglEntries sgl ∧ nSglEntries.toNat = total xs n ∧
      sgl = (fragments xs n).flatten) ↔ SameBothWays (fragments xs n) := by
  have hret := accept_returns hsgl hask halloc h hdone
  rw [sameBothWays_iff]
  constructor
  · rintro ⟨nSglEntries, sgl, hret', -, rfl⟩
    exact (returns_unique hret hret').2
  · intro heq
    have htotal := h.total
    refine ⟨_, _, hret, ?_, heq⟩
    rw [BitVec.toNat_ofNat, Nat.mod_eq_of_lt (by omega)]

/-- A reply with one entry, for memory at `base`. -/
def oneEntry (flags base : Byte) : Outcome :=
  .answered (some ([1, 0, flags, 0] ++ [base, 0, 0, 0, 0, 0, 0, 0, 16, 0, 0, 0, 0, 0, 0, 0])) 20

/-- A fragment without entries, which is not the last. -/
def emptyFragment : Outcome := .answered (some [0, 0, 1, 0]) 4

/-- Two fragments, the first of them without entries. -/
def emptyFirst : Nat → Outcome
  | 0 => emptyFragment
  | _ + 1 => oneEntry 0 32

theorem accepted_in_order_iff_emptyFirst :
    ∃ nSglEntries sgl, Returns (acceptPlain 0) { out := ⟨0, 0⟩ } emptyFirst nSglEntries sgl ∧
      nSglEntries.toNat = 1 ∧ sgl = [⟨32, 16⟩] := by
  have hone : Passes (acceptPlain 0) (oneEntry 0 32) := ⟨trivial, rfl⟩
  have hpasses (k : Nat) : Passes (acceptPlain 0) (emptyFirst k) := by
    cases k with
    | zero => exact ⟨trivial, rfl⟩
    | succ k => exact hone
  have hmore (k : Nat) (hk : k + 1 < 2) : Incomplete (emptyFirst k) := by
    obtain rfl : k = 0 := by omega
    decide
  exact (accepted_in_order_iff (acceptPlain 0) { out := ⟨0, 0⟩ } emptyFirst 2 rfl ⟨_, rfl⟩
    ⟨rfl, rfl, fun _ => rfl, rfl⟩ ⟨by decide, fun k _ => hpasses k, hmore, by decide, by decide⟩
    fun _ _ => trivial).mpr (.inl (by decide))

/-- Two fragments with an entry each. -/
def twoEntries : Nat → Outcome
  | 0 => oneEntry 1 32
  | _ + 1 => oneEntry 0 48

theorem two_fragments_swapped :
    ¬ ∀ (a : AcceptArgs) (env : AcceptEnv) (xs : Nat → Outcome) (n : Nat), a.sglDesc = none → Asks a env →
      Allocated env → InFragments a xs n →
      (a.multiCall = true → a.has GH_RM_MEM_ACCEPT_DONE = true → (xs n).Answered) →
      ∃ nSglEntries sgl, Returns a env xs nSglEntries sgl ∧ nSglEntries.toNat = total xs n ∧
        sgl = (fragments xs n).flatten := by
  intro hall
  have hask : Asks (acceptPlain 0) { out := ⟨0, 0⟩ } := ⟨_, rfl⟩
  have halloc : Allocated { out := ⟨0, 0⟩ } := ⟨rfl, rfl, fun _ => rfl, rfl⟩
  have h : InFragments (acceptPlain 0) twoEntries 2 := by
    refine ⟨by decide, fun k hk => ?_, fun k hk => ?_, by decide, by decide⟩
    · rcases (by omega : k = 0 ∨ k = 1) with rfl | rfl <;> exact ⟨trivial, rfl⟩
    · rcases (by omega : k = 0) with rfl
      decide
  obtain ⟨_, _, hret, -, rfl⟩ := hall _ _ _ 2 rfl hask halloc h fun _ _ => trivial
  have heq := (returns_unique (accept_returns rfl hask halloc h fun _ _ => trivial) hret).2
  exact absurd heq (by decide)

/-! ## The end of the loop -/

section

variable {a : AcceptArgs} {env : AcceptEnv} {xs : Nat → Outcome}

theorem loopTurns_le_iff (a : AcceptArgs) (env : AcceptEnv) (xs : Nat → Outcome) (n : Nat) :
    (∀ m, loopTurns a env xs m ≤ n) ↔ (acceptAt a env xs n).pc ≠ .accept := by
  constructor
  · intro h hpc
    have hall : loopTurns a env xs (n + 1) = (List.range (n + 1)).length := by
      refine List.countP_eq_length.mpr fun k hk => ?_
      exact decide_eq_true (accept_of_le hpc (Nat.lt_succ_iff.mp (List.mem_range.mp hk)))
    have := h (n + 1)
    rw [hall, List.length_range] at this
    omega
  · intro hpc m
    rcases Nat.le_total m n with hm | hm
    · calc loopTurns a env xs m ≤ (List.range m).length := List.countP_le_length
        _ = m := List.length_range
        _ ≤ n := hm
    · obtain ⟨d, rfl⟩ := Nat.exists_eq_add_of_le hm
      have hrest : (List.range d).countP (fun i => decide ((acceptAt a env xs (n + i)).pc = .accept)) = 0 := by
        refine List.countP_eq_zero.mpr fun i _ => ?_
        simp only [decide_eq_true_eq]
        exact fun h => hpc (accept_of_le h (Nat.le_add_right n i))
      calc loopTurns a env xs (n + d)
          = (List.range n).countP (fun k => decide ((acceptAt a env xs k).pc = .accept)) + 0 := by
            rw [loopTurns, List.range_add, List.countP_append, List.countP_map, ← hrest]
            rfl
        _ ≤ (List.range n).length := List.countP_le_length
        _ = n := List.length_range

theorem goesOn_iff {k : Nat} (h : Passes a (xs k)) :
    GoesOn a env xs k ↔ a.sglDesc.isSome = false ∧ Incomplete (xs k) ∧ env.entry k = true := by
  unfold GoesOn
  rw [and_iff_right h, ne_eq, size_eq_zero_iff h, Bool.not_eq_true]
  constructor
  · rintro ⟨⟨hsgl, hentry⟩, hi⟩
    exact ⟨hsgl, hi, hentry⟩
  · rintro ⟨hsgl, hi, hentry⟩
    exact ⟨⟨hsgl, hentry⟩, hi⟩

/-- Replies that all have entries are too many in time. -/
theorem endsInTime_of_entries (h : ∀ k < 65536, 0 < respNSglEntries (xs k).reply) : EndsInTime a env xs := by
  have hle (n : Nat) (hn : n ≤ 65536) : n ≤ total xs n := by
    induction n with
    | zero => omega
    | succ n ih =>
      have hpos := h n (by omega)
      have hih := ih (by omega)
      rw [total_succ]
      omega
  exact .inr (.inr (hle 65536 (by omega)))

end

/-- With replies that pass the check, the loop makes no more than 65536 requests exactly if it ends with one of the first
65536 replies. -/
theorem loop_ends_iff (a : AcceptArgs) (env : AcceptEnv) (xs : Nat → Outcome) (hask : Asks a env)
    (hx : ∀ k, Passes a (xs k)) : (∀ n, loopTurns a env xs n ≤ 65536) ↔ EndsInTime a env xs := by
  rw [loopTurns_le_iff, ne_eq, (loop_iff hask 65536).1]
  constructor
  · intro h
    by_contra hno
    simp only [EndsInTime, not_or, not_exists, not_and, Bool.not_eq_true, Bool.not_eq_false, not_not, Nat.not_lt] at hno
    obtain ⟨hsgl, hon, hle⟩ := hno
    exact h ⟨fun k hk => (goesOn_iff (hx k)).mpr ⟨hsgl, hon k hk⟩, hle⟩
  · rintro hends ⟨hon, hle⟩
    rcases hends with hsgl | ⟨k, hk, hlast⟩ | hgt
    · have hnone := ((goesOn_iff (hx 0)).mp (hon 0 (by omega))).1
      rw [hsgl] at hnone
      cases hnone
    · obtain ⟨-, hi, hentry⟩ := (goesOn_iff (hx k)).mp (hon k hk)
      rcases hlast with hlast | hlast
      · exact hlast hi
      · rw [hlast] at hentry
        cases hentry
    · omega

theorem loop_ends_iff_one :
    (∀ n, loopTurns (acceptPlain 0) { out := ⟨0, 0⟩ } (fun _ => oneEntry 0 32) n ≤ 65536) ∧
      EndsInTime (acceptPlain 0) { out := ⟨0, 0⟩ } fun _ => oneEntry 0 32 := by
  have hends : EndsInTime (acceptPlain 0) { out := ⟨0, 0⟩ } fun _ => oneEntry 0 32 :=
    .inr (.inl ⟨0, by decide, .inl (by decide)⟩)
  exact ⟨(loop_ends_iff (acceptPlain 0) { out := ⟨0, 0⟩ } (fun _ => oneEntry 0 32) ⟨_, rfl⟩
    fun _ => ⟨trivial, rfl⟩).mpr hends, hends⟩

theorem loop_never_ends :
    ¬ ∀ (a : AcceptArgs) (env : AcceptEnv) (xs : Nat → Outcome), Asks a env → (∀ k, Passes a (xs k)) →
      ∀ n, loopTurns a env xs n ≤ 65536 := by
  intro hall
  have hask : Asks (acceptPlain 0) { out := ⟨0, 0⟩ } := ⟨_, rfl⟩
  have hx : Passes (acceptPlain 0) emptyFragment := ⟨trivial, rfl⟩
  have htotal (n : Nat) : total (fun _ => emptyFragment) n = 0 := by
    induction n with
    | zero => rfl
    | succ n ih =>
      rw [total_succ, ih]
      rfl
  have hle := hall (acceptPlain 0) { out := ⟨0, 0⟩ } (fun _ => emptyFragment) hask fun _ => hx
  refine (loopTurns_le_iff _ _ _ _).mp hle ((loop_iff hask 65536).1.mpr ⟨fun k _ => ?_, ?_⟩)
  · have hiff : GoesOn (acceptPlain 0) { out := ⟨0, 0⟩ } (fun _ => emptyFragment) k ↔ _ := goesOn_iff hx
    exact hiff.mpr ⟨rfl, by decide, rfl⟩
  · rw [htotal]
    omega

end GH.Proof.Rm
