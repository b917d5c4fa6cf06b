import Gunyah.Proof.Rm.Share
import Gunyah.Spec.Rm.Accept

/-!
# The calls of `gh_rm_mem_accept`

`Turns` has the ways in which a turn of the loop ends, and `Place` what is known wherever
the function is: which of its requests had `GH_RM_MEM_ACCEPT_DONE`, and whether
there is memory to be released. A call keeps it (`place_turn`, `place_done`, `place_release`), so it
holds of all streams of outcomes (`place_acceptAt`).
-/

namespace GH.Proof.Rm

open GH.Impl GH.Impl.Rm GH.Spec.Rm

variable {a : AcceptArgs} {env : AcceptEnv} {s : Accept} {x : Outcome}

/-! ## A turn of the loop -/

theorem passes_iff :
    Passes a x ↔ x.Answered ∧ ghRmMemAcceptCheckResp x.reply x.size a.sglDesc.isSome = true := by
  unfold Passes ghRmMemAcceptCheckResp
  refine and_congr_right fun _ => ?_
  rw [beq_iff_eq]
  split
  · rfl
  · split <;> omega

/-- The fragment in the reply is checked and added, as `gh_sgl_fragment_append` does it. -/
def AddsFragment (a : AcceptArgs) (env : AcceptEnv) (s : Accept) (x : Outcome) (gather : SglFragment) : Prop :=
  Passes a x ∧ x.size ≠ 0 ∧ ghSglFragmentAppend s.gather x.reply (env.entry s.gather.list.length) = .ok gather

/-- The ways in which a turn of the loop ends. -/
inductive Turns (a : AcceptArgs) (env : AcceptEnv) (s : Accept) (x : Outcome) : Accept → Prop where
  | fails (h : ¬ x.Answered) (ret : Int) : Turns a env s x (s.errRmCall ret)
  | stops (h : x.Answered) (hno : ¬ ∃ gather, AddsFragment a env s x gather) (ret : Int) :
    Turns a env s x ({ s with acceptInProgress := true }.errRmCall ret)
  | empty (h : x.Answered) (hsgl : a.sglDesc.isSome = true) :
    Turns a env s x ({ s with acceptInProgress := true }.afterLoop a env)
  | more (gather : SglFragment) (hg : AddsFragment a env s x gather) (hi : Incomplete x) :
    Turns a env s x { s with acceptInProgress := true, gather := gather }
  | last (gather : SglFragment) (hg : AddsFragment a env s x gather) (hi : ¬ Incomplete x) :
    Turns a env s x ({ s with acceptInProgress := true, gather := gather }.afterLoop a env)

theorem checkedReply_of_answered (o : Out) (h : x.Answered) : checkedReply o x.callRet = .ok (x.reply, x.size) := by
  cases x with
  | answered payload size => rfl
  | early _ _ | aborted | refused _ _ => exact absurd h id

/-- Only a caller that gave the list gets an empty reply. -/
theorem sgl_of_empty (h : Passes a x) (h0 : x.size = 0) : a.sglDesc.isSome = true := by
  have hsize := h.2
  by_contra hno
  rw [if_neg hno] at hsize
  omega

theorem turn_turns (a : AcceptArgs) (env : AcceptEnv) (s : Accept) (x : Outcome) :
    Turns a env s x (s.turn a env x.callRet) := by
  unfold Accept.turn
  by_cases h : x.Answered
  · rw [checkedReply_of_answered env.out h]
    simp only
    by_cases hcheck : ghRmMemAcceptCheckResp x.reply x.size a.sglDesc.isSome = false
    · rw [if_pos hcheck]
      refine .stops h ?_ _
      rintro ⟨gather, hpass, -⟩
      have hpassed := (passes_iff.mp hpass).2
      rw [hcheck] at hpassed
      cases hpassed
    rw [if_neg hcheck]
    have hpass : Passes a x := passes_iff.mpr ⟨h, by simpa using hcheck⟩
    by_cases h0 : x.size = 0
    · rw [if_pos h0]
      exact .empty h (sgl_of_empty hpass h0)
    rw [if_neg h0]
    cases happ : ghSglFragmentAppend s.gather x.reply (env.entry s.gather.list.length) with
    | error e =>
      refine .stops h ?_ _
      rintro ⟨gather, -, -, hg⟩
      rw [happ] at hg
      cases hg
    | ok gather =>
      simp only
      by_cases hi : respFlags x.reply &&& GH_MEM_ACCEPT_RESP_INCOMPLETE ≠ 0
      · rw [if_pos hi]
        exact .more gather ⟨hpass, h0, happ⟩ hi
      · rw [if_neg hi]
        exact .last gather ⟨hpass, h0, happ⟩ hi
  · obtain ⟨e, he, -⟩ := checkedReply_error env.out h
    rw [he]
    exact .fails h e

theorem append_ok_iff {gather gather' : SglFragment} {resp : List Byte} {alloc : Bool} :
    ghSglFragmentAppend gather resp alloc = .ok gather' ↔
      respNSglEntries resp ≤ 65535 - gather.nSglEntries.toNat ∧ alloc = true ∧
        gather' = ⟨respSglEntries resp :: gather.list, gather.nSglEntries + BitVec.ofNat 16 (respNSglEntries resp)⟩ := by
  unfold ghSglFragmentAppend
  by_cases hn : respNSglEntries resp > 65535 - gather.nSglEntries.toNat
  · rw [if_pos hn]
    refine iff_of_false (by simp) fun h => ?_
    omega
  · rw [if_neg hn]
    cases alloc with
    | false => simp
    | true =>
      simp only [Bool.true_eq_false, if_false, Except.ok.injEq, true_and]
      rw [eq_comm, and_iff_right (by omega)]

theorem errRmCall_gather (ret : Int) : (s.errRmCall ret).gather = s.gather := rfl

theorem afterLoop_gather : (s.afterLoop a env).gather = s.gather := by
  unfold Accept.afterLoop
  split
  · rfl
  unfold Accept.finish
  split
  · rfl
  split <;> rfl

/-- What a turn gathers is what it adds. -/
theorem Turns.gathers_iff {t : Accept} (h : Turns a env s x t) :
    Gathers a s x t ↔ ∃ gather, AddsFragment a env s x gather := by
  have hstays (hg : t.gather = s.gather) (hno : ¬ ∃ gather, AddsFragment a env s x gather) :
      Gathers a s x t ↔ ∃ gather, AddsFragment a env s x gather := by
    refine iff_of_false (fun h => ?_) hno
    have hlen := h.kept.length_eq
    rw [hg, List.length_cons] at hlen
    omega
  have hadds {gather : SglFragment} (hg : t.gather = gather) (h : AddsFragment a env s x gather) :
      Gathers a s x t ↔ ∃ gather, AddsFragment a env s x gather := by
    refine iff_of_true ?_ ⟨gather, h⟩
    obtain ⟨hpass, h0, happ⟩ := h
    obtain ⟨hle, -, rfl⟩ := append_ok_iff.mp happ
    refine ⟨hpass, h0, hg ▸ .refl _, ?_⟩
    rw [hg, BitVec.toNat_add, BitVec.toNat_ofNat]
    omega
  cases h with
  | fails h ret => exact hstays rfl fun ⟨_, happ⟩ => h happ.1.1
  | stops h hno ret => exact hstays rfl hno
  | empty h hsgl =>
    refine hstays afterLoop_gather fun ⟨_, hpass, h0, _⟩ => h0 ?_
    rw [hpass.2, if_pos hsgl]
  | more gather hg hi => exact hadds rfl hg
  | last gather hg hi => exact hadds afterLoop_gather hg

/-! ## Where the function is -/

/-- All requests are to accept. -/
def AllAccept (sent : List CallArgs) : Prop := ∀ args ∈ sent, args.messageId = GH_RM_RPC_MSG_ID_CALL_MEM_ACCEPT

/-- The requests with `GH_RM_MEM_ACCEPT_DONE`: none before the last fragment is there, and one after that,
if the caller wants it. -/
structure DoneOnce (a : AcceptArgs) (gathered : Prop) (sent : List CallArgs) : Prop where
  before : ¬ gathered → ∀ args ∈ sent, carriesDone args = false
  once : gathered → sent.countP carriesDone = if a.has GH_RM_MEM_ACCEPT_DONE then 1 else 0

/-- The request to accept, as it is. -/
def acceptArgs (s : Accept) : CallArgs := ⟨GH_RM_RPC_MSG_ID_CALL_MEM_ACCEPT, some s.reqPayload, true⟩

/-- What is known wherever the function is, after the requests `sent`: whether one to accept has succeeded, and whether
the last fragment is there (`fresh`: since the last call). -/
inductive Place (a : AcceptArgs) (accepted gathered fresh : Prop) (sent : List CallArgs) (s : Accept) : Prop where
  | accept (hpc : s.pc = .accept) (hsent : AllAccept sent) (hg : ¬ gathered)
      (hacc : s.acceptInProgress = true ↔ accepted)
      (hflags : a.multiCall = true → 6 < s.reqPayload.length ∧ s.reqPayload.getD 6 0 &&& GH_RM_MEM_ACCEPT_DONE = 0)
      (hdone : a.multiCall = true → ∀ args ∈ sent, carriesDone args = false)
  | done (hpc : s.pc = .done) (hsent : AllAccept sent) (hg : a.multiCall = true → gathered ∧ fresh)
      (hin : s.acceptInProgress = true) (hacc : accepted) (hhas : a.has GH_RM_MEM_ACCEPT_DONE = true)
      (hmulti : a.multiCall = true) (hflags : carriesDone (acceptArgs s) = true)
      (hdone : ∀ args ∈ sent, carriesDone args = false)
  | release (ret : Int) (hpc : s.pc = .release ret) (hsent : AllAccept sent) (hacc : accepted)
      (hdone : a.multiCall = true → DoneOnce a gathered sent)
  | ok (res : Option (BitVec 16 × List SglEntry)) (hpc : s.pc = .ret (.ok res)) (hsent : AllAccept sent)
      (hdone : a.multiCall = true → DoneOnce a gathered sent)
  | failed (ret : Int) (hpc : s.pc = .ret (.error ret)) (hsent : AllAccept sent) (hacc : ¬ accepted)
      (hdone : a.multiCall = true → DoneOnce a gathered sent)
  | released (ret : Int) (hpc : s.pc = .ret (.error ret)) (hacc : accepted) (before : List CallArgs)
      (hsent : sent = before ++ [releaseArgs a.handle]) (hbefore : AllAccept before)
      (hdone : a.multiCall = true → DoneOnce a gathered sent)
  | fault (hpc : s.pc = .fault) (hsent : sent = []) (hacc : ¬ accepted) (hg : ¬ gathered)

section

variable {accepted gathered fresh accepted' gathered' fresh' : Prop} {sent : List CallArgs}

theorem AllAccept.snoc (h : AllAccept sent) (s : Accept) : AllAccept (sent ++ [acceptArgs s]) := by
  intro args hargs
  rcases List.mem_append.mp hargs with hargs | hargs
  · exact h args hargs
  · rw [List.mem_singleton.mp hargs]
    rfl

theorem none_done_snoc {req : CallArgs} (h : ∀ args ∈ sent, carriesDone args = false)
    (hreq : carriesDone req = false) : ∀ args ∈ sent ++ [req], carriesDone args = false := by
  intro args hargs
  rcases List.mem_append.mp hargs with hargs | hargs
  · exact h args hargs
  · rw [List.mem_singleton.mp hargs]
    exact hreq

theorem count_none (h : ∀ args ∈ sent, carriesDone args = false) : sent.countP carriesDone = 0 :=
  List.countP_eq_zero.mpr fun args hargs => by simp [h args hargs]

theorem carriesDone_acceptArgs (s : Accept) :
    carriesDone (acceptArgs s) = (s.reqPayload.getD 6 0 &&& GH_RM_MEM_ACCEPT_DONE != 0) := rfl

theorem getD_setFlags {flags : BitVec 8} {reqPayload : List Byte} (h : 6 < reqPayload.length) :
    (setFlags flags reqPayload).getD 6 0 = flags := by
  simp [setFlags, List.getD_eq_getElem?_getD, h]

/-- No request is made behind the end of the function. -/
theorem DoneOnce.snoc (h : DoneOnce a gathered sent) {req : CallArgs} (hreq : carriesDone req = false) :
    DoneOnce a gathered (sent ++ [req]) := by
  refine ⟨fun hg => none_done_snoc (h.before hg) hreq, fun hg => ?_⟩
  rw [List.countP_append, h.once hg, List.countP_singleton, hreq]
  rfl

/-- The label `err_rm_call`. -/
theorem place_errRmCall (hsent : AllAccept sent) (hacc : s.acceptInProgress = true ↔ accepted)
    (hdone : a.multiCall = true → DoneOnce a gathered sent) (ret : Int) :
    Place a accepted gathered fresh sent (s.errRmCall ret) := by
  by_cases hin : s.acceptInProgress = true
  · exact .release ret (if_pos hin) hsent (hacc.mp hin) hdone
  · exact .failed ret (if_neg hin) hsent (fun h => hin (hacc.mpr h)) hdone

theorem place_finish (hsent : AllAccept sent) (hin : s.acceptInProgress = true) (hacc : accepted)
    (hdone : a.multiCall = true → DoneOnce a gathered sent) :
    Place a accepted gathered fresh sent (s.finish a env) := by
  unfold Accept.finish
  by_cases hsgl : a.sglDesc.isSome = true
  · rw [if_pos hsgl]
    exact .ok none rfl hsent hdone
  · rw [if_neg hsgl]
    cases ghSglFragmentCombine s.gather env.combine with
    | error e => exact place_errRmCall hsent (iff_of_true hin hacc) hdone e
    | ok desc => exact .ok (some desc) rfl hsent hdone

/-- Behind the loop, the call that says so is still to be made, or is not to be made at all. -/
theorem place_afterLoop (hsent : AllAccept sent) (hin : s.acceptInProgress = true) (hacc : accepted)
    (hg : a.multiCall = true → gathered ∧ fresh) (hlen : a.multiCall = true → 6 < s.reqPayload.length)
    (hdone : a.multiCall = true → ∀ args ∈ sent, carriesDone args = false) :
    Place a accepted gathered fresh sent (s.afterLoop a env) := by
  unfold Accept.afterLoop
  by_cases h : a.multiCall = true ∧ a.has GH_RM_MEM_ACCEPT_DONE = true
  · rw [if_pos h]
    refine .done rfl hsent hg hin hacc h.2 h.1 ?_ (hdone h.1)
    have hset : ∀ flags : BitVec 8, ((flags ||| GH_RM_MEM_ACCEPT_DONE) &&& GH_RM_MEM_ACCEPT_DONE != 0) = true := by
      decide
    rw [carriesDone_acceptArgs]
    show ((setFlags _ s.reqPayload).getD 6 0 &&& _ != 0) = true
    rw [getD_setFlags (hlen h.1)]
    exact hset _
  · rw [if_neg h]
    refine place_finish hsent hin hacc fun hm => ⟨fun hno => absurd (hg hm).1 hno, fun _ => ?_⟩
    have hhas : ¬ a.has GH_RM_MEM_ACCEPT_DONE = true := fun hhas => h ⟨hm, hhas⟩
    rw [if_neg hhas, count_none (hdone hm)]

theorem place_turn {t : Accept} (h : Place a accepted gathered fresh sent s) (hpc : s.pc = .accept)
    (ht : Turns a env s x t) (hacc' : accepted' ↔ accepted ∨ x.Answered)
    (hg' : gathered' ↔ gathered ∨ ¬ Incomplete x ∧ ∃ gather, AddsFragment a env s x gather)
    (hfresh' : ¬ gathered → fresh') :
    Place a accepted' gathered' fresh' (sent ++ [acceptArgs s]) t := by
  cases h with
  | accept _ hsent hg hacc hflags hdone =>
    have hsent' := hsent.snoc s
    have hdone' : a.multiCall = true → ∀ args ∈ sent ++ [acceptArgs s], carriesDone args = false := by
      intro hm
      apply none_done_snoc (hdone hm)
      rw [carriesDone_acceptArgs, (hflags hm).2]
      rfl
    have hno : (¬ ∃ gather, AddsFragment a env s x gather) → a.multiCall = true →
        DoneOnce a gathered' (sent ++ [acceptArgs s]) := by
      refine fun hno hm => ⟨fun _ => hdone' hm, fun hg'' => ?_⟩
      exact absurd (hg'.mp hg'') (not_or.mpr ⟨hg, fun hlast => hno hlast.2⟩)
    cases ht with
    | fails hx ret =>
      refine place_errRmCall hsent' (hacc.trans ?_) (hno ?_) ret
      · rw [hacc', or_iff_left hx]
      · rintro ⟨gather, hgather⟩
        exact hx hgather.1.1
    | stops hx hnog ret => exact place_errRmCall hsent' (iff_of_true rfl (hacc'.mpr (.inr hx))) (hno hnog) ret
    | empty hx hsgl =>
      have hnm : ¬ a.multiCall = true := by simp [AcceptArgs.multiCall, hsgl]
      exact place_afterLoop hsent' rfl (hacc'.mpr (.inr hx)) (fun hm => absurd hm hnm) (fun hm => absurd hm hnm)
        fun hm => absurd hm hnm
    | more gather hgather hi =>
      refine .accept hpc hsent' (fun hg'' => ?_) (iff_of_true rfl (hacc'.mpr (.inr hgather.1.1))) hflags hdone'
      exact absurd (hg'.mp hg'') (not_or.mpr ⟨hg, fun hlast => hlast.1 hi⟩)
    | last gather hgather hi =>
      exact place_afterLoop hsent' rfl (hacc'.mpr (.inr hgather.1.1))
        (fun _ => ⟨hg'.mpr (.inr ⟨hi, gather, hgather⟩), hfresh' hg⟩) (fun hm => (hflags hm).1) hdone'
  | done hpc' | release _ hpc' | ok _ hpc' | failed _ hpc' | released _ hpc' | fault hpc' =>
    rw [hpc] at hpc'
    cases hpc'

/-- The call behind the loop: whatever its reply is. -/
theorem place_done {t : Accept} (h : Place a accepted gathered fresh sent s) (hpc : s.pc = .done)
    (ht : s.step a env x.callRet = some t) (hacc' : accepted → accepted') (hg' : gathered' ↔ gathered) :
    Place a accepted' gathered' fresh' (sent ++ [acceptArgs s]) t := by
  cases h with
  | done _ hsent hg hin hacc hhas hmulti hflags hdone =>
    have hsent' := hsent.snoc s
    have hdone' : a.multiCall = true → DoneOnce a gathered' (sent ++ [acceptArgs s]) := by
      refine fun hm => ⟨fun hno => absurd (hg'.mpr (hg hm).1) hno, fun _ => ?_⟩
      rw [List.countP_append, count_none hdone, List.countP_singleton, hflags, hhas]
      rfl
    simp only [Accept.step, hpc] at ht
    split at ht
    · cases ht
      exact place_errRmCall hsent' (iff_of_true hin (hacc' hacc)) hdone' _
    · cases ht
      exact place_finish hsent' hin (hacc' hacc) hdone'
  | accept hpc' | release _ hpc' | ok _ hpc' | failed _ hpc' | released _ hpc' | fault hpc' =>
    rw [hpc] at hpc'
    cases hpc'

theorem place_release {ret : Int} (h : Place a accepted gathered fresh sent s) (hpc : s.pc = .release ret)
    (hacc' : accepted → accepted') (hg' : gathered' ↔ gathered) :
    Place a accepted' gathered' fresh' (sent ++ [releaseArgs a.handle]) { s with pc := .ret (.error ret) } := by
  cases h with
  | release _ _ hsent hacc hdone =>
    rw [← propext hg'] at hdone
    exact .released ret rfl (hacc' hacc) sent rfl hsent fun hm => (hdone hm).snoc rfl
  | accept hpc' | done hpc' | ok _ hpc' | failed _ hpc' | released _ hpc' | fault hpc' =>
    rw [hpc] at hpc'
    cases hpc'

/-- Only behind the loop it matters whether something has just happened. -/
theorem Place.stays (h : Place a accepted gathered fresh sent s) (hpc : s.pc ≠ .done) :
    Place a accepted gathered fresh' sent s := by
  cases h with
  | accept hpc hsent hg hacc hflags hdone => exact .accept hpc hsent hg hacc hflags hdone
  | done hpc' => exact absurd hpc' hpc
  | release ret hpc hsent hacc hdone => exact .release ret hpc hsent hacc hdone
  | ok res hpc hsent hdone => exact .ok res hpc hsent hdone
  | failed ret hpc hsent hacc hdone => exact .failed ret hpc hsent hacc hdone
  | released ret hpc hacc before hsent hbefore hdone => exact .released ret hpc hacc before hsent hbefore hdone
  | fault hpc hsent hacc hg => exact .fault hpc hsent hacc hg

/-- The function up to its first call. -/
theorem place_start (hacc : ¬ accepted) (hg : ¬ gathered) : Place a accepted gathered fresh [] (.start a env) := by
  have hnone : ∀ args ∈ ([] : List CallArgs), carriesDone args = false := by simp
  have hall : AllAccept [] := by simp [AllAccept]
  have hdone : a.multiCall = true → DoneOnce a gathered [] := fun _ => ⟨fun _ => hnone, fun h => absurd h hg⟩
  unfold Accept.start
  cases hreq : ghRmMemAcceptPrepareRequest a env.alloc with
  | error e => exact .failed e rfl hall hacc hdone
  | ok req =>
    simp only
    cases hbytes : req.bytes with
    | none => exact .fault rfl rfl hacc hg
    | some reqPayload =>
      simp only
      by_cases hgather : env.gather = false
      · rw [if_pos hgather]
        exact .failed _ rfl hall hacc hdone
      rw [if_neg hgather]
      have hlen : 6 < reqPayload.length := by
        obtain ⟨-, rfl⟩ := prepareRequest_ok hreq
        rw [length_stores hbytes, List.length_replicate]
        omega
      have hclear : ∀ flags : BitVec 8, flags &&& ~~~GH_RM_MEM_ACCEPT_DONE &&& GH_RM_MEM_ACCEPT_DONE = 0 := by decide
      refine .accept rfl hall hg (iff_of_false Bool.false_ne_true hacc) (fun hm => ?_) fun _ => hnone
      simp only [hm, if_true]
      refine ⟨?_, ?_⟩
      · show 6 < (setFlags _ reqPayload).length
        rwa [setFlags, List.length_set]
      · rw [getD_setFlags hlen]
        exact hclear _

end

/-! ## Streams of outcomes -/

theorem request_accept (hpc : s.pc = .accept ∨ s.pc = .done) : s.request a env = some (acceptArgs s) := by
  unfold Accept.request
  rcases hpc with hpc | hpc <;> rw [hpc] <;> rfl

theorem request_release {ret : Int} (hpc : s.pc = .release ret) : s.request a env = some (releaseArgs a.handle) := by
  unfold Accept.request
  rw [hpc]
  rfl

/-- The function has returned, or written where it must not. -/
def Ended (s : Accept) : Prop := (∃ res, s.pc = .ret res) ∨ s.pc = .fault

theorem request_ended (h : Ended s) : s.request a env = none := by
  unfold Accept.request
  rcases h with ⟨res, hpc⟩ | hpc <;> rw [hpc]

theorem step_ended (h : Ended s) (x : Outcome) : acceptStep a env s x = none := by
  unfold acceptStep Accept.step
  rcases h with ⟨res, hpc⟩ | hpc <;> rw [hpc]

section

variable {xs : Nat → Outcome} {k n : Nat}

/-- A call to accept has succeeded, of the first `k`. -/
def acceptedBy (a : AcceptArgs) (env : AcceptEnv) (xs : Nat → Outcome) (k : Nat) : Prop :=
  ∃ j < k, Succeeded a env xs j

/-- The last fragment is there after `k` calls. -/
def gatheredBy (a : AcceptArgs) (env : AcceptEnv) (xs : Nat → Outcome) (k : Nat) : Prop :=
  ∃ j < k, GathersLast a env xs j

theorem acceptedBy_succ : acceptedBy a env xs (k + 1) ↔ acceptedBy a env xs k ∨ Succeeded a env xs k :=
  Nat.exists_lt_succ_right

theorem gatheredBy_succ : gatheredBy a env xs (k + 1) ↔ gatheredBy a env xs k ∨ GathersLast a env xs k :=
  Nat.exists_lt_succ_right

theorem acceptSent_succ :
    acceptSent a env xs (k + 1) = acceptSent a env xs k ++ ((acceptAt a env xs k).request a env).toList := emitted_succ

theorem succeeded_iff (hpc : (acceptAt a env xs k).pc = .accept ∨ (acceptAt a env xs k).pc = .done) :
    Succeeded a env xs k ↔ (xs k).Answered :=
  and_iff_right ⟨_, request_accept hpc, rfl⟩

theorem acceptAt_succ (hpc : (acceptAt a env xs k).pc = .accept) :
    acceptAt a env xs (k + 1) = (acceptAt a env xs k).turn a env (xs k).callRet := by
  apply driven_succ
  show (acceptAt a env xs k).step a env (xs k).callRet = _
  unfold Accept.step
  rw [hpc]

theorem gathersLast_iff (hpc : (acceptAt a env xs k).pc = .accept) :
    GathersLast a env xs k ↔ ¬ Incomplete (xs k) ∧ ∃ gather, AddsFragment a env (acceptAt a env xs k) (xs k) gather := by
  have hturn : acceptAt a env xs (k + 1) = (acceptAt a env xs k).turn a env (xs k).callRet := acceptAt_succ hpc
  unfold GathersLast
  rw [and_iff_right hpc, hturn, (turn_turns a env _ _).gathers_iff]

theorem gatheredBy_stays (hpc : (acceptAt a env xs k).pc ≠ .accept) :
    gatheredBy a env xs (k + 1) ↔ gatheredBy a env xs k := by
  rw [gatheredBy_succ, or_iff_left fun h => hpc h.1]

/-- Where the function is after `k` calls. -/
theorem place_acceptAt (a : AcceptArgs) (env : AcceptEnv) (xs : Nat → Outcome) (k : Nat) :
    Place a (acceptedBy a env xs k) (gatheredBy a env xs k) (∀ j, j + 1 = k → ¬ gatheredBy a env xs j)
      (acceptSent a env xs k) (acceptAt a env xs k) := by
  refine inv_driven (I := fun k s => Place a (acceptedBy a env xs k) (gatheredBy a env xs k)
    (∀ j, j + 1 = k → ¬ gatheredBy a env xs j) (acceptSent a env xs k) s) ?_ ?_ ?_ k
  · exact place_start (by simp [acceptedBy]) (by simp [gatheredBy])
  · intro k t h ht
    have hstep : (acceptAt a env xs k).step a env (xs k).callRet = some t := ht
    show Place a _ _ _ (acceptSent a env xs (k + 1)) t
    rw [acceptSent_succ]
    cases hpc : (acceptAt a env xs k).pc with
    | accept =>
      rw [request_accept (.inl hpc)]
      have htt : t = (acceptAt a env xs k).turn a env (xs k).callRet := by
        simp only [Accept.step, hpc, Option.some.injEq] at hstep
        exact hstep.symm
      rw [htt]
      refine place_turn h hpc (turn_turns a env _ _) ?_ ?_ ?_
      · rw [acceptedBy_succ, succeeded_iff (.inl hpc)]
      · rw [gatheredBy_succ, gathersLast_iff hpc]
      · intro hg j hj
        cases hj
        exact hg
    | done =>
      rw [request_accept (.inr hpc)]
      exact place_done h hpc hstep (fun hacc => acceptedBy_succ.mpr (.inl hacc))
        (gatheredBy_stays (by rw [hpc]; exact AcceptPc.noConfusion))
    | release ret =>
      rw [request_release hpc]
      simp only [Accept.step, hpc, Option.some.injEq] at hstep
      rw [← hstep]
      exact place_release h hpc (fun hacc => acceptedBy_succ.mpr (.inl hacc))
        (gatheredBy_stays (by rw [hpc]; exact AcceptPc.noConfusion))
    | ret res =>
      exact absurd ht (by rw [show driven _ _ xs k = acceptAt a env xs k from rfl, step_ended (.inl ⟨res, hpc⟩)]; simp)
    | fault =>
      exact absurd ht (by rw [show driven _ _ xs k = acceptAt a env xs k from rfl, step_ended (.inr hpc)]; simp)
  · intro k h hnone
    have hend : Ended (acceptAt a env xs k) := by
      have hstep : (acceptAt a env xs k).step a env (xs k).callRet = none := hnone
      cases hpc : (acceptAt a env xs k).pc with
      | ret res => exact .inl ⟨res, hpc⟩
      | fault => exact .inr hpc
      | accept | release _ =>
        simp only [Accept.step, hpc] at hstep
        cases hstep
      | done =>
        simp only [Accept.step, hpc] at hstep
        split at hstep <;> cases hstep
    have hreq : (acceptAt a env xs k).request a env = none := request_ended hend
    have hpc : (acceptAt a env xs k).pc ≠ .accept ∧ (acceptAt a env xs k).pc ≠ .done := by
      rcases hend with ⟨res, hpc⟩ | hpc <;> rw [hpc] <;> exact ⟨AcceptPc.noConfusion, AcceptPc.noConfusion⟩
    have hacc : acceptedBy a env xs (k + 1) ↔ acceptedBy a env xs k := by
      rw [acceptedBy_succ]
      refine or_iff_left ?_
      rintro ⟨⟨args, hargs, -⟩, -⟩
      rw [hreq] at hargs
      cases hargs
    show Place a _ _ _ (acceptSent a env xs (k + 1)) (acceptAt a env xs k)
    rw [acceptSent_succ, hreq, Option.toList_none, List.append_nil, propext hacc, propext (gatheredBy_stays hpc.1)]
    exact h.stays hpc.2

theorem allAccept_no_release {sent : List CallArgs} (h : AllAccept sent) :
    ∀ args ∈ sent, args.messageId ≠ GH_RM_RPC_MSG_ID_CALL_MEM_RELEASE := by
  intro args hargs
  rw [h args hargs]
  decide

/-- Before the last fragment is there, `GH_RM_MEM_ACCEPT_DONE` has not been sent, and is not
in the request that is. -/
theorem done_not_before (hm : a.multiCall = true) (hno : ¬ gatheredBy a env xs n) :
    ∀ args ∈ acceptSent a env xs (n + 1), carriesDone args = false := by
  rw [acceptSent_succ]
  cases place_acceptAt a env xs n with
  | accept hpc hsent hg hacc hflags hdone =>
    rw [request_accept (.inl hpc)]
    apply none_done_snoc (hdone hm)
    rw [carriesDone_acceptArgs, (hflags hm).2]
    rfl
  | done hpc hsent hg => exact absurd (hg hm).1 hno
  | release ret hpc hsent hacc hdone =>
    rw [request_release hpc]
    exact none_done_snoc ((hdone hm).before hno) rfl
  | ok res hpc hsent hdone =>
    rw [request_ended (.inl ⟨_, hpc⟩), Option.toList_none, List.append_nil]
    exact (hdone hm).before hno
  | failed ret hpc hsent hacc hdone =>
    rw [request_ended (.inl ⟨_, hpc⟩), Option.toList_none, List.append_nil]
    exact (hdone hm).before hno
  | released ret hpc hacc before hsent hbefore hdone =>
    rw [request_ended (.inl ⟨_, hpc⟩), Option.toList_none, List.append_nil]
    exact (hdone hm).before hno
  | fault hpc hsent =>
    rw [request_ended (.inr hpc), hsent]
    simp

/-- Once the last fragment is there, it is sent by the next call, if it is to be sent. -/
theorem done_once (hm : a.multiCall = true) (hk : GathersLast a env xs k) (hn : k + 2 ≤ n) :
    (acceptSent a env xs n).countP carriesDone = if a.has GH_RM_MEM_ACCEPT_DONE then 1 else 0 := by
  have hg : gatheredBy a env xs n := ⟨k, by omega, hk⟩
  cases place_acceptAt a env xs n with
  | accept hpc hsent hno => exact absurd hg hno
  | done hpc hsent hfresh =>
    obtain ⟨j, rfl⟩ : ∃ j, n = j + 1 := ⟨n - 1, by omega⟩
    exact absurd ⟨k, by omega, hk⟩ ((hfresh hm).2 j rfl)
  | release ret hpc hsent hacc hdone => exact (hdone hm).once hg
  | ok res hpc hsent hdone => exact (hdone hm).once hg
  | failed ret hpc hsent hacc hdone => exact (hdone hm).once hg
  | released ret hpc hacc before hsent hbefore hdone => exact (hdone hm).once hg
  | fault hpc hsent hacc hno => exact absurd hg hno

/-- After a failure behind a success, the last request is the only one to release the memory. -/
theorem failure_releases {ret : Int} (hpc : (acceptAt a env xs n).pc = .ret (.error ret))
    (hacc : acceptedBy a env xs n) :
    ∃ before, acceptSent a env xs n = before ++ [releaseArgs a.handle] ∧ AllAccept before := by
  cases place_acceptAt a env xs n with
  | released _ _ _ before hsent hbefore => exact ⟨before, hsent, hbefore⟩
  | failed _ _ _ hno => exact absurd hacc hno
  | accept hpc' | done hpc' | release _ hpc' | ok _ hpc' | fault hpc' =>
    rw [hpc] at hpc'
    cases hpc'

/-- There is nothing to release where the function succeeds, or has not accepted anything. -/
theorem no_release (h : (∃ res, (acceptAt a env xs n).pc = .ret (.ok res)) ∨
    (∃ ret, (acceptAt a env xs n).pc = .ret (.error ret)) ∧ ¬ acceptedBy a env xs n) :
    AllAccept (acceptSent a env xs n) := by
  cases place_acceptAt a env xs n with
  | ok _ _ hsent => exact hsent
  | failed _ _ hsent => exact hsent
  | released _ hpc' hacc =>
    rcases h with ⟨res, hpc⟩ | ⟨-, hno⟩
    · rw [hpc] at hpc'
      cases hpc'
    · exact absurd hacc hno
  | accept hpc' | done hpc' | release _ hpc' | fault hpc' =>
    rw [hpc'] at h
    rcases h with ⟨_, hpc⟩ | ⟨⟨_, hpc⟩, -⟩ <;> cases hpc

end

/-- The requests of `gh_rm_mem_accept`, for every stream of outcomes: `GH_RM_MEM_ACCEPT_DONE` is sent once and
after the last fragment, and the memory is released once and at the end, where the function
fails with memory accepted. -/
theorem accept_protocol (a : AcceptArgs) (env : AcceptEnv) (xs : Nat → Outcome) :
    (a.sglDesc = none → a.has GH_RM_MEM_ACCEPT_MAP_IPA_CONTIGUOUS = false →
      (∀ n, (∀ k < n, ¬ GathersLast a env xs k) →
        ∀ args ∈ acceptSent a env xs (n + 1), carriesDone args = false) ∧
      ∀ k, GathersLast a env xs k → ∀ n, k + 2 ≤ n →
        (acceptSent a env xs n).countP carriesDone = if a.has GH_RM_MEM_ACCEPT_DONE then 1 else 0) ∧
    (∀ n ret, (acceptAt a env xs n).pc = .ret (.error ret) → (∃ k < n, Succeeded a env xs k) →
      ∃ before, acceptSent a env xs n = before ++ [releaseArgs a.handle] ∧
        ∀ args ∈ before, args.messageId ≠ GH_RM_RPC_MSG_ID_CALL_MEM_RELEASE) ∧
    ∀ n, (∃ res, (acceptAt a env xs n).pc = .ret (.ok res)) ∨
        (∃ ret, (acceptAt a env xs n).pc = .ret (.error ret)) ∧ ¬ (∃ k < n, Succeeded a env xs k) →
      ∀ args ∈ acceptSent a env xs n, args.messageId ≠ GH_RM_RPC_MSG_ID_CALL_MEM_RELEASE := by
  refine ⟨fun hsgl hmap => ?_, fun n ret hpc hacc => ?_, fun n h => allAccept_no_release (no_release h)⟩
  · have hm : a.multiCall = true := by simp [AcceptArgs.multiCall, hsgl, hmap]
    refine ⟨fun n hno => done_not_before hm ?_, fun k hk n hn => done_once hm hk hn⟩
    rintro ⟨k, hlt, hk⟩
    exact hno k hlt hk
  · obtain ⟨before, hsent, hbefore⟩ := failure_releases hpc hacc
    exact ⟨before, hsent, allAccept_no_release hbefore⟩

/-- An acceptance of memory, wherever it is. -/
def acceptPlain (flags : BitVec 8) : AcceptArgs where
  handle := 5
  memType := GH_RM_MEM_TYPE_NORMAL
  transType := GH_RM_TRANS_TYPE_SHARE
  flags := flags
  label := 0
  aclDesc := none
  sglDesc := none
  memAttrDesc := none
  mapVmid := 0

/-- One fragment without entries, and no answer after it. -/
def oneReply : Nat → Outcome
  | 0 => .answered (some [0, 0, 0, 0]) 4
  | _ + 1 => .early (-EAGAIN) (by decide)

theorem accept_protocol_done :
    (acceptSent (acceptPlain GH_RM_MEM_ACCEPT_DONE) { out := ⟨0, 0⟩ } oneReply 3).countP carriesDone = 1 ∧
    ∃ before, acceptSent (acceptPlain GH_RM_MEM_ACCEPT_DONE) { out := ⟨0, 0⟩ } oneReply 3 =
        before ++ [releaseArgs 5] ∧ ∀ args ∈ before, args.messageId ≠ GH_RM_RPC_MSG_ID_CALL_MEM_RELEASE := by
  have h := accept_protocol (acceptPlain GH_RM_MEM_ACCEPT_DONE) { out := ⟨0, 0⟩ } oneReply
  constructor
  · refine (h.1 rfl rfl).2 0 ⟨rfl, by decide, ⟨trivial, rfl⟩, by decide, .refl _, rfl⟩ 3 (by decide)
  · exact h.2.1 3 (-EAGAIN) rfl ⟨0, by decide, ⟨_, rfl, rfl⟩, trivial⟩

end GH.Proof.Rm
