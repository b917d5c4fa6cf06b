import Gunyah.Proof.Rm.Lookup
import Gunyah.Proof.Rm.Iface
import Gunyah.Spec.Rm.Share

/-!
# Sharing a list of memory with several requests

One turn of the loop sends a piece of the SG list (`append_run`), or ends the
function: what the loop sends from an index on is by induction on what is left
of the list (`appendLoop_ok`, `appendLoop_fails`). So the helper ends in one of
three ways (`share_all`, `share_reclaims`, `share_refused`).
-/

namespace GH.Proof.Rm

open GH.Impl GH.Impl.Rm GH.Spec.Rm

/-! ## Replies -/

theorem checkedReply_answered (o : Out) (payload : Option (List Byte)) (size : Nat) :
    checkedReply o (Outcome.answered payload size).callRet = .ok (payload.getD [], size) := rfl

/-- A call that is not answered is an error. -/
theorem checkedReply_error (o : Out) {x : Outcome} (h : ¬ x.Answered) :
    ∃ e, checkedReply o x.callRet = .error e ∧ e ≠ 0 := by
  cases x with
  | early e neg => exact ⟨e, by simp [checkedReply, Outcome.callRet, CallRet.isErr, CallRet.ptrErr], by omega⟩
  | aborted => exact ⟨-EIO_ERR, rfl, by decide⟩
  | refused e ne =>
    refine ⟨ghRemapError e.toInt, ?_, fun h0 => toInt_ne_zero ne (ghRemapError_eq_zero h0)⟩
    exact if_pos (.inl ne)
  | answered p n => exact absurd trivial h

theorem appendReply_eq_zero (o : Out) (x : Outcome) : appendReply o x.callRet = 0 ↔ Appended x := by
  by_cases h : x.Answered
  · cases x with
    | answered p n =>
      rw [appendReply, checkedReply_answered]
      by_cases hn : n = 0
      · subst hn
        exact iff_of_true rfl ⟨p, rfl⟩
      · refine iff_of_false (by simp [hn, EINVAL]) ?_
        rintro ⟨p', hp⟩
        cases hp
        exact hn rfl
    | early _ _ | aborted | refused _ _ => exact absurd h id
  · obtain ⟨e, he, hne⟩ := checkedReply_error o h
    rw [appendReply, he]
    refine iff_of_false hne ?_
    rintro ⟨p, rfl⟩
    exact h trivial

/-! ## One append -/

/-- The bytes of a request to append: the memory that it is built in shows in the reserved fields. -/
def appendBytes (handle : BitVec 32) (flags : BitVec 8) (sglEntries : List SglEntry) (heap : Nat → Byte) : List Byte :=
  u32Bytes handle ++ [flags] ++ [heap 5, heap 6, heap 7] ++ sglBytes [heap 10, heap 11] sglEntries

/-- What is written to the buffer of `gh_rm_mem_append`: what was in it stays in the reserved fields. -/
theorem append_stores (heap : Nat → Byte) (handle : BitVec 32) (flags : BitVec 8) (es : List SglEntry) :
    stores ([⟨0, u32Bytes handle⟩, ⟨4, [flags]⟩] ++
        atOffset 8 [⟨0, u16Bytes (BitVec.ofNat 16 es.length)⟩, ⟨4, es.flatMap (·.bytes)⟩])
      ((List.range (8 + sglSize es.length)).map heap) =
    some (appendBytes handle flags es heap) := by
  have hes : (es.flatMap (·.bytes)).length = 16 * es.length := length_entries SglEntry.bytes (fun _ => rfl) es
  have hlist : stores ([⟨0, u16Bytes (BitVec.ofNat 16 es.length)⟩] ++ atOffset 4 [⟨0, es.flatMap (·.bytes)⟩])
      ([heap 8, heap 9, heap 10, heap 11] ++ (List.range (16 * es.length)).map fun i => heap (8 + (4 + i))) =
      some (sglBytes [heap 10, heap 11] es) :=
    stores_block rfl rfl (stores_whole (by rw [hes, List.length_map, List.length_range]))
  have hbuf : (List.range (8 + sglSize es.length)).map heap =
      [heap 0, heap 1, heap 2, heap 3, heap 4, heap 5, heap 6, heap 7] ++ ([heap 8, heap 9, heap 10, heap 11] ++
        (List.range (16 * es.length)).map fun i => heap (8 + (4 + i))) := by
    rw [sglSize, List.range_add, List.range_add, List.map_append, List.map_map, List.map_append, List.map_map]
    rfl
  rw [hbuf]
  exact stores_block rfl rfl hlist

theorem appendRequest_eq {handle : BitVec 32} {flags : BitVec 8} {es : List SglEntry} {heap : Nat → Byte}
    {alloc : Bool} (hflags : flags &&& ~~~GH_RM_MEM_APPEND_VALID_FLAGS = 0)
    (hlen : es.length ≤ GH_RM_MEM_MAX_SGL_ENTRIES) :
    appendRequest handle flags es heap alloc =
      if alloc then
        .ok { reqBuf := (List.range (8 + sglSize es.length)).map heap
              hdr := [⟨0, u32Bytes handle⟩, ⟨4, [flags]⟩]
              populate := atOffset 8 [⟨0, u16Bytes (BitVec.ofNat 16 es.length)⟩, ⟨4, es.flatMap (·.bytes)⟩] }
      else .error (-ENOMEM) := by
  have hmax : 8 + sglSize es.length ≤ KMALLOC_MAX_SIZE := by
    simp only [GH_RM_MEM_MAX_SGL_ENTRIES] at hlen
    simp only [sglSize, KMALLOC_MAX_SIZE]
    omega
  unfold appendRequest
  rw [if_neg (by simp only [hflags, ne_eq, not_true_eq_false, false_or]; omega)]
  cases alloc <;> simp [kmalloc, hmax]

/-- What the RM reads of a request to append. -/
theorem decodes_append (handle : BitVec 32) (flags : BitVec 8) (heap : Nat → Byte) {es : List SglEntry}
    (h : es.length < 2 ^ 16) : Decodes memAppend (appendBytes handle flags es heap) ⟨handle, flags, es⟩ := by
  have hskip : Decodes (Decoder.skip 3) [heap 5, heap 6, heap 7] ⟨⟩ := .skip rfl
  unfold memAppend appendBytes
  simp only [List.append_assoc]
  exact (decodes_u32 _).bind ((decodes_u8 _).bind (hskip.bind ((decodes_sglList rfl h).bind_pure rfl)))

/-- `gh_rm_mem_append` makes its call, which carries the piece, or cannot allocate it. -/
theorem append_run {α : Type} {handle : BitVec 32} {flags : BitVec 8} {es : List SglEntry} (heap : Nat → Byte)
    {alloc : Bool} {o : Out} {cont : Int → RmCalls α} (hflags : flags &&& ~~~GH_RM_MEM_APPEND_VALID_FLAGS = 0)
    (hlen : es.length ≤ GH_RM_MEM_MAX_SGL_ENTRIES) (r : Nat → CallRet) :
    (alloc = false ∧ (ghRmMemAppend handle flags es heap alloc o cont).run r = (cont (-ENOMEM)).run r) ∨
    (alloc = true ∧ ∃ args, Delivers memAppend GH_RM_RPC_MSG_ID_CALL_MEM_APPEND args ⟨handle, flags, es⟩ ∧
      (ghRmMemAppend handle flags es heap alloc o cont).run r =
        (args :: ((cont (appendReply o (r 0))).run fun k => r (k + 1)).1,
          ((cont (appendReply o (r 0))).run fun k => r (k + 1)).2)) := by
  have hlen' : es.length < 2 ^ 16 := Nat.lt_of_le_of_lt hlen (by decide)
  cases alloc with
  | false =>
    left
    refine ⟨rfl, ?_⟩
    rw [ghRmMemAppend, appendRequest_eq hflags hlen]
    rfl
  | true =>
    right
    refine ⟨rfl, ⟨GH_RM_RPC_MSG_ID_CALL_MEM_APPEND, some _, true⟩,
      ⟨rfl, _, rfl, (decodes_append handle flags heap hlen').exact⟩, ?_⟩
    rw [ghRmMemAppend, appendRequest_eq hflags hlen]
    simp only [if_true, sendRequest, MemReq.bytes, append_stores, RmCalls.run]

/-! ## The loop -/

section Loop

variable {handle : BitVec 32} {sgl : List SglEntry} {env : ShareEnv}

/-- The index that a turn of the loop goes on from. -/
def nextIdx (sgl : List SglEntry) (idx : Nat) : Nat := min (idx + GH_RM_MEM_MAX_SGL_ENTRIES) sgl.length

/-- The last request to append says that it is the last. -/
def appendFlags (sgl : List SglEntry) (idx : Nat) : BitVec 8 :=
  if nextIdx sgl idx = sgl.length then GH_RM_MEM_APPEND_END else 0

/-- The piece that a turn of the loop sends. -/
def piece (sgl : List SglEntry) (idx : Nat) : List SglEntry := (sgl.drop idx).take (nextIdx sgl idx - idx)

theorem length_piece {idx : Nat} (h : idx < sgl.length) : (piece sgl idx).length = nextIdx sgl idx - idx := by
  simp only [piece, nextIdx, GH_RM_MEM_MAX_SGL_ENTRIES, List.length_take, List.length_drop]
  omega

theorem piece_append {idx : Nat} (h : idx < sgl.length) :
    piece sgl idx ++ sgl.drop (nextIdx sgl idx) = sgl.drop idx := by
  have hadd : nextIdx sgl idx = idx + (nextIdx sgl idx - idx) := by
    simp only [nextIdx, GH_RM_MEM_MAX_SGL_ENTRIES]
    omega
  rw [piece, hadd, ← List.drop_drop, ← hadd, List.take_append_drop]

/-- A turn of the loop. -/
theorem turn_run (handle : BitVec 32) (env : ShareEnv) {idx : Nat} (h : idx < sgl.length) (xs : Nat → Outcome) :
    let turn := (appendLoop handle sgl env idx).run fun k => (xs k).callRet
    let rest := (appendLoop handle sgl env (nextIdx sgl idx)).run fun k => (xs (k + 1)).callRet
    (env.appendAlloc idx = false ∧ turn = ([reclaimArgs handle], some (-ENOMEM, none))) ∨
    (env.appendAlloc idx = true ∧ ∃ args,
      Delivers memAppend GH_RM_RPC_MSG_ID_CALL_MEM_APPEND args ⟨handle, appendFlags sgl idx, piece sgl idx⟩ ∧
      ((Appended (xs 0) ∧ turn = (args :: rest.1, rest.2)) ∨
        ¬ Appended (xs 0) ∧ ∃ e, e ≠ 0 ∧ turn = ([args, reclaimArgs handle], some (e, none)))) := by
  have hflags : appendFlags sgl idx &&& ~~~GH_RM_MEM_APPEND_VALID_FLAGS = 0 := by
    rw [appendFlags]
    split <;> decide
  have hlen : (piece sgl idx).length ≤ GH_RM_MEM_MAX_SGL_ENTRIES := by
    rw [length_piece h, nextIdx]
    omega
  intro turn rest
  have hturn : turn = (ghRmMemAppend handle (appendFlags sgl idx) (piece sgl idx) (env.heap idx) (env.appendAlloc idx)
      (env.appendOut idx) fun ret => if ret ≠ 0 then reclaimThen handle (env.appendOut idx) (.ret (ret, none))
        else appendLoop handle sgl env (nextIdx sgl idx)).run fun k => (xs k).callRet := by
    show (appendLoop handle sgl env idx).run _ = _
    rw [appendLoop, dif_pos h]
    rfl
  rw [hturn]
  rcases append_run (env.heap idx) hflags hlen fun k => (xs k).callRet with ⟨halloc, hrun⟩ | ⟨halloc, args, hargs, hrun⟩
  · left
    exact ⟨halloc, hrun⟩
  · right
    refine ⟨halloc, args, hargs, ?_⟩
    rw [hrun]
    by_cases happ : Appended (xs 0)
    · left
      rw [(appendReply_eq_zero _ _).mpr happ]
      exact ⟨happ, rfl⟩
    · right
      have hne := mt (appendReply_eq_zero (env.appendOut idx) (xs 0)).mp happ
      refine ⟨happ, _, hne, ?_⟩
      rw [if_pos hne]
      rfl

theorem nextIdx_gt {idx : Nat} (h : idx < sgl.length) : idx < nextIdx sgl idx := by
  simp only [nextIdx, GH_RM_MEM_MAX_SGL_ENTRIES]
  omega

/-- The turns after this one. -/
theorem turns_next {idx j : Nat} :
    nextIdx sgl idx + GH_RM_MEM_MAX_SGL_ENTRIES * j < sgl.length ↔
      idx + GH_RM_MEM_MAX_SGL_ENTRIES * (j + 1) < sgl.length := by
  simp only [nextIdx, GH_RM_MEM_MAX_SGL_ENTRIES]
  omega

theorem nextIdx_of_turn {idx j : Nat} (h : idx + GH_RM_MEM_MAX_SGL_ENTRIES * (j + 1) < sgl.length) :
    nextIdx sgl idx + GH_RM_MEM_MAX_SGL_ENTRIES * j = idx + GH_RM_MEM_MAX_SGL_ENTRIES * (j + 1) := by
  simp only [nextIdx, GH_RM_MEM_MAX_SGL_ENTRIES] at h ⊢
  omega

/-- Only the last of the requests tells that it is the last. -/
def EndsLast (ms : List MemAppend) : Prop :=
  ∀ i m, ms[i]? = some m → (m.flags &&& GH_RM_MEM_APPEND_END ≠ 0 ↔ i + 1 = ms.length)

theorem EndsLast.cons {m : MemAppend} {ms : List MemAppend} (h : EndsLast ms)
    (hm : m.flags &&& GH_RM_MEM_APPEND_END ≠ 0 ↔ ms = []) : EndsLast (m :: ms) := by
  intro i m' hi
  cases i with
  | zero =>
    cases hi
    rw [hm, List.length_cons, List.eq_nil_iff_length_eq_zero]
    omega
  | succ i =>
    rw [h i m' hi, List.length_cons]
    omega

/-- There are no more requests behind the end of the list. -/
theorem pieces_nil {idx : Nat} {ms : List MemAppend} (hms : ∀ m ∈ ms, AppendsTo handle m)
    (hsgl : (ms.map (·.sgl)).flatten = sgl.drop (nextIdx sgl idx)) : ms = [] ↔ nextIdx sgl idx = sgl.length := by
  have hle : nextIdx sgl idx ≤ sgl.length := Nat.min_le_right _ _
  constructor
  · rintro rfl
    have hnil := List.drop_eq_nil_iff.mp hsgl.symm
    omega
  · intro heq
    rw [heq, List.drop_length, List.flatten_eq_nil_iff] at hsgl
    refine List.eq_nil_iff_forall_not_mem.mpr fun m hm => ?_
    have hnil := hsgl m.sgl (List.mem_map_of_mem hm)
    have hsome := (hms m hm).some
    rw [hnil, List.length_nil] at hsome
    omega

/-- From an index on, where all appends succeed, the loop sends the rest of the list. -/
theorem appendLoop_ok (handle : BitVec 32) (k : Nat) : ∀ (idx : Nat) (xs : Nat → Outcome), sgl.length ≤ idx + k →
    (∀ j, idx + GH_RM_MEM_MAX_SGL_ENTRIES * j < sgl.length →
      AppendOk env (idx + GH_RM_MEM_MAX_SGL_ENTRIES * j) (xs j)) →
    ∃ sent ms, ((appendLoop handle sgl env idx).run fun k => (xs k).callRet) = (sent, some (0, some handle)) ∧
      List.Forall₂ (Delivers memAppend GH_RM_RPC_MSG_ID_CALL_MEM_APPEND) sent ms ∧
      (ms.map (·.sgl)).flatten = sgl.drop idx ∧ (∀ m ∈ ms, AppendsTo handle m) ∧ EndsLast ms := by
  induction k with
  | zero =>
    intro idx xs hk _
    refine ⟨[], [], ?_, .nil, (List.drop_of_length_le hk).symm, by simp, by simp [EndsLast]⟩
    rw [appendLoop, dif_neg (by omega)]
    rfl
  | succ k ih =>
    intro idx xs hk hok
    by_cases h : idx < sgl.length
    · have hok₀ : AppendOk env idx (xs 0) := hok 0 h
      have hnext := nextIdx_gt h
      obtain ⟨sent, ms, hrun, hsent, hsgl, hms, hend⟩ := ih (nextIdx sgl idx) (fun k => xs (k + 1)) (by omega)
        fun j hj => by
          rw [nextIdx_of_turn (turns_next.mp hj)]
          exact hok (j + 1) (turns_next.mp hj)
      rcases turn_run handle env h xs with ⟨hno, -⟩ | ⟨-, args, hargs, ⟨-, hturn⟩ | ⟨hno, -⟩⟩
      · exact absurd hok₀.1 (by rw [hno]; decide)
      · refine ⟨args :: sent, ⟨handle, appendFlags sgl idx, piece sgl idx⟩ :: ms, ?_, .cons hargs hsent, ?_, ?_, ?_⟩
        · rw [hturn, hrun]
        · rw [List.map_cons, List.flatten_cons, hsgl, piece_append h]
        · rw [List.forall_mem_cons]
          have hlen := length_piece h
          refine ⟨⟨rfl, ?_, ?_⟩, hms⟩
          · show 1 ≤ (piece sgl idx).length
            omega
          · show (piece sgl idx).length ≤ _
            rw [hlen, nextIdx]
            omega
        · apply hend.cons
          rw [pieces_nil hms hsgl]
          show appendFlags sgl idx &&& GH_RM_MEM_APPEND_END ≠ 0 ↔ _
          rw [appendFlags]
          split
          · exact iff_of_true (by decide) (by assumption)
          · exact iff_of_false (by decide) (by assumption)
      · exact absurd hok₀.2 hno
    · refine ⟨[], [], ?_, .nil, (List.drop_of_length_le (by omega)).symm, by simp, by simp [EndsLast]⟩
      rw [appendLoop, dif_neg h]
      rfl

/-- From an index on, where an append fails, the memory is reclaimed after it. -/
theorem appendLoop_fails (handle : BitVec 32) (k : Nat) : ∀ (idx : Nat) (xs : Nat → Outcome), sgl.length ≤ idx + k →
    (∃ j, idx + GH_RM_MEM_MAX_SGL_ENTRIES * j < sgl.length ∧
      ¬ AppendOk env (idx + GH_RM_MEM_MAX_SGL_ENTRIES * j) (xs j)) →
    ∃ appends e, ((appendLoop handle sgl env idx).run fun k => (xs k).callRet) =
        (appends ++ [reclaimArgs handle], some (e, none)) ∧ e ≠ 0 ∧
      (∀ args ∈ appends, args.messageId = GH_RM_RPC_MSG_ID_CALL_MEM_APPEND) ∧
      ∀ i, i + 1 < appends.length → Appended (xs i) := by
  induction k with
  | zero =>
    rintro idx xs hk ⟨j, hj, -⟩
    omega
  | succ k ih =>
    rintro idx xs hk ⟨j, hj, hno⟩
    have h : idx < sgl.length := by omega
    have hnext := nextIdx_gt h
    rcases turn_run handle env h xs with ⟨-, hturn⟩ | ⟨halloc, args, hargs, ⟨happ, hturn⟩ | ⟨-, e, he, hturn⟩⟩
    · exact ⟨[], _, hturn, by decide, by simp, by simp⟩
    · cases j with
      | zero => exact absurd ⟨halloc, happ⟩ hno
      | succ j =>
        rw [← nextIdx_of_turn hj] at hno
        obtain ⟨appends, e, hrun, he, hmsg, hall⟩ := ih (nextIdx sgl idx) (fun k => xs (k + 1)) (by omega)
          ⟨j, turns_next.mpr hj, hno⟩
        refine ⟨args :: appends, e, by rw [hturn, hrun]; rfl, he, List.forall_mem_cons.mpr ⟨hargs.1, hmsg⟩, ?_⟩
        intro i hi
        cases i with
        | zero => exact happ
        | succ i => exact hall i (Nat.lt_of_succ_lt_succ hi)
    · refine ⟨[args], e, hturn, he, ?_, ?_⟩
      · simp [hargs.1]
      · intro i hi
        simp at hi

end Loop

/-! ## The first request -/

section Share

variable {fnId : BitVec 32} {a : MemArgs}

theorem shareRequest_some (hfn : ShareId fnId) (hvalid : a.invalid = false)
    (hflags : shareFlagsInvalid fnId a.flags = false) : ∃ req, shareRequest fnId a true = .ok req := by
  have hattr := attr_lt a.memAttrDesc
  unfold shareRequest
  rw [if_neg (by simp [hvalid, hflags])]
  simp only
  rw [allocMemRequestBuf_some (hdrSize hfn) (by
    simp only [aclSize, sglSize, memAttrSize, GH_RM_MEM_MAX_SGL_ENTRIES, KMALLOC_MAX_SIZE]
    omega)]
  exact ⟨_, rfl⟩

theorem share_bytes (hfn : ShareId fnId) {alloc : Bool} {req : MemReq} (h : shareRequest fnId a alloc = .ok req)
    (hacl : (aclOf a.aclDesc).length < 2 ^ 16) : req.bytes = some (parcelBytes a (shareFlags a)) := by
  obtain ⟨-, rfl⟩ := shareRequest_ok hfn h
  have hhdr : stores [⟨0, [a.memType]⟩, ⟨2, [shareFlags a]⟩, ⟨4, u32Bytes a.label⟩] (zeros 8) =
      some ([a.memType, 0, shareFlags a, 0] ++ u32Bytes a.label) := rfl
  have hstores := parcel_stores (hdrSize hfn) hhdr 0
  simp only [MemReq.bytes, Nat.mod_eq_of_lt hacl, min_comm (sglOf a.sglDesc).length]
  simpa only [zeros, List.replicate_zero, List.append_nil, Nat.add_zero] using hstores

/-- The helper takes no flag that it sets itself. -/
theorem shareFlags_append (hfn : ShareId fnId) (hflags : shareFlagsInvalid fnId a.flags = false) :
    shareFlags a &&& GH_RM_MEM_LEND_APPEND ≠ 0 ↔ (sglOf a.sglDesc).length > GH_RM_MEM_MAX_SGL_ENTRIES := by
  have hvalid : a.flags &&& ~~~1 = 0 := by
    simp only [shareFlagsInvalid, Bool.or_eq_false_iff, Bool.and_eq_false_iff, beq_eq_false_iff_ne, bne_eq_false_iff_eq,
      GH_RM_MEM_SHARE_VALID_FLAGS, GH_RM_MEM_LEND_VALID_FLAGS, GH_RM_MEM_DONATE_VALID_FLAGS] at hflags
    obtain ⟨⟨hshare, hlend⟩, hdonate⟩ := hflags
    rcases hfn with h | h | h
    · exact hshare.resolve_left (not_not.mpr h)
    · exact hlend.resolve_left (not_not.mpr h)
    · exact hdonate.resolve_left (not_not.mpr h)
  have hset : ∀ x : BitVec 8, (x ||| GH_RM_MEM_LEND_APPEND) &&& GH_RM_MEM_LEND_APPEND ≠ 0 := by decide
  have hunset : ∀ x : BitVec 8, x &&& ~~~1 = 0 → x &&& GH_RM_MEM_LEND_APPEND = 0 := by decide
  rw [shareFlags]
  split
  · exact iff_of_true (hset _) (by assumption)
  · exact iff_of_false (not_not.mpr (hunset _ hvalid)) (by assumption)

/-- What the helper does once it has the reply to its first request. -/
def shareTail (a : MemArgs) (env : ShareEnv) (r : CallRet) : RmCalls (Int × Option (BitVec 32)) :=
  match checkedReply env.out r with
  | .error e => .ret (e, none)
  | .ok (payload, respSize) =>
    if respSize ≠ 4 then .ret (-EINVAL, none)
    else appendLoop (respHandle payload) (sglOf a.sglDesc) env (min (sglOf a.sglDesc).length GH_RM_MEM_MAX_SGL_ENTRIES)

theorem shareTail_shared {env : ShareEnv} {x : Outcome} {handle : BitVec 32} (h : Shared x handle) :
    shareTail a env x.callRet =
      appendLoop handle (sglOf a.sglDesc) env (min (sglOf a.sglDesc).length GH_RM_MEM_MAX_SGL_ENTRIES) := by
  obtain ⟨payload, rfl, hhandle⟩ := h
  rw [← hhandle]
  rfl

theorem shareTail_fails (a : MemArgs) (env : ShareEnv) {x : Outcome} (h : ∀ handle, ¬ Shared x handle) :
    ∃ e, e ≠ 0 ∧ shareTail a env x.callRet = .ret (e, none) := by
  unfold shareTail
  by_cases hx : x.Answered
  · cases x with
    | answered payload size =>
      have hsize : size ≠ 4 := fun h4 => h _ ⟨payload, by rw [h4], rfl⟩
      rw [checkedReply_answered]
      exact ⟨-EINVAL, by decide, if_pos hsize⟩
    | early _ _ | aborted | refused _ _ => exact absurd hx id
  · obtain ⟨e, he, hne⟩ := checkedReply_error env.out hx
    rw [he]
    exact ⟨e, hne, rfl⟩

/-- The helper, from the reply to its first request on. -/
theorem share_run (hfn : ShareId fnId) (hvalid : a.invalid = false) (hflags : shareFlagsInvalid fnId a.flags = false)
    (hacl : (aclOf a.aclDesc).length < 2 ^ 16) {env : ShareEnv} (halloc : env.alloc = true) (xs : Nat → Outcome) :
    let tail := (shareTail a env (xs 0).callRet).run fun k => (xs (k + 1)).callRet
    ((ghRmMemShareLendHelper fnId a env).run fun k => (xs k).callRet) =
      (⟨fnId, some (parcelBytes a (shareFlags a)), true⟩ :: tail.1, tail.2) := by
  obtain ⟨req, hreq⟩ := shareRequest_some hfn hvalid hflags
  rw [ghRmMemShareLendHelper, halloc, hreq]
  simp only [sendRequest, share_bytes hfn hreq hacl, RmCalls.run]
  rfl

/-- Where the appends start. -/
theorem allAppend_iff {env : ShareEnv} {n : Nat} {xs : Nat → Outcome} :
    AllAppend env n xs ↔ ∀ j, min n GH_RM_MEM_MAX_SGL_ENTRIES + GH_RM_MEM_MAX_SGL_ENTRIES * j < n →
      AppendOk env (min n GH_RM_MEM_MAX_SGL_ENTRIES + GH_RM_MEM_MAX_SGL_ENTRIES * j) (xs (j + 1)) := by
  refine forall_congr' fun j => ?_
  have hlt : GH_RM_MEM_MAX_SGL_ENTRIES * (j + 1) < n ↔
      min n GH_RM_MEM_MAX_SGL_ENTRIES + GH_RM_MEM_MAX_SGL_ENTRIES * j < n := by
    simp only [GH_RM_MEM_MAX_SGL_ENTRIES]
    omega
  rw [hlt]
  refine imp_congr_right fun h => ?_
  have heq : min n GH_RM_MEM_MAX_SGL_ENTRIES + GH_RM_MEM_MAX_SGL_ENTRIES * j = GH_RM_MEM_MAX_SGL_ENTRIES * (j + 1) := by
    simp only [GH_RM_MEM_MAX_SGL_ENTRIES] at h ⊢
    omega
  rw [heq]

theorem take_append_drop_min (sgl : List SglEntry) :
    sgl.take GH_RM_MEM_MAX_SGL_ENTRIES ++ sgl.drop (min sgl.length GH_RM_MEM_MAX_SGL_ENTRIES) = sgl := by
  rcases Nat.le_total sgl.length GH_RM_MEM_MAX_SGL_ENTRIES with h | h
  · rw [min_eq_left h, List.drop_length, List.append_nil, List.take_of_length_le h]
  · rw [min_eq_right h, List.take_append_drop]

/-- Arguments that the helper rejects are not sent. -/
theorem share_invalid (env : ShareEnv) (h : a.invalid = true) (rets : Nat → CallRet) :
    (ghRmMemShareLendHelper fnId a env).run rets = ([], some (-EINVAL, none)) := by
  rw [ghRmMemShareLendHelper, shareRequest, if_pos (.inl h)]
  rfl

/-- Nothing is sent where there is no buffer. -/
theorem share_no_buffer (hfn : ShareId fnId) (hvalid : a.invalid = false)
    (hflags : shareFlagsInvalid fnId a.flags = false) {env : ShareEnv} (halloc : env.alloc = false)
    (rets : Nat → CallRet) : (ghRmMemShareLendHelper fnId a env).run rets = ([], some (-ENOMEM, none)) := by
  rw [ghRmMemShareLendHelper, shareRequest, if_neg (by simp [hvalid, hflags])]
  simp only [ghRmAllocMemRequestBuf, hdrSize hfn, kzalloc, halloc, Bool.false_eq_true, false_and, if_false]
  rfl

section Outcomes

variable (hfn : ShareId fnId) (hvalid : a.invalid = false) (hflags : shareFlagsInvalid fnId a.flags = false)
  (hacl : (aclOf a.aclDesc).length < 2 ^ 16) {env : ShareEnv} (halloc : env.alloc = true) (xs : Nat → Outcome)
include hfn hvalid hflags hacl halloc

/-- All requests succeed: all of the SG list is sent. -/
theorem share_all {handle : BitVec 32} (hshared : Shared (xs 0) handle) (hok : AllAppend env (sglOf a.sglDesc).length xs) :
    let run := (ghRmMemShareLendHelper fnId a env).run fun k => (xs k).callRet
    run.2 = some (0, some handle) ∧ ∃ first appends, AllSent fnId a handle run.1 first appends := by
  intro run
  have hrun : run = _ := share_run hfn hvalid hflags hacl halloc xs
  obtain ⟨sent, ms, hloop, hsent, hsgl, hms, hend⟩ := appendLoop_ok handle _ _ (fun k => xs (k + 1))
    (Nat.le_add_left _ _) (allAppend_iff.mp hok)
  have hfirst := (decodes_parcel (a := a) (shareFlags a) (acl_lt a.aclDesc)).exact
  rw [hrun, shareTail_shared hshared, hloop]
  refine ⟨rfl, { parcel a (shareFlags a) with sgl := (sglOf a.sglDesc).take GH_RM_MEM_MAX_SGL_ENTRIES }, ms, ?_⟩
  exact
    { sent := ⟨_, sent, rfl, ⟨rfl, _, rfl, hfirst⟩, hsent⟩
      acl := rfl
      attr := rfl
      memType := rfl
      label := rfl
      beginning := rfl
      sgl := by rw [hsgl, take_append_drop_min]
      appendsTo := hms
      append := shareFlags_append hfn hflags
      appendEnd := hend }

/-- A request to append fails: the memory is reclaimed. -/
theorem share_reclaims {handle : BitVec 32} (hshared : Shared (xs 0) handle)
    (hno : ¬ AllAppend env (sglOf a.sglDesc).length xs) :
    let run := (ghRmMemShareLendHelper fnId a env).run fun k => (xs k).callRet
    Reclaimed handle xs run.1 ∧ ∃ e, e ≠ 0 ∧ run.2 = some (e, none) := by
  intro run
  have hrun : run = _ := share_run hfn hvalid hflags hacl halloc xs
  rw [allAppend_iff] at hno
  push Not at hno
  obtain ⟨appends, e, hloop, he, hmsg, hall⟩ := appendLoop_fails handle _ _ (fun k => xs (k + 1))
    (Nat.le_add_left _ _) hno
  rw [hrun, shareTail_shared hshared, hloop]
  refine ⟨⟨⟨fnId, some (parcelBytes a (shareFlags a)), true⟩, appends, rfl, ?_, hmsg, hall⟩, e, he, rfl⟩
  show fnId ≠ GH_RM_RPC_MSG_ID_CALL_MEM_RECLAIM
  rcases hfn with rfl | rfl | rfl <;> decide

/-- The first request fails: nothing else is sent. -/
theorem share_refused (hno : ∀ handle, ¬ Shared (xs 0) handle) :
    ∃ args e, e ≠ 0 ∧ ((ghRmMemShareLendHelper fnId a env).run fun k => (xs k).callRet) = ([args], some (e, none)) := by
  obtain ⟨e, he, htail⟩ := shareTail_fails a env hno
  rw [share_run hfn hvalid hflags hacl halloc xs, htail]
  exact ⟨_, e, he, rfl⟩

end Outcomes

/-- The helper always returns, and stores a handle exactly if it returns 0: that is when all
requests succeed. -/
theorem share_result (hfn : ShareId fnId) (hvalid : a.invalid = false) (hflags : shareFlagsInvalid fnId a.flags = false)
    (hacl : (aclOf a.aclDesc).length < 2 ^ 16) (env : ShareEnv) (xs : Nat → Outcome) :
    ∃ sent ret handle, ((ghRmMemShareLendHelper fnId a env).run fun k => (xs k).callRet) = (sent, some (ret, handle)) ∧
      (ret = 0 ↔ handle.isSome = true) ∧
      (ret = 0 ↔ env.alloc = true ∧ (∃ handle, Shared (xs 0) handle) ∧ AllAppend env (sglOf a.sglDesc).length xs) := by
  by_cases halloc : env.alloc = true
  · by_cases hshared : ∃ handle, Shared (xs 0) handle
    · obtain ⟨handle, hhandle⟩ := hshared
      by_cases hall : AllAppend env (sglOf a.sglDesc).length xs
      · obtain ⟨hret, -⟩ := share_all hfn hvalid hflags hacl halloc xs hhandle hall
        exact ⟨_, 0, some handle, Prod.ext rfl hret, iff_of_true rfl rfl, iff_of_true rfl ⟨halloc, ⟨handle, hhandle⟩, hall⟩⟩
      · obtain ⟨-, e, he, hret⟩ := share_reclaims hfn hvalid hflags hacl halloc xs hhandle hall
        exact ⟨_, e, none, Prod.ext rfl hret, iff_of_false he (by decide), iff_of_false he fun h => hall h.2.2⟩
    · obtain ⟨args, e, he, hrun⟩ := share_refused hfn hvalid hflags hacl halloc xs (not_exists.mp hshared)
      exact ⟨_, e, none, hrun, iff_of_false he (by decide), iff_of_false he fun h => hshared h.2.1⟩
  · have hrun := share_no_buffer hfn hvalid hflags (Bool.not_eq_true _ ▸ halloc) fun k => (xs k).callRet
    exact ⟨_, -ENOMEM, none, hrun, by decide, iff_of_false (by decide) fun h => halloc h.1⟩

/-- Sharing, lending and donating memory sends all of its SG list, and stores the handle
only then; if a request to append to it fails, the memory is reclaimed. -/
theorem share_sends (fnId : BitVec 32) (a : MemArgs) (env : ShareEnv) (xs : Nat → Outcome)
    (hfn : ShareId fnId) (hvalid : a.invalid = false) (hflags : shareFlagsInvalid fnId a.flags = false)
    (hacl : (aclOf a.aclDesc).length < 2 ^ 16) (halloc : env.alloc = true) :
    let run := (ghRmMemShareLendHelper fnId a env).run fun k => (xs k).callRet
    (∀ handle, Shared (xs 0) handle → AllAppend env (sglOf a.sglDesc).length xs →
      run.2 = some (0, some handle) ∧ ∃ first appends, AllSent fnId a handle run.1 first appends) ∧
    (∀ handle, Shared (xs 0) handle → ¬ AllAppend env (sglOf a.sglDesc).length xs →
      Reclaimed handle xs run.1 ∧ ∃ e, e ≠ 0 ∧ run.2 = some (e, none)) ∧
    ((∀ handle, ¬ Shared (xs 0) handle) → ∃ args e, e ≠ 0 ∧ run = ([args], some (e, none))) := by
  exact ⟨fun _ hshared hok => share_all hfn hvalid hflags hacl halloc xs hshared hok,
    fun _ hshared hno => share_reclaims hfn hvalid hflags hacl halloc xs hshared hno,
    share_refused hfn hvalid hflags hacl halloc xs⟩

/-- Replies of which the first has the handle 5. -/
def sharedReplies : Nat → Outcome
  | 0 => .answered (some [5, 0, 0, 0]) 4
  | _ + 1 => .answered none 0

theorem share_sends_two :
    let run := (ghRmMemShareLendHelper GH_RM_RPC_MSG_ID_CALL_MEM_SHARE (lookupOf 513 (by decide))
      { heap := fun _ _ => 0xFF, out := ⟨0, 0⟩, appendOut := fun _ => ⟨0, 0⟩ }).run fun k => (sharedReplies k).callRet
    run.2 = some (0, some 5) ∧
      ∃ first appends, AllSent GH_RM_RPC_MSG_ID_CALL_MEM_SHARE (lookupOf 513 (by decide)) 5 run.1 first appends :=
  (share_sends _ _ _ sharedReplies (.inl rfl) (lookupOf_valid (by decide) (by decide)) (by decide) (by decide) rfl).1 5
    ⟨_, rfl, by decide⟩ fun _ _ => ⟨rfl, none, rfl⟩

end Share

end GH.Proof.Rm
