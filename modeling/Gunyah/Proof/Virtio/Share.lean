import Gunyah.Spec.Virtio.Share

/-!
# Sharing the buffers of a VM

The calls for one buffer (`shareAVmBuffer_ok`, `shareAVmBuffer_fails`), those of
the two loops for each buffer (`shareLoop_stops`, `callsOf_unshareBack`), and
from these that `share_vm_buffers` shares all buffers or none
(`share_all_or_nothing`).
-/

namespace GH.Proof.Share

open GH.Impl GH.Impl.Share GH.Spec.Share
open GH.Impl.Rm (VmId GH_RM_ACL_R GH_RM_ACL_W)
open GH.Impl.Shmem (VmPerm bit QCOM_SCM_PERM_RWX)

variable {self peer : VmId} {a : BufAnswers} {shmem : Nat → SharedMemory} {w : Nat → BufMem}

/-! ## The calls for a buffer -/

@[simp] theorem callsOf_nil (j : Nat) : callsOf j [] = [] := rfl

@[simp] theorem callsOf_append (j : Nat) (cs ds : List (Nat × ShareCall)) :
    callsOf j (cs ++ ds) = callsOf j cs ++ callsOf j ds := List.filterMap_append ..

theorem callsOf_callsFor (j i : Nat) (cs : List ShareCall) :
    callsOf j (callsFor i cs) = if i = j then cs else [] := by
  rw [callsOf, callsFor, List.filterMap_map]
  split
  · rename_i h
    rw [show ((fun p : Nat × ShareCall => if p.1 = j then some p.2 else none) ∘ fun c => (i, c)) = some from
      funext fun c => if_pos h]
    exact List.filterMap_some ..
  · rename_i h
    exact List.filterMap_eq_nil_iff.mpr fun c _ => if_neg h

theorem memAfter_append (w : Nat → BufMem) (cs ds : List (Nat × ShareCall)) :
    memAfter w (cs ++ ds) = memAfter (memAfter w cs) ds := by
  funext i
  simp only [memAfter, callsOf_append, List.foldl_append]

/-! ## One buffer -/

@[simp] theorem call_start (m : BufMem) (c : ShareCall) : (m.call c).start = m.start := by
  cases c <;> simp only [BufMem.call] <;> split <;> rfl

@[simp] theorem call_size (m : BufMem) (c : ShareCall) : (m.call c).size = m.size := by
  cases c <;> simp only [BufMem.call] <;> split <;> rfl

/-- Calls leave a buffer where it is. -/
theorem calls_isOf {m : BufMem} {b : SharedMemory} (h : m.IsOf b) (cs : List ShareCall) :
    (cs.foldl BufMem.call m).IsOf b := by
  induction cs generalizing m with
  | nil => exact h
  | cons c cs ih => exact ih ⟨(call_start m c).trans h.1, (call_size m c).trans h.2⟩

theorem isFor_shareAVmBuffer (self peer : VmId) (b : SharedMemory) (s : ShareAnswers) :
    ∀ c ∈ (shareAVmBuffer self peer b s).2.1, ShareCall.IsFor b c := by
  intro c hc
  unfold shareAVmBuffer at hc
  split at hc
  · cases hc
  split at hc
  · cases hc
  simp only at hc
  split at hc
  · simp only [List.mem_singleton] at hc
    subst hc
    exact ⟨rfl, rfl⟩
  split at hc
  all_goals
    simp only [List.mem_cons, List.not_mem_nil, or_false] at hc
  · rcases hc with rfl | rfl | rfl <;> exact ⟨rfl, rfl⟩
  · rcases hc with rfl | rfl <;> exact ⟨rfl, rfl⟩

theorem isFor_unshareAVmBuffer (self peer : VmId) (b : SharedMemory) (u : UnshareAnswers) :
    ∀ c ∈ (unshareAVmBuffer self peer b u).1, ShareCall.IsFor b c := by
  intro c hc
  unfold unshareAVmBuffer at hc
  simp only at hc
  split at hc
  all_goals
    simp only [List.mem_cons, List.not_mem_nil, or_false] at hc
  · subst hc
    trivial
  · rcases hc with rfl | rfl
    · trivial
    · exact ⟨rfl, rfl⟩

/-- What `share_a_vm_buffer` keeps of a buffer. -/
theorem shareAVmBuffer_region (self peer : VmId) (b : SharedMemory) (s : ShareAnswers) :
    (shareAVmBuffer self peer b s).1.start = b.start ∧ (shareAVmBuffer self peer b s).1.size = b.size := by
  unfold shareAVmBuffer
  split
  · exact ⟨rfl, rfl⟩
  split
  · exact ⟨rfl, rfl⟩
  simp only
  split
  · exact ⟨rfl, rfl⟩
  split <;> exact ⟨rfl, rfl⟩

/-- A buffer with the memparcel that the RM has made of it. -/
def withParcel (b : SharedMemory) (handle : BitVec 32) : SharedMemory := { b with shmMemparcel := handle }

/-- The calls that share a buffer. -/
def sharing (self peer : VmId) (b : SharedMemory) (handle : BitVec 32) : List ShareCall :=
  [.assignMem b.start b.size (bit self.toNat) (dstPerms self peer) 0,
    .memShare b.gunyahLabel
      [⟨self, GH_RM_ACL_R ||| GH_RM_ACL_W⟩, ⟨peer, GH_RM_ACL_R ||| GH_RM_ACL_W⟩] [⟨b.start, b.size⟩] 0 handle]

/-- The calls that take a buffer back. -/
def takingBack (self peer : VmId) (b : SharedMemory) : List ShareCall :=
  [.memReclaim b.shmMemparcel 0,
    .assignMem b.start b.size (bit self.toNat ||| bit peer.toNat) [⟨self, QCOM_SCM_PERM_RWX⟩] 0]

theorem shareAVmBuffer_ok {s : ShareAnswers} (h : ¬ ShareAnswers.Fails s) (self peer : VmId) (b : SharedMemory) :
    shareAVmBuffer self peer b s = ({ b with shmMemparcel := s.handle }, sharing self peer b s.handle, 0) := by
  obtain ⟨h₁, h₂, h₃, h₄⟩ : ¬ s.acl = false ∧ ¬ s.sgl = false ∧ s.assign = 0 ∧ s.share = 0 := by
    simpa [ShareAnswers.Fails] using h
  rw [shareAVmBuffer, if_neg h₁, if_neg h₂]
  simp only
  rw [if_neg (not_not.mpr h₃), if_neg (not_not.mpr h₄), h₃, h₄]
  rfl

/-- What is left of a buffer that cannot be shared. -/
structure Untouched (v : VmId) (b : SharedMemory) (back : Int) (cs : List ShareCall) : Prop where
  obtained : obtained cs = []
  reclaimed : reclaimed cs = []
  parcels (m : BufMem) : (cs.foldl BufMem.call m).parcels = m.parcels
  alone (m : BufMem) : back = 0 → m.IsOf b → Alone v m → Alone v (cs.foldl BufMem.call m)

theorem shareAVmBuffer_fails {s : ShareAnswers} (h : ShareAnswers.Fails s) (self peer : VmId) (b : SharedMemory) :
    ∃ cs ret, shareAVmBuffer self peer b s = (b, cs, ret) ∧ ret ≠ 0 ∧ Untouched self b s.back cs := by
  have hnil : Untouched self b s.back [] := ⟨rfl, rfl, fun _ => rfl, fun _ _ _ hm => hm⟩
  have hnomem : (-ENOMEM : Int) ≠ 0 := by decide
  unfold shareAVmBuffer
  split
  · exact ⟨_, _, rfl, hnomem, hnil⟩
  rename_i h₁
  split
  · exact ⟨_, _, rfl, hnomem, hnil⟩
  rename_i h₂
  simp only
  split
  · rename_i h₃
    refine ⟨_, _, rfl, h₃, rfl, rfl, fun m => ?_, fun m _ _ hm => ?_⟩
    · simp only [List.foldl_cons, List.foldl_nil, BufMem.call, h₃, false_and, if_false]
    · simp only [List.foldl_cons, List.foldl_nil, BufMem.call, h₃, false_and, if_false]
      exact hm
  rename_i h₃
  rw [not_not] at h₃
  split
  · rename_i h₄
    refine ⟨_, _, rfl, h₄, ?_, rfl, fun m => ?_, fun m hback hm _ => ?_⟩
    · simp [obtained, ShareCall.obtains, h₄]
    · simp only [List.foldl_cons, List.foldl_nil, BufMem.call, h₄, false_and, if_false]
      split <;> split <;> rfl
    · obtain ⟨hstart, hsize⟩ := hm
      simp [BufMem.call, h₃, h₄, hback, hstart, hsize, Alone]
  · rename_i h₄
    rcases h with h | h | h | h
    · exact absurd h h₁
    · exact absurd h h₂
    · exact absurd h₃ h
    · exact absurd h h₄

theorem shareAVmBuffer_ret (self peer : VmId) (b : SharedMemory) (s : ShareAnswers) :
    (shareAVmBuffer self peer b s).2.2 ≠ 0 ↔ ShareAnswers.Fails s := by
  constructor
  · intro h
    by_contra hok
    rw [shareAVmBuffer_ok hok] at h
    exact h rfl
  · intro h
    obtain ⟨cs, ret, he, hret, -⟩ := shareAVmBuffer_fails h self peer b
    rw [he]
    exact hret

theorem unshareAVmBuffer_ok {u : UnshareAnswers} (hr : u.reclaim = 0) (ha : u.assign = 0) (self peer : VmId)
    (b : SharedMemory) : unshareAVmBuffer self peer b u = (takingBack self peer b, 0) := by
  rw [unshareAVmBuffer, if_neg (not_not.mpr hr), hr, ha]
  rfl

theorem sharing_mem {m : BufMem} {b : SharedMemory} (hm : m.IsOf b) (self peer : VmId) (handle : BitVec 32) :
    (sharing self peer b handle).foldl BufMem.call m =
      { m with owners := dstPerms self peer, parcels := handle :: m.parcels } := by
  obtain ⟨hstart, hsize⟩ := hm
  simp [sharing, BufMem.call, hstart, hsize]

theorem takingBack_mem {m : BufMem} {b : SharedMemory} (hm : m.IsOf b) (self peer : VmId) :
    (takingBack self peer b).foldl BufMem.call m =
      { m with owners := [⟨self, QCOM_SCM_PERM_RWX⟩], parcels := m.parcels.erase b.shmMemparcel } := by
  obtain ⟨hstart, hsize⟩ := hm
  simp [takingBack, BufMem.call, hstart, hsize]

/-! ## The loops -/

/-- The loop of `share_vm_buffers` stops at the first buffer that cannot be
shared; the calls for each buffer up to there are those of `share_a_vm_buffer`. -/
structure Stops (self peer : VmId) (a : BufAnswers) (shmem : Nat → SharedMemory) (i n : Nat) (r : ShareStop) :
    Prop where
  le : i ≤ r.i
  ok (j : Nat) : i ≤ j → j < r.i → ¬ ShareAnswers.Fails (a.share j)
  calls (j : Nat) : callsOf j r.calls =
    if i ≤ j ∧ j ≤ r.i ∧ j < i + n then (shareAVmBuffer self peer (shmem j) (a.share j)).2.1 else []
  shmem (j : Nat) : r.shmem j =
    if i ≤ j ∧ j ≤ r.i ∧ j < i + n then (shareAVmBuffer self peer (shmem j) (a.share j)).1 else shmem j
  ret : r.i = i + n ∧ r.ret = 0 ∨ r.i < i + n ∧ ShareAnswers.Fails (a.share r.i) ∧ r.ret ≠ 0

theorem shareLoop_stops (self peer : VmId) (a : BufAnswers) (shmem : Nat → SharedMemory) (i n : Nat) :
    Stops self peer a shmem i n (shareLoop self peer a shmem i n) := by
  induction n generalizing shmem i with
  | zero =>
    refine ⟨Nat.le_refl _, fun j h h' => absurd h' (Nat.not_lt.mpr h), fun j => ?_, fun j => ?_, .inl ⟨rfl, rfl⟩⟩
    · rw [if_neg (by omega)]
      rfl
    · rw [if_neg (by omega)]
      rfl
  | succ n ih =>
    rw [shareLoop]
    simp only
    split
    · rename_i hret
      have hfails := (shareAVmBuffer_ret ..).mp hret
      refine ⟨Nat.le_refl _, fun j h h' => absurd h' (Nat.not_lt.mpr h), fun j => ?_, fun j => ?_,
        .inr ⟨by simp only; omega, hfails, hret⟩⟩
      · rw [callsOf_callsFor]
        by_cases e : i = j
        · subst e
          rw [if_pos rfl, if_pos (by simp only; omega)]
        · rw [if_neg e, if_neg (by simp only; omega)]
      · simp only [Function.update_apply]
        by_cases e : j = i
        · subst e
          rw [if_pos rfl, if_pos (by omega)]
        · rw [if_neg e, if_neg (by omega)]
    · rename_i hret
      have hok := (not_congr (shareAVmBuffer_ret ..)).mp hret
      have hrest := ih (Function.update shmem i (shareAVmBuffer self peer (shmem i) (a.share i)).1) (i + 1)
      generalize shareLoop self peer a _ (i + 1) n = rest at hrest
      obtain ⟨hle, hbefore, hcalls, hshmem, hend⟩ := hrest
      refine ⟨by simp only; omega, fun j h h' => ?_, fun j => ?_, fun j => ?_, ?_⟩
      · by_cases e : j = i
        · exact e ▸ hok
        · exact hbefore j (by omega) h'
      · rw [callsOf_append, callsOf_callsFor, hcalls]
        by_cases e : i = j
        · subst e
          rw [if_pos rfl, if_neg (by omega), if_pos (by simp only; omega), List.append_nil]
        · rw [if_neg e, List.nil_append, Function.update_of_ne (Ne.symm e)]
          exact if_congr (by simp only; omega) rfl rfl
      · simp only [hshmem]
        by_cases e : j = i
        · subst e
          rw [if_neg (by omega), if_pos (by omega), Function.update_self]
        · rw [Function.update_of_ne e]
          exact if_congr (by omega) rfl rfl
      · rcases hend with ⟨h, h'⟩ | ⟨h, h', h''⟩
        · exact .inl ⟨by simp only; omega, h'⟩
        · exact .inr ⟨by simp only; omega, h', h''⟩

theorem callsOf_unshareBack (self peer : VmId) (a : BufAnswers) (shmem : Nat → SharedMemory) (i j : Nat) :
    callsOf j (unshareBack self peer a shmem i) =
      if j < i then (unshareAVmBuffer self peer (shmem j) (a.unshare j)).1 else [] := by
  induction i with
  | zero => rw [if_neg (by omega)]; rfl
  | succ i ih =>
    rw [unshareBack, callsOf_append, callsOf_callsFor, ih]
    by_cases e : i = j
    · subst e
      rw [if_pos rfl, if_neg (by omega), if_pos (by omega), List.append_nil]
    · rw [if_neg e, List.nil_append]
      exact if_congr (by omega) rfl rfl

/-! ## All or nothing -/

/-- The calls for a buffer where a later one cannot be shared. -/
theorem taken_back (self peer : VmId) (b : SharedMemory) (handle : BitVec 32) :
    obtained (sharing self peer b handle ++ takingBack self peer (withParcel b handle)) = [handle] ∧
      reclaimed (sharing self peer b handle ++ takingBack self peer (withParcel b handle)) = [handle] ∧
      ∀ m : BufMem, m.IsOf b →
        (sharing self peer b handle ++ takingBack self peer (withParcel b handle)).foldl BufMem.call m =
          { m with owners := [⟨self, QCOM_SCM_PERM_RWX⟩] } := by
  refine ⟨rfl, rfl, fun m hm => ?_⟩
  have hm' : ({ m with owners := dstPerms self peer, parcels := handle :: m.parcels } : BufMem).IsOf
      (withParcel b handle) := hm
  rw [List.foldl_append, sharing_mem hm, takingBack_mem hm', withParcel, List.erase_cons_head]

theorem isFor_sharing (self peer : VmId) (b : SharedMemory) (handle : BitVec 32) :
    ∀ c ∈ sharing self peer b handle, ShareCall.IsFor b c := by
  simp [sharing, ShareCall.IsFor]

theorem isFor_backAndForth (self peer : VmId) (b : SharedMemory) (handle : BitVec 32) (u : UnshareAnswers) :
    ∀ c ∈ sharing self peer b handle ++ (unshareAVmBuffer self peer (withParcel b handle) u).1,
      ShareCall.IsFor b c := by
  refine List.forall_mem_append.mpr ⟨isFor_sharing self peer b handle, fun c hc => ?_⟩
  have hfor := isFor_unshareAVmBuffer self peer (withParcel b handle) u c hc
  cases c <;> exact hfor

/-- `share_vm_buffers` where it comes to nothing: buffer `k` cannot be shared. -/
structure FailsAt (vm : ShmVm) (peer : VmId) (a : BufAnswers) (k : Nat)
    (r : ShmVm × List (Nat × ShareCall) × Int) : Prop where
  lt : k < vm.shmemEntries
  fails : ShareAnswers.Fails (a.share k)
  ret : r.2.2 ≠ 0
  flag : r.1.hypAssignDone = vm.hypAssignDone
  entries : r.1.shmemEntries = vm.shmemEntries
  region (j : Nat) : (r.1.shmem j).start = (vm.shmem j).start ∧ (r.1.shmem j).size = (vm.shmem j).size
  calls (j : Nat) : callsOf j r.2.1 =
    if j < k then sharing a.self peer (vm.shmem j) (a.share j).handle ++
      (unshareAVmBuffer a.self peer (withParcel (vm.shmem j) (a.share j).handle) (a.unshare j)).1
    else if j = k then (shareAVmBuffer a.self peer (vm.shmem j) (a.share j)).2.1 else []

theorem shareVmBuffers_fails {vm : ShmVm} (hvmid : a.vmidRet = 0)
    (hfails : ∃ i < vm.shmemEntries, ShareAnswers.Fails (a.share i)) :
    ∃ k, FailsAt vm peer a k (shareVmBuffers vm peer a) := by
  have hstops := shareLoop_stops a.self peer a vm.shmem 0 vm.shmemEntries
  rw [shareVmBuffers, if_neg (not_not.mpr hvmid)]
  simp only
  generalize shareLoop a.self peer a vm.shmem 0 vm.shmemEntries = r at hstops
  obtain ⟨-, hok, hcalls, hshmem, hend⟩ := hstops
  rw [Nat.zero_add] at hend
  rcases hend with ⟨hi, -⟩ | ⟨hi, hf, hret⟩
  · obtain ⟨k, hk, hf⟩ := hfails
    exact absurd hf (hok k (Nat.zero_le k) (by omega))
  rw [if_pos hret]
  refine ⟨r.i, hi, hf, hret, rfl, rfl, fun j => ?_, fun j => ?_⟩
  · simp only
    rw [hshmem]
    split
    · exact shareAVmBuffer_region ..
    · exact ⟨rfl, rfl⟩
  simp only
  rw [callsOf_append, hcalls, callsOf_unshareBack]
  by_cases hj : j < r.i
  · have hshare := shareAVmBuffer_ok (hok j (Nat.zero_le j) hj) a.self peer (vm.shmem j)
    rw [if_pos (by omega), if_pos hj, if_pos hj, hshmem, if_pos (by omega), hshare]
    rfl
  · rw [if_neg hj, if_neg hj, List.append_nil]
    exact if_congr (by omega) rfl rfl

/-- `share_vm_buffers` where it shares all buffers. -/
structure Succeeds (vm : ShmVm) (peer : VmId) (a : BufAnswers) (r : ShmVm × List (Nat × ShareCall) × Int) : Prop where
  ret : r.2.2 = 0
  flag : r.1.hypAssignDone = true
  entries : r.1.shmemEntries = vm.shmemEntries
  calls (j : Nat) : callsOf j r.2.1 =
    if j < vm.shmemEntries then sharing a.self peer (vm.shmem j) (a.share j).handle else []
  region (j : Nat) : (r.1.shmem j).start = (vm.shmem j).start ∧ (r.1.shmem j).size = (vm.shmem j).size
  shmem (j : Nat) : j < vm.shmemEntries → r.1.shmem j = withParcel (vm.shmem j) (a.share j).handle

theorem shareVmBuffers_succeeds {vm : ShmVm} (hok : ¬ ShareFails vm a) :
    Succeeds vm peer a (shareVmBuffers vm peer a) := by
  obtain ⟨hvmid, hok⟩ := not_or.mp hok
  push Not at hvmid hok
  have hstops := shareLoop_stops a.self peer a vm.shmem 0 vm.shmemEntries
  rw [shareVmBuffers, if_neg (not_not.mpr hvmid)]
  simp only
  generalize shareLoop a.self peer a vm.shmem 0 vm.shmemEntries = r at hstops
  obtain ⟨-, -, hcalls, hshmem, hend⟩ := hstops
  rw [Nat.zero_add] at hend
  rcases hend with ⟨hi, hret⟩ | ⟨hi, hf, -⟩
  swap
  · exact absurd hf (hok r.i hi)
  rw [if_neg (not_not.mpr hret)]
  have hshare (j : Nat) (hj : j < vm.shmemEntries) := shareAVmBuffer_ok (hok j hj) a.self peer (vm.shmem j)
  refine ⟨rfl, rfl, rfl, fun j => ?_, fun j => ?_, fun j hj => ?_⟩
  · simp only
    rw [hcalls]
    by_cases hj : j < vm.shmemEntries
    · rw [if_pos (by omega), if_pos hj, hshare j hj]
    · rw [if_neg (by omega), if_neg hj]
  · simp only
    rw [hshmem]
    split
    · exact shareAVmBuffer_region ..
    · exact ⟨rfl, rfl⟩
  · simp only
    rw [hshmem, if_pos (by omega), hshare j hj]
    rfl

theorem nothingShared {vm : ShmVm} (hvmid : a.vmidRet = 0)
    (hfails : ∃ i < vm.shmemEntries, ShareAnswers.Fails (a.share i))
    (hback : ∀ i < vm.shmemEntries, Compensates a i) : NothingShared vm a (shareVmBuffers vm peer a) := by
  obtain ⟨k, hk⟩ : ∃ k, FailsAt vm peer a k (shareVmBuffers vm peer a) := shareVmBuffers_fails hvmid hfails
  generalize shareVmBuffers vm peer a = r at hk
  obtain ⟨hlt, hf, hret, hflag, -, -, hcalls⟩ := hk
  have hbuf (j : Nat) : callsOf j r.2.1 =
      if j < k then sharing a.self peer (vm.shmem j) (a.share j).handle ++
        takingBack a.self peer (withParcel (vm.shmem j) (a.share j).handle)
      else if j = k then (shareAVmBuffer a.self peer (vm.shmem j) (a.share j)).2.1 else [] := by
    rw [hcalls]
    by_cases hj : j < k
    · obtain ⟨-, hrec, hassign⟩ := hback j (by omega)
      rw [if_pos hj, if_pos hj, unshareAVmBuffer_ok hrec hassign]
    · rw [if_neg hj, if_neg hj]
  obtain ⟨cs, ret, he, -, hcs⟩ := shareAVmBuffer_fails hf a.self peer (vm.shmem k)
  refine ⟨hret, hflag, fun j => ?_, fun w j hw => ?_, fun j => ?_, fun w j hw => ?_⟩
  · rw [hcalls]
    split
    · exact isFor_backAndForth _ _ _ _ _
    split
    · exact isFor_shareAVmBuffer _ _ _ _
    · exact List.forall_mem_nil _
  all_goals
    simp only [memAfter, hbuf]
    split
  · intro _
    rw [(taken_back a.self peer _ _).2.2 _ hw]
    rfl
  · split
    · rename_i e
      rw [e, he]
      exact hcs.alone _ (hback k hlt).1 (e ▸ hw)
    · exact id
  · rw [(taken_back a.self peer _ _).1, (taken_back a.self peer _ _).2.1]
  · split
    · rename_i e
      rw [e, he]
      exact hcs.reclaimed.trans hcs.obtained.symm
    · rfl
  · rw [(taken_back a.self peer _ _).2.2 _ hw]
  · split
    · rename_i e
      rw [e, he]
      exact hcs.parcels _
    · rfl

theorem allShared {vm : ShmVm} (hok : ¬ ShareFails vm a) : AllShared vm peer a (shareVmBuffers vm peer a) := by
  obtain ⟨hret, hflag, -, hcalls, -, hshmem⟩ : Succeeds vm peer a (shareVmBuffers vm peer a) :=
    shareVmBuffers_succeeds hok
  refine ⟨hret, hflag, fun j => ?_, fun w j hj hw => ?_, fun j hj => ?_, fun w j hj hw => ?_⟩
  · rw [hcalls]
    split
    · exact isFor_sharing _ _ _ _
    · exact List.forall_mem_nil _
  · rw [memAfter, hcalls, if_pos hj, sharing_mem hw]
  · rw [hcalls, if_pos hj, hshmem j hj]
    exact ⟨rfl, rfl⟩
  · rw [memAfter, hcalls, if_pos hj, sharing_mem hw, hshmem j hj, withParcel]

/-- `share_vm_buffers` shares every buffer once, or none. -/
theorem share_all_or_nothing (vm : ShmVm) (peer : VmId) (a : BufAnswers)
    (hback : ∀ i < vm.shmemEntries, Compensates a i) :
    (ShareFails vm a → NothingShared vm a (shareVmBuffers vm peer a)) ∧
      (¬ ShareFails vm a → AllShared vm peer a (shareVmBuffers vm peer a)) := by
  refine ⟨fun hfails => ?_, allShared⟩
  by_cases hvmid : a.vmidRet = 0
  · exact nothingShared hvmid (hfails.resolve_left fun h => h hvmid) hback
  · rw [shareVmBuffers, if_pos hvmid]
    exact ⟨hvmid, rfl, fun _ => List.forall_mem_nil _, fun _ _ _ h => h, fun _ => rfl, fun _ _ _ => rfl⟩

/-- A VM with two buffers. -/
def twoBuffers : ShmVm where
  shmem i := ⟨0x80000000 + 0x1000 * BitVec.ofNat 64 i, 0x1000, BitVec.ofNat 32 (i + 1), 0⟩
  shmemEntries := 2

/-- The RM does not share the second buffer. -/
def secondRefused : BufAnswers where
  self := 3
  share i := { handle := BitVec.ofNat 32 (i + 7), share := if i = 1 then -EINVAL else 0 }
  unshare _ := {}

theorem secondRefused_nothingShared : ShareFails twoBuffers secondRefused ∧
    NothingShared twoBuffers secondRefused (shareVmBuffers twoBuffers 45 secondRefused) := by
  have hfails : ShareFails twoBuffers secondRefused := .inr ⟨1, by decide, .inr (.inr (.inr (by decide)))⟩
  exact ⟨hfails, (share_all_or_nothing twoBuffers 45 secondRefused fun _ _ => ⟨rfl, rfl, rfl⟩).1 hfails⟩

end GH.Proof.Share
