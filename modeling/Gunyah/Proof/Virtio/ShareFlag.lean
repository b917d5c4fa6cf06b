import Gunyah.Impl.Virtio.Backend
import Gunyah.Framework.Run
import Gunyah.Proof.Virtio.Share

/-!
# What `hyp_assign_done` says

`share_vm_buffers` keeps the flag right also where it fails and cannot take the
buffers back again: the last buffer is then not shared (`share_keeps`).
`unshare_vm_buffers` keeps it right where it takes back all buffers or none
(`unshare_keeps`), so the flag is right in every run where it does
(`flag_right`). Where it stops at another buffer it leaves the flag set, and
comes back to the memparcels that it has reclaimed (`second_reclaimed`).
-/

namespace GH.Proof.Share

open GH.Impl GH.Impl.Share GH.Spec.Share
open GH.Impl.Rm (VmId)
open GH.Impl.Shmem (VmPerm bit QCOM_SCM_PERM_RWX)

variable {peer : VmId} {s t : ShmState}

/-- With the flag set every buffer is shared, and the last has one memparcel;
otherwise the last has none. -/
structure FlagInv (peer : VmId) (s : ShmState) : Prop where
  pos : 0 < s.vm.shmemEntries
  region (i : Nat) : (s.mem i).IsOf (s.vm.shmem i)
  shared : s.vm.hypAssignDone = true → ∀ i < s.vm.shmemEntries, Shared peer (s.vm.shmem i) (s.mem i)
  lastShared : s.vm.hypAssignDone = true →
    (s.mem (s.vm.shmemEntries - 1)).parcels = [(s.vm.shmem (s.vm.shmemEntries - 1)).shmMemparcel]
  last : s.vm.hypAssignDone = false → (s.mem (s.vm.shmemEntries - 1)).parcels = []

theorem FlagInv.flagRight (h : FlagInv peer s) : FlagRight peer s := by
  refine ⟨h.shared, fun hall => ?_⟩
  by_contra hdone
  rw [Bool.not_eq_true] at hdone
  have hlast := (hall (s.vm.shmemEntries - 1) (Nat.sub_lt h.pos Nat.one_pos)).2
  rw [h.last hdone] at hlast
  cases hlast

/-! ## Reclaims of live memparcels -/

theorem reclaimsLive_nil (m : BufMem) : ReclaimsLive m [] := by
  intro l handle ret r h
  simp at h

theorem reclaimsLive_append {m : BufMem} {cs ds : List ShareCall} (hc : ReclaimsLive m cs)
    (hd : ReclaimsLive (cs.foldl BufMem.call m) ds) : ReclaimsLive m (cs ++ ds) := by
  intro l handle ret r h
  rcases List.append_eq_append_iff.mp h with ⟨k, hl, hk⟩ | ⟨k, hcs, hk⟩
  · rw [hl, List.foldl_append]
    exact hd k handle ret r hk
  · cases k with
    | nil =>
      rw [List.nil_append] at hk
      rw [List.append_nil] at hcs
      rw [← hcs]
      exact hd [] handle ret r hk.symm
    | cons c k =>
      rw [List.cons_append, List.cons.injEq] at hk
      obtain ⟨rfl, -⟩ := hk
      exact hc l handle ret k hcs

/-- No call reclaims a memparcel. -/
def NoReclaim (cs : List ShareCall) : Prop := ∀ handle ret, .memReclaim handle ret ∉ cs

theorem reclaimsLive_of_noReclaim {cs : List ShareCall} (h : NoReclaim cs) (m : BufMem) : ReclaimsLive m cs := by
  intro l handle ret r hcs
  exact absurd (by rw [hcs]; simp) (h handle ret)

theorem noReclaim_shareAVmBuffer (self : VmId) (b : SharedMemory) (a : ShareAnswers) :
    NoReclaim (shareAVmBuffer self peer b a).2.1 := by
  intro handle ret
  unfold shareAVmBuffer
  split
  · exact List.not_mem_nil
  split
  · exact List.not_mem_nil
  simp only
  split
  · simp
  split <;> simp

theorem noReclaim_sharing (self : VmId) (b : SharedMemory) (handle : BitVec 32) :
    NoReclaim (sharing self peer b handle) := by
  intro handle ret
  simp [sharing]

/-- `unshare_a_vm_buffer` reclaims the memparcel that the driver keeps. -/
theorem reclaimsLive_unshareAVmBuffer {m : BufMem} (self : VmId) {b : SharedMemory} (h : b.shmMemparcel ∈ m.parcels)
    (a : UnshareAnswers) : ReclaimsLive m (unshareAVmBuffer self peer b a).1 := by
  intro l handle ret r he
  have hnil : l = [] ∧ handle = b.shmMemparcel := by
    unfold unshareAVmBuffer at he
    simp only at he
    split at he
    · cases l with
      | nil =>
        cases he
        exact ⟨rfl, rfl⟩
      | cons c l => simp at he
    · rcases l with _ | ⟨c, _ | ⟨d, l⟩⟩
      · cases he
        exact ⟨rfl, rfl⟩
      · cases he
      · simp at he
  rw [hnil.1, hnil.2]
  exact h

/-! ## Sharing -/

/-- What an operation that keeps the flag right does. -/
structure Keeps (peer : VmId) (s : ShmState) (r : ShmVm × List (Nat × ShareCall) × Int) : Prop where
  inv : FlagInv peer ⟨r.1, memAfter s.mem r.2.1⟩
  live (i : Nat) : ReclaimsLive (s.mem i) (callsOf i r.2.1)

theorem keeps_same (h : FlagInv peer s) (ret : Int) : Keeps peer s (s.vm, [], ret) := ⟨h, fun _ => reclaimsLive_nil _⟩

/-- The buffers are where they were after an operation. -/
theorem isOf_after {vm : ShmVm} (h : ∀ i, (s.mem i).IsOf (s.vm.shmem i))
    (hregion : ∀ i, (vm.shmem i).start = (s.vm.shmem i).start ∧ (vm.shmem i).size = (s.vm.shmem i).size)
    (cs : List (Nat × ShareCall)) (i : Nat) : (memAfter s.mem cs i).IsOf (vm.shmem i) := by
  obtain ⟨hstart, hsize⟩ := calls_isOf (h i) (callsOf i cs)
  exact ⟨hstart.trans (hregion i).1.symm, hsize.trans (hregion i).2.symm⟩

theorem share_keeps {a : BufAnswers} (h : FlagInv peer s) (hdone : s.vm.hypAssignDone = false) :
    Keeps peer s (shareVmBuffers s.vm peer a) := by
  by_cases hvmid : a.vmidRet = 0
  swap
  · rw [shareVmBuffers, if_pos hvmid]
    exact keeps_same h _
  by_cases hfails : ∃ i < s.vm.shmemEntries, ShareAnswers.Fails (a.share i)
  · obtain ⟨k, hk⟩ : ∃ k, FailsAt s.vm peer a k (shareVmBuffers s.vm peer a) := shareVmBuffers_fails hvmid hfails
    generalize shareVmBuffers s.vm peer a = r at hk
    obtain ⟨hlt, hf, -, hflag, hentries, hregion, hcalls⟩ := hk
    obtain ⟨cs, ret, he, -, hcs⟩ := shareAVmBuffer_fails hf a.self peer (s.vm.shmem k)
    rw [hdone] at hflag
    refine ⟨⟨hentries ▸ h.pos, isOf_after h.region hregion _, fun hd => ?_, fun hd => ?_, fun _ => ?_⟩, fun j => ?_⟩
    · rw [hflag] at hd
      cases hd
    · rw [hflag] at hd
      cases hd
    · -- the buffers that are taken back are before the last
      simp only [hentries, memAfter]
      rw [hcalls, if_neg (by omega)]
      split
      · rename_i e
        rw [e, he, ← e]
        exact (hcs.parcels _).trans (h.last hdone)
      · exact h.last hdone
    · rw [hcalls]
      split
      · refine reclaimsLive_append (reclaimsLive_of_noReclaim (noReclaim_sharing _ _ _) _) ?_
        rw [sharing_mem (h.region j)]
        exact reclaimsLive_unshareAVmBuffer _ (List.mem_cons_self ..) _
      split
      · exact reclaimsLive_of_noReclaim (noReclaim_shareAVmBuffer _ _ _) _
      · exact reclaimsLive_nil _
  · have hok : ¬ ShareFails s.vm a := not_or.mpr ⟨not_not.mpr hvmid, hfails⟩
    have hr : Succeeds s.vm peer a (shareVmBuffers s.vm peer a) := shareVmBuffers_succeeds hok
    generalize shareVmBuffers s.vm peer a = r at hr
    obtain ⟨-, hflag, hentries, hcalls, hregion, hshmem⟩ := hr
    have hmem (j : Nat) (hj : j < s.vm.shmemEntries) : memAfter s.mem r.2.1 j =
        { s.mem j with
          owners := dstPerms a.self peer, parcels := (r.1.shmem j).shmMemparcel :: (s.mem j).parcels } := by
      rw [memAfter, hcalls, if_pos hj, sharing_mem (h.region j), hshmem j hj, withParcel]
    have hlast := Nat.sub_lt h.pos Nat.one_pos
    refine ⟨⟨hentries ▸ h.pos, isOf_after h.region hregion _, fun _ i hi => ?_, fun _ => ?_, fun hd => ?_⟩,
      fun j => ?_⟩
    · simp only [hentries] at hi ⊢
      rw [hmem i hi]
      exact ⟨⟨⟨peer, QCOM_SCM_PERM_RW⟩, by simp [dstPerms], rfl⟩, List.mem_cons_self ..⟩
    · simp only [hentries]
      rw [hmem _ hlast, h.last hdone]
    · rw [hflag] at hd
      cases hd
    · rw [hcalls]
      split
      · exact reclaimsLive_of_noReclaim (noReclaim_sharing _ _ _) _
      · exact reclaimsLive_nil _

/-! ## Taking back -/

theorem unshareLoop_ok {self : VmId} {a : BufAnswers} (shmem : Nat → SharedMemory) (i n : Nat)
    (hok : ∀ j, i ≤ j → j < i + n → (a.unshare j).reclaim = 0 ∧ (a.unshare j).assign = 0) :
    (unshareLoop self peer a shmem i n).2 = 0 ∧ ∀ j, callsOf j (unshareLoop self peer a shmem i n).1 =
      if i ≤ j ∧ j < i + n then takingBack self peer (shmem j) else [] := by
  induction n generalizing i with
  | zero => exact ⟨rfl, fun j => by rw [if_neg (by omega)]; rfl⟩
  | succ n ih =>
    obtain ⟨hrec, hassign⟩ := hok i (Nat.le_refl i) (by omega)
    obtain ⟨hret, hcalls⟩ := ih (i + 1) fun j hj hj' => hok j (by omega) (by omega)
    rw [unshareLoop, unshareAVmBuffer_ok hrec hassign]
    refine ⟨hret, fun j => ?_⟩
    simp only [ne_eq, not_true_eq_false, if_false]
    rw [callsOf_append, callsOf_callsFor, hcalls]
    by_cases e : i = j
    · subst e
      rw [if_pos rfl, if_neg (by omega), if_pos (by omega), List.append_nil]
    · rw [if_neg e, List.nil_append]
      exact if_congr (by omega) rfl rfl

theorem unshare_keeps {a : BufAnswers} (h : FlagInv peer s)
    (hclean : s.vm.hypAssignDone = true → CleanUnshare s.vm.shmemEntries a) :
    Keeps peer s (unshareVmBuffers s.vm peer a) := by
  rw [unshareVmBuffers]
  split
  · exact keeps_same h _
  rename_i hdone
  rw [Bool.not_eq_false] at hdone
  split
  · exact keeps_same h _
  rename_i hvmid
  have hlive (j : Nat) (hj : j < s.vm.shmemEntries) (u : UnshareAnswers) :
      ReclaimsLive (s.mem j) (unshareAVmBuffer a.self peer (s.vm.shmem j) u).1 :=
    reclaimsLive_unshareAVmBuffer _ (h.shared hdone j hj).2 _
  rcases hclean hdone with hc | hc | hc
  · exact absurd hc hvmid
  · -- the first memparcel is not reclaimed, and nothing has changed
    obtain ⟨n, hn⟩ : ∃ n, s.vm.shmemEntries = n + 1 := Nat.exists_eq_succ_of_ne_zero (Nat.ne_of_gt h.pos)
    have hloop : unshareLoop a.self peer a s.vm.shmem 0 s.vm.shmemEntries =
        (callsFor 0 [.memReclaim (s.vm.shmem 0).shmMemparcel (a.unshare 0).reclaim], (a.unshare 0).reclaim) := by
      rw [hn, unshareLoop, unshareAVmBuffer, if_pos hc]
      simp only [if_pos hc]
    have hmem : memAfter s.mem (callsFor 0 [.memReclaim (s.vm.shmem 0).shmMemparcel (a.unshare 0).reclaim]) = s.mem := by
      funext j
      rw [memAfter, callsOf_callsFor]
      split
      · exact if_neg hc
      · rfl
    rw [hloop]
    simp only [if_pos hc]
    refine ⟨?_, fun j => ?_⟩
    · rw [hmem]
      exact h
    · rw [callsOf_callsFor]
      split
      · rename_i e
        have hfirst := hlive 0 h.pos (a.unshare 0)
        rw [unshareAVmBuffer, if_pos hc] at hfirst
        exact e ▸ hfirst
      · exact reclaimsLive_nil _
  · obtain ⟨hret, hcalls⟩ : (unshareLoop a.self peer a s.vm.shmem 0 s.vm.shmemEntries).2 = 0 ∧ _ :=
      unshareLoop_ok s.vm.shmem 0 s.vm.shmemEntries fun j _ hj => hc j (by omega)
    have hlast := Nat.sub_lt h.pos Nat.one_pos
    simp only [hret, ne_eq, not_true_eq_false, if_false]
    refine ⟨⟨h.pos, isOf_after h.region (fun _ => ⟨rfl, rfl⟩) _, fun hd => ?_, fun hd => ?_, fun _ => ?_⟩, fun j => ?_⟩
    · cases hd
    · cases hd
    · simp only
      rw [memAfter, hcalls, if_pos (by omega), takingBack_mem (h.region _), h.lastShared hdone]
      simp
    · simp only
      rw [hcalls]
      split
      · obtain ⟨hrec, hassign⟩ := hc j (by omega)
        have hj := hlive j (by omega) (a.unshare j)
        rw [unshareAVmBuffer_ok hrec hassign] at hj
        exact hj
      · exact reclaimsLive_nil _

/-! ## The operations -/

theorem Keeps.append {r u : ShmVm × List (Nat × ShareCall) × Int} (hr : Keeps peer s r)
    (hu : Keeps peer ⟨r.1, memAfter s.mem r.2.1⟩ u) (ret : Int) : Keeps peer s (u.1, r.2.1 ++ u.2.1, ret) where
  inv := by
    simp only [memAfter_append]
    exact hu.inv
  live i := by
    simp only [callsOf_append]
    exact reclaimsLive_append (hr.live i) (hu.live i)

theorem shareVmBuffers_ret (vm : ShmVm) (peer : VmId) (a : BufAnswers) :
    (shareVmBuffers vm peer a).2.2 = 0 ↔ ¬ ShareFails vm a := by
  constructor
  · rintro hret (hvmid | hfails)
    · rw [shareVmBuffers, if_pos hvmid] at hret
      exact hvmid hret
    · by_cases hvmid : a.vmidRet = 0
      · obtain ⟨k, hk⟩ : ∃ k, FailsAt vm peer a k (shareVmBuffers vm peer a) := shareVmBuffers_fails hvmid hfails
        exact hk.ret hret
      · rw [shareVmBuffers, if_pos hvmid] at hret
        exact hvmid hret
  · exact fun hok => (shareVmBuffers_succeeds hok).ret

/-- `gh_virtio_mmio_init`, as far as the buffers are shared. -/
def initShare (vm : ShmVm) (peer : VmId) (a : BufAnswers) : ShmVm × List (Nat × ShareCall) × Int :=
  if vm.hypAssignDone = false then shareVmBuffers vm peer a else (vm, [], 0)

theorem initShare_keeps {a : BufAnswers} (h : FlagInv peer s) : Keeps peer s (initShare s.vm peer a) := by
  unfold initShare
  split
  · rename_i hdone
    exact share_keeps h hdone
  · exact keeps_same h 0

/-- Where it goes on, every buffer is shared. -/
theorem initShare_ret {vm : ShmVm} {a : BufAnswers} (hret : (initShare vm peer a).2.2 = 0) :
    (vm.hypAssignDone = true ∨ ¬ ShareFails vm a) ∧ (initShare vm peer a).1.hypAssignDone = true ∧
      (initShare vm peer a).1.shmemEntries = vm.shmemEntries := by
  unfold initShare at hret ⊢
  split
  · rename_i hdone
    rw [if_pos hdone, shareVmBuffers_ret] at hret
    have hr : Succeeds vm peer a (shareVmBuffers vm peer a) := shareVmBuffers_succeeds hret
    exact ⟨.inr hret, hr.flag, hr.entries⟩
  · rename_i hdone
    rw [Bool.not_eq_false] at hdone
    exact ⟨.inl hdone, hdone, rfl⟩

theorem ghVirtioMmioInit_eq (vm : ShmVm) (peer : VmId) (a : InitAnswers) :
    ghVirtioMmioInit vm peer a =
      if (initShare vm peer a.share).2.2 ≠ 0 then initShare vm peer a.share
      else if a.irq ≠ 0 then
        ((unshareVmBuffers (initShare vm peer a.share).1 peer a.unshare).1, (initShare vm peer a.share).2.1 ++
          (unshareVmBuffers (initShare vm peer a.share).1 peer a.unshare).2.1, a.irq)
      else if a.map = false then
        ((unshareVmBuffers (initShare vm peer a.share).1 peer a.unshare).1, (initShare vm peer a.share).2.1 ++
          (unshareVmBuffers (initShare vm peer a.share).1 peer a.unshare).2.1, -ENOMEM)
      else ((initShare vm peer a.share).1, (initShare vm peer a.share).2.1, 0) := rfl

theorem init_keeps {a : InitAnswers} (h : FlagInv peer s) (hclean : Clean s (.init a)) :
    Keeps peer s (ghVirtioMmioInit s.vm peer a) ∧
      ((ghVirtioMmioInit s.vm peer a).2.2 = 0 → (ghVirtioMmioInit s.vm peer a).1.hypAssignDone = true) := by
  have hshare : Keeps peer s (initShare s.vm peer a.share) := initShare_keeps h
  rw [ghVirtioMmioInit_eq]
  split
  · rename_i hret
    exact ⟨hshare, fun h0 => absurd h0 hret⟩
  rename_i hret
  obtain ⟨hgoes, hdone, hentries⟩ := initShare_ret (not_not.mp hret)
  have hunshare (hu : a.irq ≠ 0 ∨ a.map = false) :
      Keeps peer ⟨(initShare s.vm peer a.share).1, memAfter s.mem (initShare s.vm peer a.share).2.1⟩
        (unshareVmBuffers (initShare s.vm peer a.share).1 peer a.unshare) := by
    refine unshare_keeps hshare.inv fun _ => ?_
    simp only [hentries]
    exact hclean hgoes hu
  split
  · rename_i hirq
    exact ⟨hshare.append (hunshare (.inl hirq)) _, fun h0 => absurd h0 hirq⟩
  split
  · rename_i hmap
    exact ⟨hshare.append (hunshare (.inr hmap)) _, fun h0 => absurd h0 (by decide : (-ENOMEM : Int) ≠ 0)⟩
  · exact ⟨⟨hshare.inv, hshare.live⟩, fun _ => hdone⟩

theorem step_keeps {act : ShmAct} (h : FlagInv peer s) (hs : shmStep peer s act = some t) (hclean : Clean s act) :
    FlagInv peer t ∧ StepReclaimsLive peer s act ∧ InitShares peer s act t := by
  cases hs
  cases act with
  | init a =>
    obtain ⟨hkeeps, hdone⟩ := init_keeps h hclean
    refine ⟨hkeeps.inv, hkeeps.live, fun a' _ hret => ?_⟩
    exact hkeeps.inv.shared (hdone hret)
  | exit a =>
    have hkeeps : Keeps peer s (ghVirtioMmioExit s.vm peer a) := unshare_keeps h hclean
    exact ⟨hkeeps.inv, hkeeps.live, fun a' he => by cases he⟩

/-- A VM that `note_shared_buffers` accepts, before its buffers are shared. -/
theorem flagInv_new {len : Option (BitVec 32)} {alloc : Bool} {nodes : Nat → Option SharedNode} {vm : ShmVm}
    (h : noteSharedBuffers len alloc nodes = .ok vm) (self : VmId) :
    FlagInv peer (.new self vm) := by
  unfold noteSharedBuffers at h
  simp only at h
  split at h
  · cases h
  rename_i hpos
  split at h
  · cases h
  cases hl : noteLoop nodes (fun _ => ⟨0, 0, 0, 0⟩) ((len.getD 0).toNat / 4) with
  | error e =>
    rw [hl] at h
    cases h
  | ok shmem =>
    rw [hl] at h
    cases h
    exact ⟨Nat.pos_of_ne_zero hpos, fun _ => ⟨rfl, rfl⟩, (by cases ·), (by cases ·), fun _ => rfl⟩

/-- In every run of `gh_virtio_mmio_init` and `gh_virtio_mmio_exit` whose
operations take back all buffers or none, `hyp_assign_done` says in every state
whether all buffers are shared, no memparcel is reclaimed that is gone, and
`gh_virtio_mmio_init` succeeds only with every buffer shared. -/
theorem flag_right {len : Option (BitVec 32)} {alloc : Bool} {nodes : Nat → Option SharedNode} {vm : ShmVm}
    (h : noteSharedBuffers len alloc nodes = .ok vm) (self peer : VmId) (as : List ShmAct)
    (hclean : Each (shmStep peer) (fun s act _ => Clean s act) (.new self vm) as) :
    Always (shmStep peer) (FlagRight peer) (.new self vm) as ∧
      Each (shmStep peer) (fun s act t => StepReclaimsLive peer s act ∧ InitShares peer s act t) (.new self vm) as := by
  have h₀ : FlagInv peer (.new self vm) := flagInv_new h self
  constructor
  · intro bs cs t he hexec
    exact (inv_each (fun s act t hi hs hc => (step_keeps hi hs hc).1) h₀ hclean bs cs t he hexec).flagRight
  · exact each_of_inv (fun s act t hi hs hc => (step_keeps hi hs hc).1)
      (fun s act t hi hs hc => (step_keeps hi hs hc).2) h₀ hclean

/-! ## The operation on a device -/

theorem unshareVmBuffers_flag (vm : ShmVm) (peer : VmId) (a : BufAnswers) :
    (unshareVmBuffers vm peer a).1.hypAssignDone = (vm.hypAssignDone && (unshareVmBuffers vm peer a).2.2 != 0) := by
  unfold unshareVmBuffers
  split
  · rename_i hdone
    simp [hdone]
  split
  · rename_i hvmid
    simp [hvmid]
  simp only
  split
  · rename_i hret
    simp [hret]
  · simp

theorem shareVmBuffers_flag (vm : ShmVm) (peer : VmId) (a : BufAnswers) :
    (shareVmBuffers vm peer a).1.hypAssignDone = (vm.hypAssignDone || (shareVmBuffers vm peer a).2.2 == 0) := by
  unfold shareVmBuffers
  split
  · rename_i hvmid
    simp [hvmid]
  simp only
  split
  · rename_i hret
    simp [hret]
  · simp

/-- `mmioInitBody`, which is given what the functions on the buffers return,
agrees with `ghVirtioMmioInit`. -/
theorem mmioInitBody_agrees {vm : ShmVm} {b : Virtio.VirtMachine} {m : Virtio.MmioInit} {a : InitAnswers}
    (d : Virtio.VbDev) (hdone : b.hypAssignDone = vm.hypAssignDone)
    (hshare : m.share = (shareVmBuffers vm peer a.share).2.2) (hirq : m.irq = a.irq) (hmap : m.map = a.map)
    (hunshare : m.unshare = (unshareVmBuffers (initShare vm peer a.share).1 peer a.unshare).2.2) :
    (Virtio.mmioInitBody b d m).1.hypAssignDone = (ghVirtioMmioInit vm peer a).1.hypAssignDone ∧
      (Virtio.mmioInitBody b d m).2.2 = (ghVirtioMmioInit vm peer a).2.2 := by
  have hback (b : Virtio.VirtMachine) (hb : b.hypAssignDone = true) :
      (Virtio.unshareVmBuffers b m.unshare).hypAssignDone =
        (unshareVmBuffers (initShare vm peer a.share).1 peer a.unshare).1.hypAssignDone ∨
      (initShare vm peer a.share).1.hypAssignDone = false := by
    cases hi : (initShare vm peer a.share).1.hypAssignDone with
    | false => exact .inr rfl
    | true =>
      refine .inl ?_
      rw [unshareVmBuffers_flag, hi, ← hunshare, Virtio.unshareVmBuffers, if_neg (by simp [hb])]
      split
      · rename_i hret
        simp [hb, hret]
      · rename_i hret
        rw [not_not] at hret
        simp [hret]
  have hfail : (vm.hypAssignDone = false ∧ m.share ≠ 0) ↔ (initShare vm peer a.share).2.2 ≠ 0 := by
    unfold initShare
    split
    · rename_i h
      rw [hshare]
      exact and_iff_right h
    · rename_i h
      exact iff_of_false (fun hc => h hc.1) (fun hc => hc rfl)
  rw [ghVirtioMmioInit_eq, Virtio.mmioInitBody, hdone]
  by_cases hret : (initShare vm peer a.share).2.2 ≠ 0
  · have hb := hfail.mpr hret
    rw [if_pos hb, if_pos hret, initShare, if_pos hb.1, shareVmBuffers_flag, ← hshare]
    refine ⟨?_, rfl⟩
    simp [hdone, hb.1, hb.2]
  · rw [if_neg (fun hc => hret (hfail.mp hc)), if_neg hret]
    have hi := (initShare_ret (not_not.mp hret)).2.1
    have hflag := (hback { b with hypAssignDone := true } rfl).resolve_right (by simp [hi])
    simp only [hirq, hmap]
    split
    · exact ⟨hflag, rfl⟩
    split
    · exact ⟨hflag, rfl⟩
    · exact ⟨hi.symm, rfl⟩

/-! ## Two buffers -/

/-- Buffers of a page each, with the labels 1 and 2. -/
def twoNodes (i : Nat) : Option SharedNode :=
  some ⟨some (0x80000000 + 0x1000 * BitVec.ofNat 64 i, 0x1000), some (BitVec.ofNat 32 (i + 1))⟩

/-- The answers where nothing fails but the reclaim of the memparcels `bad`. -/
def reclaimFails (bad : Nat → Bool) : BufAnswers where
  self := 3
  share i := { handle := BitVec.ofNat 32 (i + 7) }
  unshare i := { reclaim := if bad i then -EINVAL else 0 }

/-- Nothing fails. -/
def allSucceed : BufAnswers := reclaimFails fun _ => false

theorem flag_right_twoNodes : ∃ vm, noteSharedBuffers (some 8) true twoNodes = .ok vm ∧
    Always (shmStep 45) (FlagRight 45) (.new 3 vm)
      [.init { share := allSucceed, unshare := allSucceed }, .exit (reclaimFails (· = 0)), .exit allSucceed] := by
  obtain ⟨vm, hvm⟩ : ∃ vm, noteSharedBuffers (some 8) true twoNodes = .ok vm := ⟨_, rfl⟩
  refine ⟨vm, hvm, (flag_right hvm 3 45 _ ?_).1⟩
  refine each_cons.mpr fun s _ => ⟨fun _ h => absurd h (by decide), ?_⟩
  refine each_cons.mpr fun s _ => ⟨fun _ => .inr (.inl (by decide)), ?_⟩
  exact each_cons.mpr fun s _ => ⟨fun _ => .inr (.inr fun _ _ => ⟨rfl, rfl⟩), each_nil _ _⟩

/-- The second memparcel cannot be reclaimed: the flag stays set, the first buffer
is not shared, and the next `gh_virtio_mmio_exit` reclaims its memparcel again. -/
theorem second_reclaimed : ∃ vm s, noteSharedBuffers (some 8) true twoNodes = .ok vm ∧
    exec (shmStep 45) (.new 3 vm)
      [.init { share := allSucceed, unshare := allSucceed }, .exit (reclaimFails (· = 1))] = some s ∧
    s.vm.hypAssignDone = true ∧ ¬ FlagRight 45 s ∧ ¬ StepReclaimsLive 45 s (.exit allSucceed) := by
  obtain ⟨vm, hvm⟩ : ∃ vm, noteSharedBuffers (some 8) true twoNodes = .ok vm := ⟨_, rfl⟩
  refine ⟨vm, _, hvm, rfl, ?_⟩
  cases hvm
  refine ⟨by decide, fun h => ?_, fun h => ?_⟩
  · have hfirst := (h.mp (by decide) 0 (by decide)).2
    exact absurd hfirst (by decide)
  · have hfirst := h 0 [] 7 0 [.assignMem 0x80000000 0x1000 (bit 3 ||| bit 45) [⟨3, QCOM_SCM_PERM_RWX⟩] 0] (by decide)
    exact absurd hfirst (by decide)

end GH.Proof.Share
