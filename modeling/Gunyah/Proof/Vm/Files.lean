import Mathlib.Algebra.Order.BigOperators.Group.Finset
import Mathlib.Tactic.Common
import Gunyah.Spec.Vm.Files
import Gunyah.Framework.Cells
import Gunyah.Framework.Lock
import Gunyah.Framework.Refs
import Gunyah.Framework.Run

/-!
# The files of a VM

The file of the VM and each open file of a vCPU have a reference to the VM, but
`gh_vm_ioctl_create_vcpu` installs the fd of a vCPU before it takes the
reference for it. In between there is one reference too few, and if all others
are put, the VM is destroyed with its fd open. The VM outlives its files exactly
in the runs without such a close (`outlives_files_iff`).
-/

namespace GH.Proof.Vm

open GH.Impl GH.Impl.Main GH.Spec.Vm

/-! ## Open files -/

/-- An open fd holds one reference. -/
def isOpen (fd : Fd) : Nat := if fd = .opened then 1 else 0

/-- The number of open files of vCPUs. -/
def openFds (fds : Fin GH_MAX_VCPUS → Fd) : Nat := ∑ id, isOpen (fds id)

theorem openFds_update (fds : Fin GH_MAX_VCPUS → Fd) (id : Fin GH_MAX_VCPUS) (fd : Fd) :
    openFds (Function.update fds id fd) + isOpen (fds id) = openFds fds + isOpen fd :=
  Cells.sum_update_add (fun _ fd => isOpen fd) fds id fd

theorem openFds_eq_zero {fds : Fin GH_MAX_VCPUS → Fd} : openFds fds = 0 ↔ ∀ id, fds id ≠ .opened := by
  simp [openFds, isOpen]

theorem openFds_le (fds : Fin GH_MAX_VCPUS → Fd) : openFds fds ≤ 8 := by
  have h : ∀ id, isOpen (fds id) ≤ 1 := by
    intro id
    unfold isOpen
    split <;> omega
  calc openFds fds ≤ ∑ _id : Fin GH_MAX_VCPUS, 1 := Finset.sum_le_sum fun id _ => h id
    _ = 8 := by simp

theorem openFds_pos {fds : Fin GH_MAX_VCPUS → Fd} {id : Fin GH_MAX_VCPUS} (h : fds id = .opened) : 0 < openFds fds := by
  rw [Nat.pos_iff_ne_zero, Ne, openFds_eq_zero]
  exact fun hn => hn id h

/-! ## The count -/

theorem msb_small {r : BitVec 32} (h : r.toNat < 2 ^ 31) : r.msb = false := by
  rw [BitVec.msb_eq_decide]
  exact decide_eq_false (by omega)

theorem getVm_toNat {r : BitVec 32} (h0 : r ≠ 0) (hlt : r.toNat < 100) : (ghGetVm r).toNat = r.toNat + 1 := by
  have hsucc : (r + 1).toNat = r.toNat + 1 := Refs.toNat_succ (BitVec.lt_def.mpr (by rw [BitVec.toNat_allOnes]; omega))
  have hno : ¬ (r = 0 ∨ r.msb = true ∨ (r + 1).msb = true) := by
    rw [msb_small (by omega), msb_small (by omega)]
    rintro (h | h | h)
    · exact h0 h
    · cases h
    · cases h
  rw [ghGetVm, refcountInc, if_neg hno, hsucc]

theorem putVm_other {r : BitVec 32} (h0 : r ≠ 0) (h1 : r ≠ 1) (hlt : r.toNat < 100) : ghPutVm r = (r - 1, false) := by
  have hpred : (r - 1).toNat = r.toNat - 1 := Refs.toNat_pred (Nat.pos_of_ne_zero fun h => h0 (BitVec.eq_of_toNat_eq h))
  have hno : ¬ (r.msb = true ∨ (r - 1).msb = true) := by
    rw [msb_small (by omega), msb_small (by omega)]
    simp
  rw [ghPutVm, refcountDecAndTest, if_neg h1, if_neg hno]

/-! ## What every state has -/

/-- The vCPU that is being entered into the VM, from when its fd is installed. -/
def entering : CreatePc → Option (Fin GH_MAX_VCPUS)
  | .get id | .enter id => some id
  | _ => none

/-- What does not depend on the references. -/
structure FileShape (s : FileState) : Prop where
  held : ∀ k, (s.creates k).locked = true ↔ s.lock = some k
  /-- A vCPU that is not in the VM has no fd, unless it is being entered. -/
  absent : ∀ id, s.vcpus id = false → s.fds id = .absent ∨ (s.lock.bind fun k => entering (s.creates k)) = some id
  fresh : ∀ k id, s.creates k = .install id → s.vcpus id = false
  /-- The file of the VM is used by its fd and the ioctls. -/
  uses : ∃ ks : Finset Nat, (∀ k, k ∈ ks ↔ s.creates k ≠ .idle) ∧ s.fCount = ks.card + if s.vmFd then 1 else 0

/-- `users_count` is the number of the files that are open, and the VM is destroyed once it is 0. -/
structure FileInv (s : FileState) : Prop extends FileShape s where
  count : s.usersCount.toNat + (if s.untaken = none then 0 else 1) = (if s.fCount = 0 then 0 else 1) + openFds s.fds
  destroyed : s.destroyed = if s.usersCount = 0 then 1 else 0
  /-- The VM is there while its file is in use. -/
  alive : s.fCount ≠ 0 → s.usersCount ≠ 0

theorem FileInv.init : FileInv .init where
  held k := by simp [FileState.init, CreatePc.locked]
  absent id _ := .inl rfl
  fresh k id h := by cases h
  uses := ⟨∅, by simp [FileState.init]⟩
  count := by decide
  destroyed := rfl
  alive _ := by decide

variable {s t : FileState}

theorem FileShape.idle (h : FileShape s) (h0 : s.fCount = 0) : s.vmFd = false ∧ ∀ k, s.creates k = .idle := by
  obtain ⟨ks, hks, hcount⟩ := h.uses
  rw [h0] at hcount
  have hfd : s.vmFd = false := by
    cases hfd : s.vmFd with
    | false => rfl
    | true => simp [hfd] at hcount
  have hempty : ks = ∅ := Finset.card_eq_zero.mp (by omega)
  refine ⟨hfd, fun k => ?_⟩
  by_contra hk
  have := (hks k).mpr hk
  rw [hempty] at this
  cases this

/-- A thread that is in the ioctl uses the file. -/
theorem FileShape.fCount_pos (h : FileShape s) {k : Nat} (hk : s.creates k ≠ .idle) : s.fCount ≠ 0 :=
  fun h0 => hk ((h.idle h0).2 k)

theorem FileShape.untaken_none (h : FileShape s) (h0 : s.fCount = 0) : s.untaken = none := by
  have hl : s.lock = none := by
    rw [Option.eq_none_iff_forall_ne_some]
    intro k hk
    have := (h.held k).mpr hk
    rw [(h.idle h0).2 k] at this
    cases this
  rw [FileState.untaken, hl]
  rfl

theorem FileInv.outlives (h : FileInv s) : OutlivesFiles s where
  once := by
    rw [h.destroyed]
    split <;> omega
  last hd := by
    have hu : s.usersCount = 0 := by
      by_contra hu
      rw [h.destroyed, if_neg hu] at hd
      exact hd rfl
    have h0 : s.fCount = 0 := not_not.mp fun h0 => h.alive h0 hu
    have hc := h.count
    rw [hu, h.untaken_none h0, h0] at hc
    exact ⟨(h.idle h0).1, openFds_eq_zero.mp (by simpa using hc.symm), (h.idle h0).2⟩

/-! ## The last reference -/

/-- The VM after a `gh_put_vm`, where there was a reference. -/
theorem put_eq (h0 : s.usersCount ≠ 0) (hlt : s.usersCount.toNat < 100) :
    s.put = { s with
      usersCount := s.usersCount - 1
      destroyed := if s.usersCount = 1 then s.destroyed + 1 else s.destroyed } := by
  by_cases h1 : s.usersCount = 1
  · rw [FileState.put, h1]
    rfl
  · rw [FileState.put, putVm_other h0 h1 hlt, if_neg h1]
    rfl

/-- A `gh_put_vm` of a reference that is one too many. -/
theorem FileShape.put (h : FileShape s) (hd : s.destroyed = 0) (h0 : s.usersCount ≠ 0)
    (hcount : s.usersCount.toNat + (if s.untaken = none then 0 else 1) =
      (if s.fCount = 0 then 0 else 1) + openFds s.fds + 1)
    (hlast : s.usersCount = 1 → s.fCount = 0) : FileInv s.put := by
  have hopen := openFds_le s.fds
  have hpos : 0 < s.usersCount.toNat := Nat.pos_of_ne_zero fun h => h0 (BitVec.eq_of_toNat_eq h)
  have hlt : s.usersCount.toNat < 100 := by
    have : (if s.fCount = 0 then 0 else 1) ≤ 1 := by split <;> omega
    omega
  have hzero : s.usersCount - 1 = 0 ↔ s.usersCount = 1 := by
    rw [sub_eq_zero]
  rw [put_eq h0 hlt]
  exact {
    held := h.held
    absent := h.absent
    fresh := h.fresh
    uses := h.uses
    count := by
      have hc : (s.usersCount - 1).toNat + (if s.untaken = none then 0 else 1) =
          (if s.fCount = 0 then 0 else 1) + openFds s.fds := by
        rw [Refs.toNat_pred hpos]
        omega
      exact hc
    destroyed := by
      rw [hd]
      exact if_congr hzero.symm rfl rfl
    alive := fun hf hu => hf (hlast (hzero.mp hu)) }

theorem FileInv.destroyed_zero (h : FileInv s) (h0 : s.usersCount ≠ 0) : s.destroyed = 0 := by
  rw [h.destroyed, if_neg h0]

/-- The file of the VM is used by one less. -/
theorem FileShape.fput (h : FileShape { s with fCount := s.fCount - 1 }) (hd : s.destroyed = 0) (h0 : s.usersCount ≠ 0)
    (hcount : s.usersCount.toNat + (if s.untaken = none then 0 else 1) = 1 + openFds s.fds) : FileInv s.fput := by
  rw [FileState.fput]
  by_cases hf : s.fCount - 1 = 0
  · have hn := h.untaken_none hf
    have hc : s.usersCount.toNat + (if s.untaken = none then 0 else 1) =
        (if s.fCount - 1 = 0 then 0 else 1) + openFds s.fds + 1 := by
      rw [if_pos hf]
      omega
    simp only [if_pos hf]
    exact h.put hd h0 hc fun _ => hf
  · simp only [if_neg hf]
    exact {
      held := h.held
      absent := h.absent
      fresh := h.fresh
      uses := h.uses
      count := hcount.trans (by rw [if_neg hf])
      destroyed := hd.trans (if_neg h0).symm
      alive := fun _ => h0 }

/-! ## Threads in the ioctl -/

section Threads

variable {k : Nat} {pc : CreatePc}

/-- The holder of `vm_lock` is where it was, if another thread moves. -/
theorem holder_update {lock : Option Nat} (creates : Nat → CreatePc) (pc : CreatePc) (h : lock ≠ some k) {j : Nat}
    (hj : lock = some j) : Function.update creates k pc j = creates j :=
  Function.update_of_ne (fun e : j = k => h (e ▸ hj)) _ _

theorem entering_update {lock : Option Nat} (creates : Nat → CreatePc) (pc : CreatePc) (h : lock ≠ some k) :
    (lock.bind fun j => entering (Function.update creates k pc j)) = lock.bind fun j => entering (creates j) :=
  Option.bind_congr fun _ hj => by rw [holder_update creates pc h hj]

theorem untaken_update (pc : CreatePc) (h : s.lock ≠ some k) :
    { s with creates := Function.update s.creates k pc }.untaken = s.untaken :=
  Option.bind_congr fun _ hj => by simp only [holder_update s.creates pc h hj]

theorem FileShape.vmLock (h : FileShape s) : Lock.Held id CreatePc.locked s.lock s.creates := h.held

/-- The users of the file, where a thread enters the ioctl. -/
theorem uses_enter {ks : Finset Nat} {creates : Nat → CreatePc} (h : ∀ j, j ∈ ks ↔ creates j ≠ .idle)
    (hk : creates k = .idle) (pc : CreatePc) (hpc : pc ≠ .idle) :
    ∃ ks' : Finset Nat, (∀ j, j ∈ ks' ↔ Function.update creates k pc j ≠ .idle) ∧ ks'.card = ks.card + 1 := by
  have hno : k ∉ ks := fun hmem => (h k).mp hmem hk
  refine ⟨insert k ks, (Function.forall_update_iff creates fun j pc => j ∈ insert k ks ↔ pc ≠ .idle).mpr
    ⟨by simp [hpc], fun j hj => ?_⟩, Finset.card_insert_of_notMem hno⟩
  rw [Finset.mem_insert, or_iff_right hj]
  exact h j

/-- The users of the file, where a thread leaves the ioctl. -/
theorem uses_leave {ks : Finset Nat} {creates : Nat → CreatePc} (h : ∀ j, j ∈ ks ↔ creates j ≠ .idle)
    (hk : creates k ≠ .idle) :
    ∃ ks' : Finset Nat, (∀ j, j ∈ ks' ↔ Function.update creates k .idle j ≠ .idle) ∧ ks'.card = ks.card - 1 := by
  refine ⟨ks.erase k, (Function.forall_update_iff creates fun j pc => j ∈ ks.erase k ↔ pc ≠ .idle).mpr
    ⟨by simp, fun j hj => ?_⟩, Finset.card_erase_of_mem ((h k).mpr hk)⟩
  rw [Finset.mem_erase, and_iff_right hj]
  exact h j

/-- The users of the file, where a thread goes on in the ioctl. -/
theorem uses_move {ks : Finset Nat} {creates : Nat → CreatePc} (h : ∀ j, j ∈ ks ↔ creates j ≠ .idle)
    (hk : creates k ≠ .idle) (hpc : pc ≠ .idle) : ∀ j, j ∈ ks ↔ Function.update creates k pc j ≠ .idle :=
  (Function.forall_update_iff creates fun j pc => j ∈ ks ↔ pc ≠ .idle).mpr
    ⟨iff_of_true ((h k).mpr hk) hpc, fun j _ => h j⟩

end Threads

/-! ## Steps -/

theorem FileInv.create (h : FileInv s) {k : Nat} (hfd : s.vmFd = true) (hk : s.creates k = .idle)
    (id : Fin GH_MAX_VCPUS) :
    FileInv { s with fCount := s.fCount + 1, creates := Function.update s.creates k (.lock id) } := by
  have hf : s.fCount ≠ 0 := by
    intro h0
    rw [(h.idle h0).1] at hfd
    cases hfd
  have hl : s.lock ≠ some k := h.vmLock.of_unlocked (by rw [hk]; rfl)
  have hut := untaken_update (.lock id) hl
  obtain ⟨ks, hks, hcount⟩ := h.uses
  obtain ⟨ks', hks', hcard⟩ := uses_enter hks hk (.lock id) nofun
  exact {
    held := h.vmLock.move (by rw [hk]; rfl)
    absent := fun id' hid => by
      rw [entering_update s.creates _ hl]
      exact h.absent id' hid
    fresh := (Function.forall_update_iff s.creates fun _ pc => ∀ id, pc = .install id → s.vcpus id = false).mpr
      ⟨nofun, fun j _ => h.fresh j⟩
    uses := ⟨ks', hks', by simp only [hcount, hcard]; omega⟩
    count := by
      have hc := h.count
      rw [if_neg hf] at hc
      rw [FileState.untaken] at hut ⊢
      simpa [hut] using hc
    destroyed := h.destroyed
    alive := fun _ => h.alive hf }

/-- A thread leaves the ioctl, and nobody holds `vm_lock`. -/
theorem FileShape.leave (h : FileShape s) {k : Nat} (hk : s.creates k ≠ .idle) (hl : s.lock = none ∨ s.lock = some k)
    {lock : Option Nat} (hlock : lock = none) {vcpus : Fin GH_MAX_VCPUS → Bool}
    (habsent : ∀ id, vcpus id = false → s.fds id = .absent) :
    FileShape { s with
      lock := lock, vcpus := vcpus, creates := Function.update s.creates k .idle, fCount := s.fCount - 1 } := by
  have hheld : Lock.Held id CreatePc.locked none (Function.update s.creates k .idle) := by
    rcases hl with hl | hl
    · have hk' := h.vmLock.unlocked (by simp [hl]) k
      exact hl ▸ h.vmLock.move hk'.symm
    · exact h.vmLock.release Function.injective_id hl rfl
  obtain ⟨ks, hks, hcount⟩ := h.uses
  obtain ⟨ks', hks', hcard⟩ := uses_leave hks hk
  have hpos : 0 < ks.card := Finset.card_pos.mpr ⟨k, (hks k).mpr hk⟩
  exact {
    held := hlock ▸ hheld
    absent := fun id hid => .inl (habsent id hid)
    fresh := by
      intro j id (hid : Function.update s.creates k .idle j = .install id)
      have := hheld.unlocked nofun j
      rw [hid] at this
      cases this
    uses := ⟨ks', hks', by simp only [hcount, hcard]; omega⟩ }

/-- A vCPU that is not in the VM has no fd, where nobody holds `vm_lock`. -/
theorem FileShape.absent_of_free (h : FileShape s) (hl : s.lock = none) (id : Fin GH_MAX_VCPUS)
    (hid : s.vcpus id = false) : s.fds id = .absent := by
  have := h.absent id hid
  rw [hl] at this
  exact this.resolve_right nofun

theorem FileInv.refused (h : FileInv s) {k : Nat} {id : Fin GH_MAX_VCPUS} (hk : s.creates k = .lock id)
    (hl : s.lock = none) : FileInv (s.ret k) := by
  have hne : s.creates k ≠ .idle := by simp [hk]
  have hf := h.fCount_pos hne
  have h0 := h.alive hf
  have hut : { s with creates := Function.update s.creates k .idle }.untaken = s.untaken :=
    untaken_update .idle (by simp [hl])
  have hc := h.count
  rw [if_neg hf, ← hut] at hc
  exact FileShape.fput (h.leave hne (.inl hl) hl fun id hid => h.absent_of_free hl id hid) (h.destroyed_zero h0) h0 hc

theorem FileInv.takes (h : FileInv s) {k : Nat} {id : Fin GH_MAX_VCPUS} (hk : s.creates k = .lock id)
    (hl : s.lock = none) (hid : s.vcpus id = false) :
    FileInv { s with lock := some k, creates := Function.update s.creates k (.install id) } := by
  have hne : s.creates k ≠ .idle := by simp [hk]
  obtain ⟨ks, hks, hcount⟩ := h.uses
  exact {
    held := h.vmLock.take Function.injective_id hl rfl
    absent := fun id' hid' => .inl (h.absent_of_free hl id' hid')
    fresh := by
      refine (Function.forall_update_iff s.creates fun _ pc => ∀ id, pc = .install id → s.vcpus id = false).mpr
        ⟨fun id' e => ?_, fun j _ => h.fresh j⟩
      cases e
      exact hid
    uses := ⟨ks, uses_move hks hne nofun, hcount⟩
    count := by
      have hc := h.count
      have hn : s.untaken = none := by rw [FileState.untaken, hl]; rfl
      rw [hn] at hc
      simpa [FileState.untaken] using hc
    destroyed := h.destroyed
    alive := h.alive }

/-- The holder of `vm_lock` goes on to enter its vCPU. -/
theorem FileShape.goOn (h : FileShape s) {k : Nat} (hl : s.lock = some k) (pc : CreatePc) {id : Fin GH_MAX_VCPUS}
    (hpc : entering pc = some id) (fds : Fin GH_MAX_VCPUS → Fd)
    (habsent : ∀ id', s.vcpus id' = false → id' ≠ id → fds id' = .absent) :
    FileShape { s with fds := fds, creates := Function.update s.creates k pc } := by
  have hlocked : pc.locked = true ∧ pc ≠ .idle ∧ ∀ id, pc ≠ .install id := by
    cases pc with
    | get id => exact ⟨rfl, nofun, nofun⟩
    | enter id => exact ⟨rfl, nofun, nofun⟩
    | _ => cases hpc
  have hk : (s.creates k).locked = true := (h.held k).mpr hl
  have hne : s.creates k ≠ .idle := by
    intro hidle
    rw [hidle] at hk
    cases hk
  obtain ⟨ks, hks, hcount⟩ := h.uses
  exact {
    held := h.vmLock.move (hlocked.1.trans hk.symm)
    absent := fun id' hid => by
      by_cases he : id' = id
      · right
        simp [hl, he, hpc]
      · exact .inl (habsent id' hid he)
    fresh := (Function.forall_update_iff s.creates fun _ pc => ∀ id, pc = .install id → s.vcpus id = false).mpr
      ⟨fun id e => absurd e (hlocked.2.2 id), fun j _ => h.fresh j⟩
    uses := ⟨ks, uses_move hks hne hlocked.2.1, hcount⟩ }

/-- The holder of `vm_lock`, and whether it has still to take the reference. -/
theorem FileShape.holder (h : FileShape s) {k : Nat} (hk : (s.creates k).locked = true) :
    s.lock = some k ∧ (s.untaken = none ↔ ∀ id, s.creates k ≠ .get id) ∧
      (s.lock.bind fun k => entering (s.creates k)) = entering (s.creates k) := by
  have hl := (h.held k).mp hk
  refine ⟨hl, ?_, by rw [hl]; rfl⟩
  rw [FileState.untaken, hl]
  cases hpc : s.creates k <;> simp [hpc]

theorem FileInv.install (h : FileInv s) {k : Nat} {id : Fin GH_MAX_VCPUS} (hk : s.creates k = .install id) :
    FileInv { s with fds := Function.update s.fds id .opened, creates := Function.update s.creates k (.get id) } := by
  obtain ⟨hl, hut, hent⟩ := h.holder (k := k) (by rw [hk]; rfl)
  have habsent : ∀ id', s.vcpus id' = false → s.fds id' = .absent := by
    intro id' hid
    have := h.absent id' hid
    rw [hent, hk] at this
    exact this.resolve_right nofun
  have hshape := h.goOn hl (.get id) rfl (Function.update s.fds id .opened)
    fun id' hid hne => by rw [Function.update_of_ne hne]; exact habsent id' hid
  have hc := h.count
  rw [if_pos (hut.mpr fun id' => by simp [hk])] at hc
  have hopen := openFds_update s.fds id .opened
  rw [habsent id (h.fresh k id hk)] at hopen
  exact { hshape with
    count := by
      simp only [FileState.untaken, hl, Option.bind_some, Function.update_self]
      simp only [isOpen, reduceCtorEq, if_false, if_true] at hopen ⊢
      omega
    destroyed := h.destroyed
    alive := h.alive }

theorem FileInv.get (h : FileInv s) {k : Nat} {id : Fin GH_MAX_VCPUS} (hk : s.creates k = .get id) :
    FileInv { s with usersCount := ghGetVm s.usersCount, creates := Function.update s.creates k (.enter id) } := by
  obtain ⟨hl, hut, hent⟩ := h.holder (k := k) (by rw [hk]; rfl)
  have hf := h.fCount_pos (k := k) (by simp [hk])
  have h0 := h.alive hf
  have hshape := h.goOn hl (.enter id) rfl s.fds fun id' hid hne => by
    have := h.absent id' hid
    rw [hent, hk] at this
    exact this.resolve_right fun e => hne (Option.some.inj e).symm
  have hc := h.count
  rw [if_neg fun hn => hut.mp hn id hk, if_neg hf] at hc
  have hlt : s.usersCount.toNat < 100 := by
    have := openFds_le s.fds
    omega
  have hget := getVm_toNat h0 hlt
  have hne : ghGetVm s.usersCount ≠ 0 := by
    intro he
    rw [he] at hget
    simp at hget
  exact {
    held := hshape.held
    absent := hshape.absent
    fresh := hshape.fresh
    uses := hshape.uses
    count := by
      simp only [FileState.untaken, hl, Option.bind_some, Function.update_self, if_true, if_neg hf]
      omega
    destroyed := by
      rw [if_neg hne]
      exact h.destroyed_zero h0
    alive := fun _ => hne }

theorem FileInv.enter (h : FileInv s) {k : Nat} {id : Fin GH_MAX_VCPUS} (hk : s.creates k = .enter id) :
    FileInv ({ s with vcpus := Function.update s.vcpus id true, lock := none }.ret k) := by
  obtain ⟨hl, hut, hent⟩ := h.holder (k := k) (by rw [hk]; rfl)
  have hne : s.creates k ≠ .idle := by simp [hk]
  have hf := h.fCount_pos hne
  have h0 := h.alive hf
  have hc := h.count
  rw [if_pos (hut.mpr fun id' => by simp [hk]), if_neg hf] at hc
  have habsent : ∀ id', Function.update s.vcpus id true id' = false → s.fds id' = .absent := by
    intro id' hid
    by_cases he : id' = id
    · rw [he, Function.update_self] at hid
      cases hid
    · rw [Function.update_of_ne he] at hid
      have := h.absent id' hid
      rw [hent, hk] at this
      exact this.resolve_right fun e => he (Option.some.inj e).symm
  exact FileShape.fput (h.leave hne (.inr hl) rfl habsent) (h.destroyed_zero h0) h0 hc

theorem FileInv.closeVm (h : FileInv s) (hfd : s.vmFd = true) : FileInv { s with vmFd := false }.fput := by
  obtain ⟨ks, hks, hcount⟩ := h.uses
  rw [hfd] at hcount
  have hf : s.fCount ≠ 0 := by
    rw [hcount]
    simp
  have h0 := h.alive hf
  have hc := h.count
  rw [if_neg hf] at hc
  have hshape : FileShape { s with vmFd := false, fCount := s.fCount - 1 } := {
    held := h.held
    absent := h.absent
    fresh := h.fresh
    uses := ⟨ks, hks, by simp [hcount]⟩ }
  exact FileShape.fput hshape (h.destroyed_zero h0) h0 hc

/-- The fd of a vCPU is closed. -/
theorem FileInv.closeVcpu (h : FileInv s) {id : Fin GH_MAX_VCPUS} (hid : s.fds id = .opened)
    (hc : ¬ (s.usersCount = 1 ∧ s.untaken ≠ none)) :
    FileInv { s with fds := Function.update s.fds id .closed }.put := by
  have hopen := openFds_update s.fds id .closed
  rw [hid] at hopen
  simp only [isOpen, reduceCtorEq, if_false, if_true] at hopen
  have hcount := h.count
  have hpos := openFds_pos hid
  have h0 : s.usersCount ≠ 0 := by
    by_cases hf : s.fCount = 0
    · intro hu
      rw [hu, h.untaken_none hf, if_pos rfl] at hcount
      simp at hcount
      omega
    · exact h.alive hf
  have hshape : FileShape { s with fds := Function.update s.fds id .closed } := {
    held := h.held
    absent := fun id' hid' => by
      refine (h.absent id' hid').imp_left fun ha => ?_
      have hne : id' ≠ id := by
        rintro rfl
        rw [hid] at ha
        cases ha
      exact (Function.update_of_ne hne _ _).trans ha
    fresh := h.fresh
    uses := h.uses }
  have hcount' : s.usersCount.toNat + (if s.untaken = none then 0 else 1) =
      (if s.fCount = 0 then 0 else 1) + openFds (Function.update s.fds id .closed) + 1 := by
    omega
  refine hshape.put (h.destroyed_zero h0) h0 hcount' fun h1 => ?_
  -- the last reference was that of this fd
  have hut : s.untaken = none := not_not.mp fun hut => hc ⟨h1, hut⟩
  have hone : s.usersCount.toNat = 1 := by rw [h1]; rfl
  rw [hut, if_pos rfl] at hcount
  by_contra hf
  rw [if_neg hf] at hcount
  omega

theorem createVcpu_ok {vcpus : Fin GH_MAX_VCPUS → Bool} {id : Fin GH_MAX_VCPUS} {env : CreateEnv}
    (h : ghVmIoctlCreateVcpu vcpus id env = .ok ()) : vcpus id = false := by
  unfold ghVmIoctlCreateVcpu at h
  split at h
  · cases h
  · rename_i hv
    rwa [Bool.not_eq_true] at hv

theorem FileInv.step {act : FileAct} (h : FileInv s) (hst : fileStep s act = some t) (hc : ClosesLate s act t) :
    FileInv t := by
  cases act with
  | create k id =>
    simp only [fileStep, Option.ite_none_right_eq_some] at hst
    obtain ⟨⟨hfd, hk⟩, hst⟩ := hst
    split at hst
    · cases hst
      exact h.create hfd hk _
    · cases hst
      exact h
  | step k env =>
    simp only [fileStep] at hst
    split at hst
    · cases hst
    · rename_i id hk
      simp only [Option.ite_none_right_eq_some] at hst
      obtain ⟨hl, hst⟩ := hst
      split at hst
      · cases hst
        exact h.refused hk hl
      · rename_i hok
        cases hst
        exact h.takes hk hl (createVcpu_ok hok)
    · rename_i id hk
      cases hst
      exact h.install hk
    · rename_i id hk
      cases hst
      exact h.get hk
    · rename_i id hk
      cases hst
      exact h.enter hk
  | closeVm =>
    simp only [fileStep, Option.ite_none_right_eq_some, Option.some.injEq] at hst
    obtain ⟨hfd, rfl⟩ := hst
    exact h.closeVm hfd
  | closeVcpu id =>
    simp only [fileStep, Option.ite_none_right_eq_some, Option.some.injEq] at hst
    obtain ⟨hid, rfl⟩ := hst
    exact h.closeVcpu hid hc

/-- The last reference is put while a thread is about to take another one. -/
theorem FileInv.outlives_iff {act : FileAct} (h : FileInv s) (hst : fileStep s act = some t) :
    OutlivesFiles t ↔ ClosesLate s act t := by
  refine ⟨fun hout => ?_, fun hc => (h.step hst hc).outlives⟩
  cases act with
  | closeVcpu id =>
    rintro ⟨h1, hut⟩
    simp only [fileStep, Option.ite_none_right_eq_some, Option.some.injEq] at hst
    obtain ⟨-, rfl⟩ := hst
    obtain ⟨id', hid'⟩ := Option.ne_none_iff_exists'.mp hut
    obtain ⟨k, -, hk⟩ := Option.bind_eq_some_iff.mp hid'
    have hidle : s.creates k = .idle := (hout.last (by simp [FileState.put, h1, ghPutVm, refcountDecAndTest])).2.2 k
    rw [hidle] at hk
    cases hk
  | _ => trivial

/-- A VM outlives its files in a run exactly when no fd of a vCPU is closed with
the last reference while that of a new vCPU is not taken yet. -/
theorem outlives_files_iff (as : List FileAct) :
    Always fileStep OutlivesFiles .init as ↔ Each fileStep ClosesLate .init as :=
  always_iff (I := FileInv) (fun _ _ _ h hst hc => h.step hst hc) (fun _ _ _ h hst => h.outlives_iff hst)
    FileInv.init FileInv.init.outlives

/-- The fd of the first vCPU is closed as soon as it is installed. -/
def closedEarly : List FileAct := [.create 0 0, .step 0 {}, .step 0 {}, .closeVcpu 0]

theorem destroyed_with_open_fd : ¬ Always fileStep OutlivesFiles .init closedEarly := by
  intro h
  obtain ⟨t, ht⟩ : ∃ t, exec fileStep .init closedEarly = some t := ⟨_, rfl⟩
  have hout := h closedEarly [] t (List.append_nil _).symm ht
  cases ht
  exact absurd (hout.last (by decide)).1 (by decide)

end GH.Proof.Vm
