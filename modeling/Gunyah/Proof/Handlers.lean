import Mathlib.Tactic.Common
import Gunyah.Proof.Rm.Reads
import Gunyah.Spec.Handlers

/-!
# What the handlers read

A handler that looks at the id of the notification first reads what
`gh_rm_validate_notif` has found to be there (`Validated`).
`gh_vm_status_nb_handler` reads the status first, at offset 4, so the handlers
stay inside exactly the payloads that are longer than that
(`chain_inside_iff`).
-/

namespace GH.Proof.Handlers

open GH.Impl GH.Impl.Rm GH.Impl.Irq GH.Impl.Main GH.Impl.Handlers GH.Spec.Handlers GH.Proof.Rm

/-! ## Reading inside a payload -/

section Inside

variable {α β : Type} (p : List Byte)

@[simp] theorem inside_pure (a : α) : Inside (pure a) p := below_pure p p.length a

@[simp] theorem inside_bind (x : ReadM α) (f : α → ReadM β) :
    Inside (x >>= f) p ↔ Inside x p ∧ Inside (f (x.val p)) p := below_bind p p.length x f

@[simp] theorem inside_readU8 (off : Nat) : Inside (readU8 off) p ↔ off < p.length := below_readU8 p p.length off

@[simp] theorem inside_readU16 (off : Nat) : Inside (readU16 off) p ↔ off + 1 < p.length := below_readU16 p p.length off

@[simp] theorem inside_readU32 (off : Nat) : Inside (readU32 off) p ↔ off + 3 < p.length := below_readU32 p p.length off

theorem inside_readBytes {off n : Nat} (h : off + n ≤ p.length) : Inside (readBytes off n) p :=
  below_readBytes p p.length h

end Inside

/-! ## What is validated -/

/-- The sizes of the payloads that are passed on. -/
structure Validated (cmd : BitVec 32) (p : List Byte) : Prop where
  vmStatus : cmd = GH_RM_NOTIF_VM_STATUS → p.length = 8
  vmExited : cmd = GH_RM_NOTIF_VM_EXITED → 8 ≤ p.length
  shutdown : cmd = GH_RM_NOTIF_VM_SHUTDOWN → p.length = 4
  irqLent : cmd = GH_RM_NOTIF_VM_IRQ_LENT → p.length = 12
  irqReleased : cmd = GH_RM_NOTIF_VM_IRQ_RELEASED → p.length = 4
  irqAccepted : cmd = GH_RM_NOTIF_VM_IRQ_ACCEPTED → p.length = 4
  memShared : cmd = GH_RM_NOTIF_MEM_SHARED → 20 ≤ p.length
  memReleased : cmd = GH_RM_NOTIF_MEM_RELEASED → p.length = 12
  memAccepted : cmd = GH_RM_NOTIF_MEM_ACCEPTED → p.length = 12
  console : cmd = GH_RM_NOTIF_VM_CONSOLE_CHARS → 4 + ((readU16 2).val p).toNat = p.length

theorem withExitType_length (p : List Byte) (t : BitVec 16) : (withExitType p t).length = p.length := by
  simp [withExitType]

theorem archVmExited_length {p q : List Byte} (h : ghArchValidateVmExitedNotif p = some q) : q.length = p.length := by
  simp only [ghArchValidateVmExitedNotif] at h
  split_ifs at h <;> · cases h; exact withExitType_length _ _

theorem vmExited_length {p q : List Byte} (h : ghRmValidateVmExitedNotif p = some q) :
    8 ≤ p.length ∧ q.length = p.length := by
  simp only [ghRmValidateVmExitedNotif] at h
  split_ifs at h
  · cases h
    exact ⟨by omega, rfl⟩
  · cases h
    exact ⟨by omega, rfl⟩
  · exact ⟨by omega, archVmExited_length h⟩

/-- The checks of a payload against one size. -/
theorem eq_size {p q : List Byte} {n : Nat} (h : (if p.length ≠ n then none else some p) = some q) :
    q.length = n := by
  split_ifs at h with hn
  cases h
  exact not_not.mp hn

theorem validated {cmd : BitVec 32} {p q : List Byte} (h : ghRmValidateNotif cmd p = some q) : Validated cmd q where
  vmStatus e := by
    subst e
    exact eq_size h
  vmExited e := by
    subst e
    obtain ⟨hp, hq⟩ := vmExited_length h
    omega
  shutdown e := by
    subst e
    exact eq_size h
  irqLent e := by
    subst e
    exact eq_size h
  irqReleased e := by
    subst e
    exact eq_size h
  irqAccepted e := by
    subst e
    exact eq_size h
  memShared e := by
    subst e
    change (if p.length < 20 then none else some p) = some q at h
    split_ifs at h with hlen
    cases h
    omega
  memReleased e := by
    subst e
    exact eq_size h
  memAccepted e := by
    subst e
    exact eq_size h
  console e := by
    subst e
    change (if p.length ≥ 4 then
      if 4 + ((readU16 2).val p).toNat ≠ p.length then none else some p else none) = some q at h
    split_ifs at h with hlen hn
    cases h
    exact not_not.mp hn

theorem ite_length {c : Prop} [Decidable c] {x y : Option (List Byte)} {n : Nat} (hx : ∀ q ∈ x, q.length = n)
    (hy : ∀ q ∈ y, q.length = n) : ∀ q ∈ if c then x else y, q.length = n := by
  split
  · exact hx
  · exact hy

/-- The payload keeps its size. -/
theorem validated_length {cmd : BitVec 32} {p q : List Byte} (h : ghRmValidateNotif cmd p = some q) :
    q.length = p.length := by
  have hnone : ∀ q ∈ (none : Option (List Byte)), q.length = p.length := nofun
  have hsome : ∀ q ∈ some p, q.length = p.length := fun q hq => congrArg List.length (Option.some.inj hq).symm
  have hsize {c : Prop} [Decidable c] : ∀ q ∈ if c then none else some p, q.length = p.length :=
    ite_length hnone hsome
  refine ite_length hsize (ite_length (fun q hq => (vmExited_length hq).2) ?_) q h
  -- the other sizes are checked one after the other
  refine ite_length hsize (ite_length hsize (ite_length hsize (ite_length hsize ?_)))
  exact ite_length hsize (ite_length hsize (ite_length hsize (ite_length (ite_length hsize hnone) hnone)))

/-! ## The handlers -/

variable {cmd : BitVec 32} {p : List Byte}

theorem vmStatus_inside (env : StatusNbEnv) :
    Inside (ghVmStatusNbHandler env cmd) p ↔ 4 < p.length := by
  rw [ghVmStatusNbHandler, inside_bind, inside_readU8, and_iff_left_iff_imp]
  intro hlen
  split
  · exact inside_pure p _
  rw [inside_bind, inside_readU16]
  refine ⟨by omega, ?_⟩
  split
  · split
    · exact inside_pure p _
    · split
      · exact inside_pure p _
      · split <;> exact inside_pure p _
  · exact inside_pure p _

theorem vmRm_inside (vm : GhVm) (h : Validated cmd p) : Inside (ghVmRmNotifierFn vm cmd) p := by
  unfold ghVmRmNotifierFn
  split_ifs with hs he
  · have hlen := h.vmStatus hs
    have htest : Inside (ghNotifVmStatusTest vm) p := by
      rw [ghNotifVmStatusTest, inside_bind, inside_readU16]
      refine ⟨by omega, ?_⟩
      split_ifs
      · exact inside_pure p _
      rw [inside_bind, inside_readU8]
      refine ⟨by omega, ?_⟩
      split_ifs <;> exact inside_pure p _
    rw [ghNotifVmStatus, inside_bind]
    refine ⟨htest, ?_⟩
    split <;> exact inside_pure p _
  · have hlen := h.vmExited he
    rw [ghNotifVmExited, inside_bind, inside_readU16]
    refine ⟨by omega, ?_⟩
    split_ifs
    · exact inside_pure p _
    rw [inside_bind, inside_readU16]
    exact ⟨by omega, inside_pure p _⟩
  · exact inside_pure p _

theorem findLent_inside (t : IrqTable) (owner : VmName) (hlen : p.length = 12) (ls : List IrqLabel) :
    Inside (findLent t owner ls) p := by
  induction ls with
  | nil => exact inside_pure p _
  | cons l ls ih =>
    rw [findLent]
    split_ifs
    · exact ih
    rw [inside_bind, inside_readU32]
    refine ⟨by omega, ?_⟩
    split_ifs
    · exact inside_pure p _
    · exact ih

theorem irqLent_inside (t : IrqTable) (getVmName : VmId → Except Int VmName) (h : Validated cmd p) :
    Inside (ghIrqLentNbHandler t getVmName cmd) p := by
  unfold ghIrqLentNbHandler
  split_ifs with hc
  · exact inside_pure p _
  have hlen := h.irqLent (not_not.mp hc)
  rw [inside_bind, inside_readU16]
  refine ⟨by omega, ?_⟩
  split
  · exact inside_pure p _
  rw [inside_bind]
  refine ⟨findLent_inside t _ hlen _, ?_⟩
  split
  · rw [inside_bind, inside_bind, inside_readU16, inside_readU32]
    exact ⟨by omega, by omega, inside_pure p _⟩
  · exact inside_pure p _

theorem findReleasedAccepted_inside (t : IrqTable) (hlen : p.length = 4) (ls : List IrqLabel) :
    Inside (findReleasedAccepted t ls) p := by
  induction ls with
  | nil => exact inside_pure p _
  | cons l ls ih =>
    rw [findReleasedAccepted]
    split_ifs
    · exact ih
    rw [inside_bind, inside_readU32]
    refine ⟨by omega, ?_⟩
    split_ifs
    · exact inside_pure p _
    · exact ih

theorem irqReleasedAccepted_inside (t : IrqTable) (h : Validated cmd p) :
    Inside (ghIrqReleasedAcceptedNbHandler t cmd) p := by
  unfold ghIrqReleasedAcceptedNbHandler
  split
  · exact inside_pure p _
  rename_i hc
  have hlen : p.length = 4 := by
    rw [not_and_or, not_not, not_not] at hc
    exact hc.elim h.irqReleased h.irqAccepted
  rw [inside_bind]
  refine ⟨findReleasedAccepted_inside t hlen _, ?_⟩
  split <;> exact inside_pure p _

theorem mem_inside (entries : MemNotifierEntries) (h : Validated cmd p) :
    Inside (ghMemNotifierCall entries cmd) p := by
  unfold ghMemNotifierCall
  split_ifs with hc
  · exact inside_pure p _
  have htag : Inside (ghMemNotifierGetTag cmd) p := by
    unfold ghMemNotifierGetTag
    split_ifs with hs hr
    · have := h.memShared hs
      exact (inside_readU32 p 16).mpr (by omega)
    · have := h.memReleased hr
      exact (inside_readU32 p 8).mpr (by omega)
    · have := h.memAccepted (not_not.mp fun ha => hc ⟨hs, hr, ha⟩)
      exact (inside_readU32 p 8).mpr (by omega)
  rw [inside_bind]
  refine ⟨htag, ?_⟩
  split_ifs <;> exact inside_pure p _

theorem console_inside (getVmName : VmId → Except Int VmName) (room : VmName → Nat) (h : Validated cmd p) :
    Inside (ghHvcNotifyConsoleChars getVmName room cmd) p := by
  unfold ghHvcNotifyConsoleChars
  split_ifs with hc
  · exact inside_pure p _
  have hlen := h.console (not_not.mp hc)
  rw [inside_bind, inside_readU16]
  refine ⟨by omega, ?_⟩
  split
  · exact inside_pure p _
  rw [inside_bind, inside_readU16, inside_bind]
  exact ⟨by omega, inside_readBytes p (by omega), inside_pure p _⟩

theorem guestPops_inside (h : Validated cmd p) : Inside (ghGuestPopsRmNotiferFn cmd) p := by
  unfold ghGuestPopsRmNotiferFn
  split_ifs with hc
  · have hlen := h.shutdown hc
    rw [ghGuestPopsVmShutdown, inside_bind, inside_readU32]
    refine ⟨by omega, ?_⟩
    split_ifs <;> exact inside_pure p _
  · exact inside_pure p _

/-- The handlers stay inside the payload of a notification exactly if it has more
than four bytes. -/
theorem chain_inside_iff (env : ChainEnv) (cmd : BitVec 32) (p q : List Byte)
    (h : ghRmValidateNotif cmd p = some q) : ChainInside env cmd q ↔ 4 < p.length := by
  have hv := validated h
  rw [← validated_length h]
  constructor
  · intro hin
    exact (vmStatus_inside env.status).mp hin.vmStatus
  · intro hlen
    exact {
      vmStatus := (vmStatus_inside env.status).mpr hlen
      vmRm := vmRm_inside env.vm hv
      irqLent := irqLent_inside env.irqs env.getVmName hv
      irqReleasedAccepted := irqReleasedAccepted_inside env.irqs hv
      mem := mem_inside env.entries hv
      console := console_inside env.getVmName env.room hv
      guestPops := guestPops_inside hv }

/-- No VM is known, and nobody waits for anything. -/
def quietEnv : ChainEnv where
  status := ⟨fun _ => 0, fun _ => .error (-EINVAL), fun _ => .error (-EINVAL)⟩
  vm := {}
  irqs := IrqTable.init
  getVmName := fun _ => .error (-EINVAL)
  entries := fun _ => (none, 0)
  room := fun _ => 0

theorem vm_status_inside : ChainInside quietEnv GH_RM_NOTIF_VM_STATUS (List.replicate 8 0) :=
  (chain_inside_iff quietEnv GH_RM_NOTIF_VM_STATUS (List.replicate 8 0) (List.replicate 8 0) rfl).mpr (by decide)

theorem shutdown_outside :
    ghRmValidateNotif GH_RM_NOTIF_VM_SHUTDOWN (u32Bytes 0) = some (u32Bytes 0) ∧
      ¬ ChainInside quietEnv GH_RM_NOTIF_VM_SHUTDOWN (u32Bytes 0) := by
  refine ⟨rfl, fun h => ?_⟩
  exact absurd (h.vmStatus 4 (by decide)) (by decide)

end GH.Proof.Handlers
