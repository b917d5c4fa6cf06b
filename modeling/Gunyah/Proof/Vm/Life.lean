import Gunyah.Proof.Vm.Life.Step

/-!
# The requests about a VM are made in turn

The invariant (`LifeInv`) holds over every run, whose log is therefore in turn (`requests_in_turn`), and asks the RM to take
back the last VMID and no other (`last_vmid_returned`).
-/

namespace GH.Proof.Life

open GH.Impl.Rm GH.Impl.Main GH.Impl.Life GH.Spec.Life
open GH.Impl.Vm (SecVm SecVmDev)

variable {n : Nat}

/-- The requests about a VM are made in turn, for its last VMID. -/
theorem requests_in_turn (devs : SecVm → Option SecVmDev) (as : List (Act n)) (hfair : Each (lifeStep devs) Fair {} as) :
    Always (lifeStep devs) (fun s => InTurn {} s.log) {} as := by
  intro bs cs t hbs he
  exact (inv_each (fun _ _ _ h hst hc => h.step hst hc) LifeInv.init hfair bs cs t hbs he).log.inTurn

/-- A device with a static region. -/
def oemvm : SecVm → Option SecVmDev
  | .oemvm => some ⟨false, fun _ => ⟨0, 0, 0, true⟩, 1, 28, 0, Nat.one_pos, fun _ => ⟨[], [], false⟩, 0⟩
  | _ => none

/-- A VM is loaded, runs, exits, and is destroyed. -/
def wholeLife (k j : Fin 2) : List (Act 2) :=
  let goes (k : Fin 2) (m : Nat) : List (Act 2) := List.replicate m (.go k {})
  .call k (.setFwName .oemvm) :: goes k 2 ++ .go k { vmid := 45 } :: goes k 9 ++
    .call j (.notify GH_RM_NOTIF_VM_STATUS [45, 0, 0, 0, GH_RM_VM_STATUS_READY]) :: goes j 1 ++ goes k 6 ++
    .call k .createVcpu :: .call k .run :: goes k 9 ++
    .call j (.notify GH_RM_NOTIF_VM_EXITED [45, 0, 0, 0]) :: goes j 3 ++
    .call k .release :: goes k 8 ++
    .call j (.notify GH_RM_NOTIF_VM_STATUS [45, 0, 0, 0, GH_RM_VM_STATUS_RESET]) :: goes j 1 ++ goes k 4 ++
    [.call k .free]

theorem wholeLife_fair : Each (lifeStep oemvm) Fair {} (wholeLife 0 1) := by decide

theorem wholeLife_freed : ∃ s, exec (lifeStep oemvm) {} (wholeLife 0 1) = some s ∧ s.freed = true := by
  have h : (exec (lifeStep oemvm) {} (wholeLife 0 1)).map (·.freed) = some true := by decide
  exact Option.map_eq_some_iff.mp h

theorem requests_in_turn_whole : ∃ s, exec (lifeStep oemvm) {} (wholeLife 0 1) = some s ∧ InTurn {} s.log := by
  obtain ⟨s, hs, -⟩ := wholeLife_freed
  exact ⟨s, hs, requests_in_turn oemvm (wholeLife 0 1) wholeLife_fair (wholeLife 0 1) [] s (List.append_nil _).symm hs⟩

/-- When a VM has been freed, the RM has been asked to take its last VMID back, and no other. -/
theorem last_vmid_returned (devs : SecVm → Option SecVmDev) (as : List (Act n))
    (hfair : Each (lifeStep devs) Fair {} as) :
    Always (lifeStep devs) (fun s => s.freed = true → returned s.log = (allocated s.log).getLast?.toList) {} as := by
  intro bs cs t hbs he hf
  have h := inv_each (fun _ _ _ h hst hc => h.step hst hc) LifeInv.init hfair bs cs t hbs he
  have hstage := (h.freed hf).2.1
  rw [h.log.last, h.log.returned]
  simp only [List.mem_cons, List.not_mem_nil, or_false] at hstage
  rcases hstage with e | e <;> rw [e] <;> rfl

theorem last_vmid_returned_whole : ∃ s, exec (lifeStep oemvm) {} (wholeLife 0 1) = some s ∧
    s.freed = true ∧ returned s.log = (allocated s.log).getLast?.toList := by
  obtain ⟨s, hs, hf⟩ := wholeLife_freed
  exact ⟨s, hs, hf,
    last_vmid_returned oemvm (wholeLife 0 1) wholeLife_fair (wholeLife 0 1) [] s (List.append_nil _).symm hs hf⟩

end GH.Proof.Life
