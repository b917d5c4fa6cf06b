import Gunyah.Impl.Vm.Main

/-!
# The files of a VM

User space has a file of the VM, and one of each vCPU that it has created. The
file of the VM is in use (`fCount`) while its fd is open and while an ioctl is
in progress on it, and is released after that. The file of a vCPU is released
when its fd is closed. `destroyed` counts the calls of `gh_destroy_vm`.
-/

namespace GH.Spec.Vm

open GH.Impl GH.Impl.Main

/-- The fd of a vCPU. -/
inductive Fd where
  | absent
  | opened
  | closed
  deriving DecidableEq, Repr

/-- A VM with its files: the one of the VM, one for each vCPU, and the calls that create these. -/
structure FileState where
  usersCount : BitVec 32
  /-- The thread that holds `vm_lock`. -/
  lock : Option Nat
  vcpus : Fin GH_MAX_VCPUS → Bool
  vmFd : Bool
  fCount : Nat
  fds : Fin GH_MAX_VCPUS → Fd
  creates : Nat → CreatePc
  destroyed : Nat

/-- A VM after `gh_dev_ioctl_create_vm`. -/
def FileState.init : FileState where
  usersCount := 1
  lock := none
  vcpus := fun _ => false
  vmFd := true
  fCount := 1
  fds := fun _ => .absent
  creates := fun _ => .idle
  destroyed := 0

/-- The VM's `gh_put_vm` is called. -/
def FileState.put (s : FileState) : FileState :=
  let (usersCount, destroy) := ghPutVm s.usersCount
  { s with usersCount := usersCount, destroyed := if destroy then s.destroyed + 1 else s.destroyed }

/-- The file of the VM is used by one less; `gh_vm_release` if that was the last. -/
def FileState.fput (s : FileState) : FileState :=
  let s := { s with fCount := s.fCount - 1 }
  if s.fCount = 0 then s.put else s

/-- What user space does with the files. -/
inductive FileAct where
  /-- `GH_CREATE_VCPU` is called. -/
  | create (k : Nat) (id : BitVec 32)
  /-- A thread makes a step of `gh_vm_ioctl_create_vcpu`. -/
  | step (k : Nat) (env : CreateEnv)
  /-- The fd of the VM is closed. -/
  | closeVm
  /-- The fd of a vCPU is closed. -/
  | closeVcpu (id : Fin GH_MAX_VCPUS)

/-- The thread returns from the ioctl. -/
def FileState.ret (s : FileState) (k : Nat) : FileState :=
  { s with creates := Function.update s.creates k .idle }.fput

/-- One such step, `none` where it is not enabled. -/
def fileStep (s : FileState) : FileAct → Option FileState
  | .create k id =>
    if s.vmFd ∧ s.creates k = .idle then
      if h : id.toNat < GH_MAX_VCPUS then
        some { s with fCount := s.fCount + 1, creates := Function.update s.creates k (.lock ⟨id.toNat, h⟩) }
      else some s
    else none
  | .step k env =>
    match s.creates k with
    | .idle => none
    | .lock id =>
      if s.lock = none then
        match ghVmIoctlCreateVcpu s.vcpus id env with
        | .error _ => some (s.ret k)
        | .ok () => some { s with lock := some k, creates := Function.update s.creates k (.install id) }
      else none
    | .install id =>
      some { s with fds := Function.update s.fds id .opened, creates := Function.update s.creates k (.get id) }
    | .get id =>
      some { s with usersCount := ghGetVm s.usersCount, creates := Function.update s.creates k (.enter id) }
    | .enter id => some ({ s with vcpus := Function.update s.vcpus id true, lock := none }.ret k)
  | .closeVm => if s.vmFd then some { s with vmFd := false }.fput else none
  | .closeVcpu id =>
    if s.fds id = .opened then some { s with fds := Function.update s.fds id .closed }.put else none

/-- `gh_destroy_vm` is called once at most, when no file of the VM is in use. -/
structure OutlivesFiles (s : FileState) : Prop where
  once : s.destroyed ≤ 1
  last : s.destroyed ≠ 0 → s.vmFd = false ∧ (∀ id, s.fds id ≠ .opened) ∧ ∀ k, s.creates k = .idle

/-- The vCPU whose fd is installed, but whose reference is not taken yet. -/
def FileState.untaken (s : FileState) : Option (Fin GH_MAX_VCPUS) :=
  s.lock.bind fun k =>
    match s.creates k with
    | .get id => some id
    | _ => none

/-- No fd of a vCPU is closed with the last reference while that of a new vCPU is
not taken yet. -/
def ClosesLate (s : FileState) : FileAct → FileState → Prop
  | .closeVcpu _, _ => ¬ (s.usersCount = 1 ∧ s.untaken ≠ none)
  | _, _ => True

end GH.Spec.Vm
