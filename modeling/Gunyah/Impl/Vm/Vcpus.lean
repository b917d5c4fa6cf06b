import Gunyah.Impl.Vm.Main

/-!
# The vCPUs of a VM

The pointers of a VM to its vCPUs and their number: `gh_vm_ioctl_create_vcpu`
allocates a vCPU, and `gh_destroy_vm` destroys all of them in a loop, of which
`destroyVcpusTurn` is one turn.
-/

namespace GH.Impl.Vcpus

open GH.Impl.Main

/-- `struct gh_vcpu`, which is at `addr`. `gh_vm_ioctl_create_vcpu` checks `vcpu_id`. -/
structure GhVcpu where
  addr : Addr
  vcpuId : Fin GH_MAX_VCPUS
  deriving DecidableEq, Repr

/-- A VM's vCPUs, as `gh_create_vm` makes them: allocation `k` of a vCPU is at address `k`, and
`freed` are the addresses passed to `kfree`. -/
structure VmVcpus where
  vcpus : Fin GH_MAX_VCPUS → Option GhVcpu := fun _ => none
  createdVcpus : BitVec 32 := 0
  allocs : Nat := 0
  freed : List Addr := []

/-- `kfree` of a vCPU. -/
def VmVcpus.kfree (vm : VmVcpus) (vcpu : GhVcpu) : VmVcpus := { vm with freed := vm.freed ++ [vcpu.addr] }

/-- `gh_vm_ioctl_create_vcpu`, which returns the new fd. -/
def ghVmIoctlCreateVcpu (vm : VmVcpus) (id : BitVec 32) (env : CreateEnv) : VmVcpus × Int :=
  if h : id.toNat < GH_MAX_VCPUS then
    let id := ⟨id.toNat, h⟩
    if (vm.vcpus id).isSome then (vm, -EEXIST)
    else if env.vcpu = false then (vm, -ENOMEM)
    else
      let vcpu : GhVcpu := ⟨vm.allocs, id⟩
      let vm := { vm with allocs := vm.allocs + 1 }
      if env.fd < 0 then (vm.kfree vcpu, env.fd)
      else
        match env.file with
        | .error err => (vm.kfree vcpu, err)
        | .ok () =>
          ({ vm with vcpus := Function.update vm.vcpus id (some vcpu), createdVcpus := vm.createdVcpus + 1 }, env.fd)
  else (vm, -EINVAL)

/-- `gh_destroy_vcpu`. -/
def ghDestroyVcpu (vm : VmVcpus) (vcpu : GhVcpu) : VmVcpus :=
  let vm := vm.kfree vcpu
  { vm with vcpus := Function.update vm.vcpus vcpu.vcpuId none, createdVcpus := vm.createdVcpus - 1 }

/-- A turn of the loop of `gh_destroy_vm`, with its `vcpu_id`; `none` at its end. -/
def destroyVcpusTurn (s : VmVcpus × Nat) : Option (VmVcpus × Nat) :=
  if h : s.1.createdVcpus ≠ 0 ∧ s.2 < GH_MAX_VCPUS then
    match s.1.vcpus ⟨s.2, h.2⟩ with
    | none => some (s.1, s.2)
    | some vcpu => some (ghDestroyVcpu s.1 vcpu, s.2 + 1)
  else none

end GH.Impl.Vcpus
