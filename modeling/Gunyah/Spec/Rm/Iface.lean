import Gunyah.Impl.Rm.Iface

/-!
# What the requests and the table of VM names are for

How a call to the RM can end (`Outcome`), and the VMIDs that the names have
(`Names`): a name gets a VMID by an update or an allocation and loses it when
the VMID is reset or deallocated.
-/

namespace GH.Spec.Rm

open GH.Impl GH.Impl.Rm

/-- How a call to the RM ends. -/
inductive Outcome where
  /-- It fails before the RM answers. -/
  | early (e : Int) (neg : e < 0)
  /-- The reply is aborted. -/
  | aborted
  /-- The RM answers with an error code. -/
  | refused (e : BitVec 32) (ne : e ≠ 0)
  /-- The RM answers with error code 0. -/
  | answered (payload : Option (List Byte)) (size : Nat)

namespace Outcome

/-- What `gh_rm_call` returns. -/
def callRet : Outcome → CallRet
  | .early e _ => { ret := .error e }
  | .aborted => { ret := .error (-EIO_ERR), rmError := some 0 }
  | .refused e _ => { ret := .error (ghRemapError e.toInt), rmError := some e }
  | .answered payload size => { ret := .ok payload, rmError := some 0, respBuffSize := some size }

/-- The RM has answered. -/
def Answered : Outcome → Prop
  | .answered .. => True
  | _ => False

/-- The call fails without an error code of the RM. -/
def NoAnswer : Outcome → Prop
  | .early .. | .aborted => True
  | _ => False

/-- The call fails and leaves 0 in the caller's error code, which was `e`. -/
def LeavesZero (e : BitVec 32) : Outcome → Prop
  | .early .. => e = 0
  | .aborted => True
  | _ => False

end Outcome

/-- A function returns 0 only where the RM has answered with error code 0. -/
def Truthful (ret : CallRet → Int) (x : Outcome) : Prop := ret x.callRet = 0 → x.Answered

/-! ## Names of VMs -/

/-- The VMIDs that names have. -/
abbrev Names := VmName → Option VmId

namespace Names

/-- A name gets a VMID, unless that is 0. -/
def give (a : Names) (n : VmName) (v : VmId) : Names :=
  if v = 0 then a else Function.update a n (some v)

/-- The name with a VMID loses it; the alias for the VM itself stays. -/
def take (a : Names) (v : VmId) : Names := fun n =>
  if n ≠ .selfVm ∧ a n = some v then none else a n

end Names

/-- The table, and the VMIDs that the names have by what has been done. -/
structure NameState where
  table : VmTable
  assigned : Names

/-- The table as it is initialised: only the VM itself has a VMID. -/
def NameState.init : NameState where
  table := ghInitVmPropTable
  assigned
    | .selfVm => some 0
    | _ => none

/-- The functions that change the table. -/
inductive NameAct where
  | update (vmName : VmName) (vmProp : Option VmProperty)
  | alloc (vmName : VmName) (vmid : Int) (o : Out) (x : Outcome)
  | dealloc (vmid : VmId) (o : Out) (x : Outcome)
  | reset (vmid : VmId)

/-- Updates and allocations that return 0 give a name its VMID; a reset, and a
deallocation that the RM has confirmed, take it. -/
def nameStep (s : NameState) : NameAct → Option NameState
  | .update n p =>
    (ghUpdateVmPropTable s.table n p).map fun (t, ret) =>
      ⟨t, if ret = 0 then s.assigned.give n ((p.map (·.vmid)).getD 0) else s.assigned⟩
  | .alloc n vmid o x =>
    ((ghRmVmAllocVmid s.table n vmid o).run x.callRet).map fun (t, vmid, ret) =>
      ⟨t, if ret = 0 then s.assigned.give n (BitVec.ofInt 16 vmid) else s.assigned⟩
  | .dealloc vmid o x =>
    some ⟨((ghRmVmDeallocVmid s.table vmid o).run x.callRet).1,
      if noPayloadReply o x.callRet = .ok () then s.assigned.take vmid else s.assigned⟩
  | .reset vmid => some ⟨ghResetVmPropTableEntry s.table vmid, s.assigned.take vmid⟩

/-- A VMID that a step gives to a name is below `0xFFFF` and no other name's. -/
def GivesFresh (s : NameState) (t : NameState) : Prop :=
  ∀ n v, t.assigned n = some v → s.assigned n ≠ some v →
    v ≠ GH_VMID_INVAL ∧ ∀ m, m ≠ n → s.assigned m ≠ some v

/-- What `gh_rm_get_vmid` is documented to return. -/
def getVmidDoc (s : NameState) (initialized : Bool) (n : VmName) : Except Int VmId :=
  if initialized = false then .error (-EPROBE_DEFER)
  else
    match s.assigned n with
    | some v => .ok v
    | none => .error (-EINVAL)

/-- `gh_rm_get_vmid` does what it is documented to do for a name, and
`gh_rm_get_vm_name` is its inverse. -/
structure LookupOk (s : NameState) (initialized : Bool) (n : VmName) : Prop where
  vmid : ghRmGetVmid s.table initialized n = some (getVmidDoc s initialized n)
  name : ∀ v, ghRmGetVmid s.table initialized n = some (.ok v) → ghRmGetVmName s.table v = .ok n

end GH.Spec.Rm
