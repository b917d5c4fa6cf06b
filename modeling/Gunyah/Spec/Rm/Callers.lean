import Gunyah.Spec.Rm.Iface

/-!
# Callers at the same time

Any number of callers of `gh_rm_vm_alloc_vmid` and `gh_rm_vm_dealloc_vmid`
(`allocStep`), and of the functions that set a part of this VM's status
(`statusStep`). A step is a section under `gh_vm_table_lock` or an exchange
with the RM; what a function does after its last one is part of that step.

The history `since` says which VMIDs calls for a name have returned since its
entry was last reset, and `last` what the last completed call gave for each
part of the status.
-/

namespace GH.Spec.Rm

open GH.Impl GH.Impl.Rm

/-! ## VMIDs of names -/

/-- The RM's answer to `VM_ALLOCATE`: the call fails, or gives a VMID. -/
inductive AllocAnswer where
  | fails (x : Outcome) (h : ¬ x.Answered)
  | gives (v : VmId)

namespace AllocAnswer

/-- What the call of the RM returns to the function. -/
def callRet : AllocAnswer → CallRet
  | .fails x _ => x.callRet
  | .gives v => (Outcome.answered (some (u16Bytes v ++ u16Bytes 0)) 4).callRet

/-- The RM gives VMIDs that it has not allocated; 0 and `0xFFFF` are none. -/
def Possible (vmids : List VmId) : AllocAnswer → Prop
  | .fails .. => True
  | .gives v => v ∉ vmids ∧ v ≠ 0 ∧ v ≠ GH_VMID_INVAL

instance (vmids : List VmId) : (x : AllocAnswer) → Decidable (x.Possible vmids)
  | .fails .. => isTrue trivial
  | .gives v => inferInstanceAs (Decidable (v ∉ vmids ∧ v ≠ 0 ∧ v ≠ GH_VMID_INVAL))

/-- The VMIDs that the RM has allocated after its answer. -/
def vmids (vs : List VmId) : AllocAnswer → List VmId
  | .fails .. => vs
  | .gives v => v :: vs

end AllocAnswer

/-- Where a call of `gh_rm_vm_alloc_vmid` is: the check has passed, or the RM has
answered. -/
inductive AllocPc where
  | idle
  | checked (vmName : VmName) (vmid : Int) (o : Out)
  | answered (vmName : VmName) (vmid : Int) (o : Out) (x : AllocAnswer)

/-- Where a call of `gh_rm_vm_dealloc_vmid` is: the RM has deallocated the VMID. -/
inductive DeallocPc where
  | idle
  | answered (vmid : VmId)

/-- The table of names, the RM's VMIDs, and the calls that allocate and deallocate them. -/
structure AllocState where
  table : VmTable
  /-- The VMIDs that the RM has allocated. -/
  vmids : List VmId
  allocs : Nat → AllocPc
  deallocs : Nat → DeallocPc
  /-- The VMIDs of the calls for a name that have returned 0 since its entry was
  last reset, the last one first. -/
  since : VmName → List VmId

/-- The table as it is initialised, and nothing under way. -/
def AllocState.init : AllocState where
  table := ghInitVmPropTable
  vmids := []
  allocs := fun _ => .idle
  deallocs := fun _ => .idle
  since := fun _ => []

/-- The parts of the two functions, cut where they touch the table or the RM. -/
inductive AllocAct where
  | check (k : Nat) (vmName : VmName) (vmid : Int) (o : Out)
  | answer (k : Nat) (x : AllocAnswer)
  | update (k : Nat)
  | dealloc (j : Nat) (vmid : VmId) (o : Out) (x : Outcome)
  | reset (j : Nat)

/-- One of these, `none` where it is not enabled. -/
def allocStep (s : AllocState) : AllocAct → Option AllocState
  | .check k vmName vmid o =>
    match s.allocs k with
    | .idle =>
      match ghRmVmAllocVmid s.table vmName vmid o with
      | .ret none => none
      | .ret (some _) => some s
      | .call .. => some { s with allocs := Function.update s.allocs k (.checked vmName vmid o) }
    | _ => none
  | .answer k x =>
    match s.allocs k with
    | .checked vmName vmid o =>
      if x.Possible s.vmids then
        some { s with vmids := x.vmids s.vmids, allocs := Function.update s.allocs k (.answered vmName vmid o x) }
      else none
    | _ => none
  | .update k =>
    match s.allocs k with
    | .answered vmName vmid o x =>
      (ghRmVmAllocVmidReply s.table vmName vmid o x.callRet).map fun (t, vmid, ret) =>
        { s with
          table := t
          allocs := Function.update s.allocs k .idle
          since :=
            if ret = 0 then Function.update s.since vmName (BitVec.ofInt 16 vmid :: s.since vmName)
            else s.since }
    | _ => none
  | .dealloc j vmid o x =>
    match s.deallocs j with
    | .idle =>
      match noPayloadReply o x.callRet with
      | .error _ => some s
      | .ok () =>
        some { s with vmids := s.vmids.erase vmid, deallocs := Function.update s.deallocs j (.answered vmid) }
    | _ => none
  | .reset j =>
    match s.deallocs j with
    | .answered vmid =>
      some { s with
        table := ghResetVmPropTableEntry s.table vmid
        deallocs := Function.update s.deallocs j .idle
        since := match VmName.peers.find? fun n => vmid = (s.table n).vmid with
          | some n => Function.update s.since n []
          | none => s.since }
    | .idle => none

/-- At most one call for the name has returned 0 since its entry was reset, and
its VMID is the one in the table. -/
def OneVmid (s : AllocState) (n : VmName) : Prop :=
  (s.since n).length ≤ 1 ∧ ∀ v ∈ s.since n, (s.table n).vmid = v

/-- The entry of its name is still without a VMID, if the RM has given the call
one. -/
def AllocPc.Free (t : VmTable) : AllocPc → Prop
  | .answered vmName _ _ (.gives _) => (t vmName).vmid = GH_VMID_INVAL
  | _ => True

/-- A call that the RM has given a VMID finds the entry of its name free when it
gets to the update. -/
def EntryFree (s : AllocState) : AllocAct → AllocState → Prop
  | .update k, _ => (s.allocs k).Free s.table
  | _, _ => True

/-! ## The parts of the status -/

/-- A call that sets a part of the status. -/
inductive StatusWrite where
  | vm (vmStatus : BitVec 8)
  | os (osStatus : BitVec 8)
  | app (appStatus : BitVec 16)
  deriving DecidableEq, Repr

namespace StatusWrite

/-- The status with that part set. -/
def apply (st : VmStatus) : StatusWrite → VmStatus
  | .vm x => { st with vmStatus := x }
  | .os x => { st with osStatus := x }
  | .app x => { st with appStatus := x }

/-- The function that is called. -/
def call (env : StatusEnv) : StatusWrite → RmCall (RmCall Int)
  | .vm x => ghRmVmSetVmStatus x env
  | .os x => ghRmVmSetOsStatus x env
  | .app x => ghRmVmSetAppStatus x env

end StatusWrite

/-- Where a call is: it has the RM's answer to `VM_GET_STATE`, and what it does
next. -/
inductive StatusPc where
  | idle
  | got (w : StatusWrite) (next : RmCall Int)

/-- The status that the RM holds, and the calls that read it and write it back with one part changed. -/
structure StatusState where
  /-- The status that the RM holds. -/
  rm : VmStatus
  calls : Nat → StatusPc
  /-- For each part, what the last completed call for it gave. -/
  last : VmStatus

/-- Nothing under way. -/
def StatusState.init (st : VmStatus) : StatusState := ⟨st, fun _ => .idle, st⟩

/-- The two requests of a call. -/
inductive StatusAct where
  | get (k : Nat) (w : StatusWrite) (env : StatusEnv)
  | set (k : Nat)

/-- One of these, `none` where it is not enabled. -/
def statusStep (s : StatusState) : StatusAct → Option StatusState
  | .get k w env =>
    match s.calls k with
    | .idle =>
      match (w.call env).run (Outcome.answered (some s.rm.bytes) 4).callRet with
      | .ret _ => some s
      | .call args cont => some { s with calls := Function.update s.calls k (.got w (.call args cont)) }
    | _ => none
  | .set k =>
    match s.calls k with
    | .got w (.call args cont) =>
      some {
        rm := VmStatus.ofBytes (args.reqBuff.getD [])
        calls := Function.update s.calls k .idle
        last := if cont (Outcome.answered none 0).callRet = 0 then w.apply s.last else s.last }
    | _ => none

/-- Once all calls have returned, every part is what the last completed call for
it gave. -/
def NoLostUpdate (s : StatusState) : Prop := (∀ k, s.calls k = .idle) → s.rm = s.last

/-- The parts that the call does not set are in its request as the RM holds them. -/
def StatusPc.Fresh (rm : VmStatus) : StatusPc → Prop
  | .got w (.call args _) => VmStatus.ofBytes (args.reqBuff.getD []) = w.apply rm
  | _ => True

instance (rm : VmStatus) : (c : StatusPc) → Decidable (c.Fresh rm)
  | .idle => isTrue trivial
  | .got _ (.ret _) => isTrue trivial
  | .got _ (.call ..) => inferInstanceAs (Decidable (_ = _))

/-- The copy that a call sends back is not stale. -/
def CopyFresh (s : StatusState) : StatusAct → StatusState → Prop
  | .set k, _ => (s.calls k).Fresh s.rm
  | _, _ => True

instance (s t : StatusState) : (act : StatusAct) → Decidable (CopyFresh s act t)
  | .get .. => isTrue trivial
  | .set k => inferInstanceAs (Decidable ((s.calls k).Fresh s.rm))

end GH.Spec.Rm
