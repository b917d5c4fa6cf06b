import Gunyah.Impl.Rm.HypRes

/-!
# What populating and unpopulating the resources of VMs is for

VMs come and go: the resources of a VM are populated, perhaps not all of them,
and later unpopulated with the same list, while other VMs come and go and the
message queues are used (`hypResStep`). Unpopulating a VM undoes what
populating it did (`Restored`). `Undoable` is the condition on a step under
which the code keeps to this.
-/

namespace GH.Spec.Rm

open GH.Impl GH.Impl.Rm GH.Impl.Msgq GH.Impl.Dbl GH.Impl.Proxy

/-! ## Runs -/

/-- A VM that has been populated: its list, and the tables before and after. -/
structure Populated where
  res : List ResEntry
  before : Tables
  after : Tables

/-- The drivers' tables, with the VMs that are populated. -/
structure HypRes where
  tables : Tables
  vms : VmId → Option Populated

/-- Nothing is populated. `proxy` is whether the proxy scheduler is there, and
`virtio` whether the virtio backend is. -/
def HypRes.init (proxy virtio : Bool) : HypRes where
  tables :=
    { msgq := .init
      msgqIrqs := fun _ => []
      dbl := .init
      sched := .init
      callbacks := ⟨proxy, proxy, proxy, proxy, virtio, proxy, proxy⟩ }
  vms := fun _ => none

/-- The functions that change them. -/
inductive HypResAct where
  | populate (vmid : VmId) (query : Option Int) (res : List (ResEntry × EntryAnswers))
  | unpopulate (vmid : VmId)
  /-- The clients of the message queues, their calls and their interrupts. -/
  | client (act : RegAct)

/-- The actions on message queues that are not the RM's. -/
def isClient : RegAct → Bool
  | .populate _ | .reset .. => false
  | .register .. | .unregister _ | .answer .. | .isr .. => true

/-- One of these, for a VM that is not populated yet, or that is. -/
def hypResStep (s : HypRes) : HypResAct → Option HypRes
  | .populate vmid query res => do
    if vmid = GH_VMID_INVAL ∨ (s.vms vmid).isSome then none
    let (t, _) ← ghRmPopulateHypRes s.tables vmid query res
    return { tables := t, vms := Function.update s.vms vmid (some ⟨res.map (·.1), s.tables, t⟩) }
  | .unpopulate vmid => do
    let p ← s.vms vmid
    return { tables := (ghRmUnpopulateHypRes s.tables vmid none p.res).1, vms := Function.update s.vms vmid none }
  | .client act => do
    if isClient act = false then none
    let r ← regStep s.tables.msgq act
    return { s with tables := { s.tables with msgq := r } }

/-! ## Undoing -/

/-- A message queue or a doorbell, in one direction. -/
inductive Name where
  | msgq (label : Int) (d : Direction)
  | dbl (label : BitVec 32) (d : Direction)
  deriving DecidableEq

/-- What an entry is for, if that has a capability of its own. -/
def name (e : ResEntry) : Option Name :=
  match e.resType with
  | .mqTx => some (.msgq e.label.toInt .tx)
  | .mqRx => some (.msgq e.label.toInt .rx)
  | .dbTx => some (.dbl e.label .tx)
  | .dbRx => some (.dbl e.label .rx)
  | _ => none

/-- The capability of a direction. -/
def dblCapId (e : DblCapTable) : Direction → BitVec 64
  | .tx => e.txCapId
  | .rx => e.rxCapId

/-- No capability is recorded. -/
def NoCap (s : Tables) : Name → Prop
  | .msgq label d => ∀ a e, s.msgq.entries a = some e → e.label = label → e.capId d = GH_CAPID_INVAL
  | .dbl label d => ∀ l : Label, l.val = label.toNat → dblCapId (s.dbl.table l) d = GH_CAPID_INVAL

/-- The interrupts that are requested for the message queue with a label. -/
def queueIrqs (s : Tables) (label : Int) : List Int := (s.msgq.find label).elim [] s.msgqIrqs

/-- Unpopulating a VM, from `s` to `t`, undoes what populating it did: nothing of it
is recorded, it has no slot, and what had been requested and counted for it,
from `p.before` to `p.after`, is freed and counted down. -/
structure Restored (vmid : VmId) (p : Populated) (s t : Tables) : Prop where
  caps : ∀ e ∈ p.res, ∀ n, name e = some n → NoCap t n
  slot : ∀ i, (t.sched.vms i).id ≠ vmid
  msgqIrqs : ∀ l, (queueIrqs p.before l ++ queueIrqs s l).Perm (queueIrqs p.after l ++ queueIrqs t l)
  /-- No interrupt is left of a message queue that is gone. -/
  msgqGone : ∀ a, t.msgq.entries a = none → t.msgqIrqs a = []
  dblIrqs : ∀ l, (p.before.dbl.irqs l ++ s.dbl.irqs l).Perm (p.after.dbl.irqs l ++ t.dbl.irqs l)
  schedIrqs : (p.before.sched.irqs ++ s.sched.irqs).Perm (p.after.sched.irqs ++ t.sched.irqs)
  nrVcpus : p.before.sched.nrVcpus + s.sched.nrVcpus = p.after.sched.nrVcpus + t.sched.nrVcpus
  nrVms : p.before.sched.nrVms + s.sched.nrVms = p.after.sched.nrVms + t.sched.nrVms

/-- The step restores what it unpopulates. -/
def Restores (s : HypRes) (act : HypResAct) (t : HypRes) : Prop :=
  ∀ vmid p, act = .unpopulate vmid → s.vms vmid = some p → Restored vmid p s.tables t.tables

/-! ## When it is undone -/

/-- An answer is an error that ends the loop. -/
def Refuses (ret : Int) : Prop := ret < 0 ∧ ret ≠ -EAGAIN

instance (ret : Int) : Decidable (Refuses ret) := inferInstanceAs (Decidable (_ ∧ _))

/-- The vCPU is not for the proxy scheduler: the VM is another, or it has no
interrupt. -/
def Skips (vmid : VmId) (linuxIrq : Int) (t : VcpuTry) : Prop :=
  (isOther t.trustedVm vmid ∧ isOther t.oemVm vmid) ∨ linuxIrq = 0 ∨ linuxIrq = IRQ_INVAL

instance (vmid : VmId) (linuxIrq : Int) (t : VcpuTry) : Decidable (Skips vmid linuxIrq t) :=
  inferInstanceAs (Decidable (_ ∨ _))

/-- The loop over vCPUs gets over an entry without an error. -/
def VcpuGoesWell (vmid : VmId) (x : ResEntry × EntryAnswers) : Prop :=
  0 ≤ ghRmGetIrq x.1 x.2.vcpuIrq ∧
    ∀ t ∈ x.2.vcpuTries, ¬ Skips vmid (ghRmGetIrq x.1 x.2.vcpuIrq) t → ¬ Refuses t.irqRet

instance (vmid : VmId) : DecidablePred (VcpuGoesWell vmid) := fun _ => inferInstanceAs (Decidable (_ ∧ _))

/-- The vCPU is filled in. -/
def Taken (vmid : VmId) (x : ResEntry × EntryAnswers) : Prop :=
  ∃ t ∈ x.2.vcpuTries, ¬ Skips vmid (ghRmGetIrq x.1 x.2.vcpuIrq) t ∧ 0 ≤ t.irqRet ∧ t.ws = true

/-- The second loop gets over an entry of a VM that has a vCPU without an error. -/
def EntryGoesWell (virtio : Bool) (x : ResEntry × EntryAnswers) : Prop :=
  0 ≤ ghRmGetIrq x.1 x.2.irq ∧
  match x.1.resType with
  | .mqTx | .mqRx => 0 ≤ x.1.label.toInt ∧ ∀ t ∈ x.2.tries, t.alloc = true ∧ ¬ Refuses t.irqRet
  | .dbTx => x.1.label.toNat < GH_DBL_LABEL_MAX ∧ ghRmGetIrq x.1 x.2.irq = 0
  | .dbRx =>
    x.1.label.toNat < GH_DBL_LABEL_MAX ∧ 0 < ghRmGetIrq x.1 x.2.irq ∧ ∀ t ∈ x.2.tries, ¬ Refuses t.irqRet
  | .vpmgrp => ∀ t ∈ x.2.tries, ¬ Refuses t.irqRet
  | .virtioMmio => virtio = true → ∀ t ∈ x.2.tries, ¬ Refuses t.virtio
  | .vcpu | .watchdog => True
  | .unknown => False

/-- The vCPUs of a list. -/
def vcpus (res : List (ResEntry × EntryAnswers)) : List (ResEntry × EntryAnswers) :=
  res.filter fun x => x.1.resType = .vcpu

/-- No vCPU is filled in before one that fails. -/
def NoneTaken (vmid : VmId) (res : List (ResEntry × EntryAnswers)) : Prop :=
  ∀ x ∈ (vcpus res).takeWhile fun x => VcpuGoesWell vmid x, ¬ Taken vmid x

/-- Every entry goes well, and there are no more vCPUs than a slot has room for. -/
def AllGoWell (vmid : VmId) (virtio : Bool) (res : List (ResEntry × EntryAnswers)) : Prop :=
  (∀ x ∈ res, (x.1.resType = .vcpu → VcpuGoesWell vmid x) ∧ EntryGoesWell virtio x) ∧
    (vcpus res).length ≤ GH_MAX_VCPUS_PER_VM

/-- The entry is for a message queue. -/
def isMsgq (e : ResEntry) : Prop := e.resType = .mqTx ∨ e.resType = .mqRx

/-- An interrupt of a message queue is refused at least once: the entry of its label
is freed. -/
def FreesQueue (x : ResEntry × EntryAnswers) : Prop := isMsgq x.1 ∧ ∃ t ∈ x.2.tries, t.irqRet < 0

/-- An entry and one after it: they are for different things, and the second does not
free the queue of the first. Doorbells that are sent to may come twice. -/
structure Apart (x y : ResEntry × EntryAnswers) : Prop where
  name : ∀ n, name x.1 = some n → GH.Spec.Rm.name y.1 = some n → ∃ l, n = .dbl l .tx
  vcpu : x.1.resType = .vcpu → y.1.resType = .vcpu → x.1.capId ≠ y.1.capId
  queue : FreesQueue y → isMsgq x.1 → x.1.label ≠ y.1.label

/-- A message queue has an interrupt, if that is granted. -/
def HasIrq (x : ResEntry × EntryAnswers) : Prop :=
  isMsgq x.1 → ghRmGetIrq x.1 x.2.irq ≠ 0 ∨ ∀ t ∈ x.2.tries, t.irqRet < 0

/-- The lists of VMs that are populated name nothing that `res` names. -/
def OwnNames (s : HypRes) (res : List (ResEntry × EntryAnswers)) : Prop :=
  ∀ w p, s.vms w = some p → ∀ e ∈ p.res, ∀ x ∈ res, ∀ n, name e = some n → name x.1 ≠ some n

/-- No queue of a VM that is populated is freed. -/
def FreesNone (s : HypRes) (res : List (ResEntry × EntryAnswers)) : Prop :=
  ∀ w p, s.vms w = some p → ∀ e ∈ p.res, ∀ x ∈ res, isMsgq e → FreesQueue x → e.label ≠ x.1.label

/-- One of the slots is free. -/
def FreeSlot (s : Sched) : Prop := ∃ i, (s.vms i).id = GH_VMID_INVAL

/-- A step that can be undone, or undoes what it should. -/
def Undoable (s : HypRes) : HypResAct → Prop
  | .populate _ (some _) res => OwnNames s res
  | .populate vmid none res =>
    OwnNames s res ∧ FreesNone s res ∧ FreeSlot s.tables.sched ∧ res.Pairwise Apart ∧ (∀ x ∈ res, HasIrq x) ∧
      (s.tables.callbacks.vcpuAffinitySet = true →
        NoneTaken vmid res ∨ AllGoWell vmid s.tables.callbacks.virtioMmio res)
  | .unpopulate vmid =>
    FreeSlot s.tables.sched ∧ ∀ i, (s.tables.sched.vms i).id = vmid → ghGetVm s.tables.sched vmid = i
  | .client _ => True

end GH.Spec.Rm
