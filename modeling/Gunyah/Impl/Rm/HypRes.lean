import Gunyah.Impl.Dbl
import Gunyah.Impl.Msgq.Registry
import Gunyah.Impl.Proxy.Sched

/-!
# The hypervisor resources of a VM

`gh_rm_populate_hyp_res` and `gh_rm_unpopulate_hyp_res` of `gh_rm_core.c`: the
resources that the RM lists for a VM go to the tables of the message queues,
the doorbells and the proxy scheduler, and are taken back from there.

What the allocator, the interrupt core and the virtio backend answer for an
entry comes with the entry (`EntryAnswers`). A loop that is repeated while it
gives `-EAGAIN` has an answer for each of its turns. `msgqIrqs` holds the
interrupts that are requested for an entry of the message queues. The base and
size of a virtio device and the mapping of virtual interrupts are left out.
-/

namespace GH.Impl.Rm

open GH.Impl.Msgq GH.Impl.Dbl GH.Impl.Proxy

/-- The directions of queues and doorbells, and the interrupt of a resource without one. -/
def GH_MSGQ_DIRECTION_TX : Int := 0
def GH_MSGQ_DIRECTION_RX : Int := 1
def GH_RM_RES_TYPE_DB_TX : Int := 0
def GH_RM_RES_TYPE_DB_RX : Int := 1
def GH_RM_NO_IRQ_ALLOC : BitVec 32 := BitVec.allOnes 32

/-- `GH_RM_RES_TYPE_*`. -/
inductive ResType where
  | dbTx
  | dbRx
  | mqTx
  | mqRx
  | vcpu
  | vpmgrp
  | virtioMmio
  | watchdog
  | unknown
  deriving DecidableEq, Repr

/-- `struct gh_vm_get_hyp_res_resp_entry`. -/
structure ResEntry where
  resType : ResType
  label : BitVec 32 := 0
  capIdLow : BitVec 32 := 0
  capIdHigh : BitVec 32 := 0
  virqHandle : BitVec 32 := 0
  virq : BitVec 32 := 0
  deriving DecidableEq, Repr

/-- The capability of an entry, from its two halves. -/
def ResEntry.capId (e : ResEntry) : BitVec 64 := e.capIdHigh.zeroExtend 64 <<< 32 ||| e.capIdLow.zeroExtend 64

/-- The answers in `gh_rm_get_irq`: of `gh_get_virq`, `gh_rm_vm_irq_accept` and
`irq_create_fwspec_mapping`. -/
structure IrqAnswers where
  getVirq : Int := 0
  accept : Int := 0
  irq : Nat := 0

/-- A turn of the loop over a vCPU: what `gh_rm_get_vmid` gives for the VMs that are
scheduled, and what `request_irq` and `wakeup_source_register` answer. -/
structure VcpuTry where
  trustedVm : Except Int VmId
  oemVm : Except Int VmId
  irqRet : Int := 0
  ws : Bool := true

/-- A turn of the loop over another entry: whether an entry can be allocated, and
what `request_irq` and the virtio backend answer. -/
structure EntryTry where
  alloc : Bool := true
  irqRet : Int := 0
  virtio : Int := 0

/-- The answers for an entry, in the two loops. -/
structure EntryAnswers where
  vcpuIrq : IrqAnswers := {}
  vcpuTries : List VcpuTry := []
  irq : IrqAnswers := {}
  tries : List EntryTry := [{}]

/-- The callbacks that are registered. -/
structure Callbacks where
  vcpuAffinitySet : Bool
  vcpuAffinityReset : Bool
  vpmGrpSet : Bool
  vpmGrpReset : Bool
  virtioMmio : Bool
  wdogManage : Bool
  allResPopulated : Bool

/-- The tables of the drivers that a list of resources is entered into. -/
structure Tables where
  msgq : Registry
  msgqIrqs : Addr → List Int
  dbl : Doorbells
  sched : Sched
  callbacks : Callbacks
  /-- The calls of `gh_rm_put_irq`. -/
  puts : List (ResEntry × Int) := []

/-- `gh_rm_get_irq`. -/
def ghRmGetIrq (e : ResEntry) (a : IrqAnswers) : Int :=
  if (e.virqHandle = 0 ∧ e.virq = 0) ∨ e.virq = BitVec.allOnes 32 then 0
  else if e.virq = GH_RM_NO_IRQ_ALLOC then
    if a.getVirq < 0 then a.getVirq
    else if a.accept < 0 then a.accept
    else a.irq
  else a.irq

/-- `do ... while (ret == -EAGAIN)`. The turns are those of the loop: it ends with the
last. -/
def retry {S T : Type} (f : S → T → S × Int) : List T → S → Option (S × Int)
  | [], _ => none
  | t :: ts, s =>
    let r := f s t
    if r.2 = -EAGAIN then retry f ts r.1
    else if ts.isEmpty then some r
    else none

/-! ## Populate -/

/-- `gh_msgq_populate_cap_info`, with the interrupt. -/
def populateMsgq (s : Tables) (p : Populate) : Tables × Int :=
  let (msgq, ret) := ghMsgqPopulateCapInfo s.msgq p
  match msgq.find p.label with
  | some a =>
    if ret = 0 then
      ({ s with msgq := msgq, msgqIrqs := Function.update s.msgqIrqs a (p.irq :: s.msgqIrqs a) }, ret)
    else ({ s with msgq := msgq }, ret)
  | none => ({ s with msgq := msgq }, ret)

/-- `gh_dbl_populate_cap_info` on the tables. -/
def populateDbl (s : Tables) (label : BitVec 32) (capId : BitVec 64) (direction rxIrq irqRet : Int) : Tables × Int :=
  let (dbl, ret) := ghDblPopulateCapInfo s.dbl label capId direction rxIrq irqRet
  ({ s with dbl := dbl }, ret)

/-- The callback for a vCPU. -/
def populateVcpu (vmid : VmId) (e : ResEntry) (linuxIrq : Int) (s : Tables) (t : VcpuTry) : Tables × Int :=
  let (sched, ret) := ghPopulateVmVcpuInfo s.sched
    { vmid := vmid, cpuIdx := e.label, capId := e.capId, virqNum := linuxIrq,
      trustedVm := t.trustedVm, oemVm := t.oemVm, irqRet := t.irqRet, ws := t.ws }
  ({ s with sched := sched }, ret)

/-- The first loop of `gh_rm_populate_hyp_res`: it ends at the first error. -/
def populateVcpus (vmid : VmId) : List (ResEntry × EntryAnswers) → Tables → Int → Option (Tables × Int)
  | [], s, ret => some (s, ret)
  | (e, a) :: es, s, ret =>
    if e.resType = .vcpu then
      let linuxIrq := ghRmGetIrq e a.vcpuIrq
      if linuxIrq < 0 then some (s, linuxIrq)
      else do
        let (s, ret) ←
          if s.callbacks.vcpuAffinitySet then retry (populateVcpu vmid e linuxIrq) a.vcpuTries s
          else some (s, linuxIrq)
        if ret < 0 then some (s, ret) else populateVcpus vmid es s ret
    else populateVcpus vmid es s ret

/-- The `switch` of the second loop. -/
def populateEntry (vmid : VmId) (e : ResEntry) (linuxIrq : Int) (s : Tables) (t : EntryTry) : Tables × Int :=
  match e.resType with
  | .mqTx =>
    populateMsgq s { label := e.label.toInt, capId := e.capId, direction := GH_MSGQ_DIRECTION_TX, irq := linuxIrq,
                     alloc := t.alloc, irqRet := t.irqRet }
  | .mqRx =>
    populateMsgq s { label := e.label.toInt, capId := e.capId, direction := GH_MSGQ_DIRECTION_RX, irq := linuxIrq,
                     alloc := t.alloc, irqRet := t.irqRet }
  | .vcpu => (s, linuxIrq)
  | .dbTx => populateDbl s e.label e.capId GH_MSGQ_DIRECTION_TX linuxIrq t.irqRet
  | .dbRx => populateDbl s e.label e.capId GH_MSGQ_DIRECTION_RX linuxIrq t.irqRet
  | .vpmgrp =>
    if s.callbacks.vpmGrpSet then
      let (sched, ret) := ghPopulateVmVpmGrpInfo s.sched vmid e.capId linuxIrq t.irqRet
      ({ s with sched := sched }, ret)
    else (s, linuxIrq)
  | .virtioMmio => if s.callbacks.virtioMmio then (s, t.virtio) else (s, linuxIrq)
  | .watchdog =>
    if s.callbacks.wdogManage then
      let (sched, ret) := ghWdogManage s.sched vmid e.capId true
      ({ s with sched := sched }, ret)
    else (s, linuxIrq)
  | .unknown => (s, -EINVAL)

/-- The second loop of `gh_rm_populate_hyp_res`. -/
def populateEntries (vmid : VmId) : List (ResEntry × EntryAnswers) → Tables → Int → Option (Tables × Int)
  | [], s, ret => some (s, ret)
  | (e, a) :: es, s, _ =>
    let linuxIrq := ghRmGetIrq e a.irq
    if linuxIrq < 0 then some (s, linuxIrq)
    else do
      let (s, ret) ← retry (populateEntry vmid e linuxIrq) a.tries s
      if ret < 0 then some (s, ret) else populateEntries vmid es s ret

/-- `gh_all_res_populated_fn`. -/
def allResPopulated (vmid : VmId) (b : Bool) (s : Tables) : Tables :=
  if s.callbacks.allResPopulated then { s with sched := ghPopulateAllResInfo s.sched vmid b } else s

/-- `gh_rm_populate_hyp_res`. `query` is the error of `gh_rm_vm_get_hyp_res`, and
`res` what it gives otherwise. `none` where a loop has not ended. -/
def ghRmPopulateHypRes (s : Tables) (vmid : VmId) (query : Option Int) (res : List (ResEntry × EntryAnswers)) :
    Option (Tables × Int) :=
  match query with
  | some ret => some (s, ret)
  | none => do
    let (s, ret) ← populateVcpus vmid res s 0
    if ret < 0 then some (s, ret)
    else do
      let (s, ret) ← populateEntries vmid res s ret
      if ret < 0 then some (s, ret) else some (allResPopulated vmid true s, ret)

/-! ## Unpopulate -/

/-- `gh_msgq_reset_cap_info`, with the interrupt. -/
def resetMsgq (s : Tables) (label direction : Int) : Tables × Int × Option Int :=
  let (msgq, ret, irq) := ghMsgqResetCapInfo s.msgq label direction true
  match s.msgq.find label, irq with
  | some a, some i =>
    ({ s with msgq := msgq, msgqIrqs := Function.update s.msgqIrqs a ((s.msgqIrqs a).erase i) }, ret, irq)
  | _, _ => ({ s with msgq := msgq }, ret, irq)

/-- `gh_dbl_reset_cap_info` on the tables. -/
def resetDbl (s : Tables) (label : BitVec 32) (direction : Int) : Tables × Int × Option Int :=
  let (dbl, ret, irq) := ghDblResetCapInfo s.dbl label direction true
  ({ s with dbl := dbl }, ret, irq)

/-- The `switch` of `gh_rm_unpopulate_hyp_res`; `ret` is that of the entry before. -/
def resetEntry (vmid : VmId) (e : ResEntry) (s : Tables) (ret : Int) : Tables × Int × Option Int :=
  match e.resType with
  | .mqTx => resetMsgq s e.label.toInt GH_MSGQ_DIRECTION_TX
  | .mqRx => resetMsgq s e.label.toInt GH_MSGQ_DIRECTION_RX
  | .dbTx => resetDbl s e.label GH_RM_RES_TYPE_DB_TX
  | .dbRx => resetDbl s e.label GH_RM_RES_TYPE_DB_RX
  | .vcpu =>
    if s.callbacks.vcpuAffinityReset then
      let (sched, ret, irq) := ghUnpopulateVmVcpuInfo s.sched vmid e.capId
      ({ s with sched := sched }, ret, irq)
    else (s, ret, none)
  | .virtioMmio => (s, ret, none)
  | .vpmgrp =>
    if s.callbacks.vpmGrpReset then
      let (sched, ret, irq) := ghUnpopulateVmVpmGrpInfo s.sched vmid
      ({ s with sched := sched }, ret, irq)
    else (s, ret, none)
  | .watchdog =>
    if s.callbacks.wdogManage then
      let (sched, ret) := ghWdogManage s.sched vmid e.capId false
      ({ s with sched := sched }, ret, none)
    else (s, ret, none)
  | .unknown => (s, -EINVAL, none)

/-- The loop of `gh_rm_unpopulate_hyp_res`: it ends at the first error. `irq` keeps
what an entry before has stored. -/
def resetEntries (vmid : VmId) : List ResEntry → Tables → Int → Int → Tables × Int
  | [], s, ret, _ => (s, ret)
  | e :: es, s, ret, irq =>
    let (s, ret, irq') := resetEntry vmid e s ret
    let irq := irq'.getD irq
    if ret < 0 then (s, ret)
    else
      let s := if irq ≥ 0 then { s with puts := s.puts ++ [(e, irq)] } else s
      resetEntries vmid es s ret irq

/-- `gh_rm_unpopulate_hyp_res`. -/
def ghRmUnpopulateHypRes (s : Tables) (vmid : VmId) (query : Option Int) (res : List ResEntry) : Tables × Int :=
  match query with
  | some ret => (s, ret)
  | none =>
    let (s, ret) := resetEntries vmid res s 0 (-1)
    if ret < 0 then (s, ret) else (allResPopulated vmid false s, ret)

end GH.Impl.Rm
