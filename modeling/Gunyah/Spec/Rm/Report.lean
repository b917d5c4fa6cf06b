import Gunyah.Impl.Rm.HypRes

/-!
# What populating and unpopulating give back

Populating a list of resources succeeds if nothing fails that is called for one of them
(`Handled`), and is to return 0 then (`Reports`). The value that is returned is that of the last
entry; `KeepsIrq` are the entries whose value is their interrupt.

Unpopulating puts the interrupts that are handed back when the entries are reset (`resets`), each
once, and for its own entry (`PutsRight`).
-/

namespace GH.Spec.Rm

open GH.Impl GH.Impl.Rm

/-! ## Populate -/

/-- The first loop gets over the vCPUs of a list, from `s` to `t`, and nothing fails. -/
inductive VcpusDone (vmid : VmId) : List (ResEntry × EntryAnswers) → Tables → Tables → Prop where
  | nil (s : Tables) : VcpusDone vmid [] s s
  | other {x : ResEntry × EntryAnswers} {res : List (ResEntry × EntryAnswers)} {s t : Tables}
      (hx : x.1.resType ≠ .vcpu) (h : VcpusDone vmid res s t) : VcpusDone vmid (x :: res) s t
  /-- There is no callback for vCPUs. -/
  | unset {x : ResEntry × EntryAnswers} {res : List (ResEntry × EntryAnswers)} {s t : Tables}
      (hx : x.1.resType = .vcpu) (hirq : 0 ≤ ghRmGetIrq x.1 x.2.vcpuIrq) (hcb : s.callbacks.vcpuAffinitySet = false)
      (h : VcpusDone vmid res s t) : VcpusDone vmid (x :: res) s t
  | set {x : ResEntry × EntryAnswers} {res : List (ResEntry × EntryAnswers)} {s s' t : Tables} {ret : Int}
      (hx : x.1.resType = .vcpu) (hirq : 0 ≤ ghRmGetIrq x.1 x.2.vcpuIrq) (hcb : s.callbacks.vcpuAffinitySet = true)
      (hset : retry (populateVcpu vmid x.1 (ghRmGetIrq x.1 x.2.vcpuIrq)) x.2.vcpuTries s = some (s', ret))
      (hret : 0 ≤ ret) (h : VcpusDone vmid res s' t) : VcpusDone vmid (x :: res) s t

/-- The second loop gets over a list, from `s` to `t`, and nothing fails. -/
inductive EntriesDone (vmid : VmId) : List (ResEntry × EntryAnswers) → Tables → Tables → Prop where
  | nil (s : Tables) : EntriesDone vmid [] s s
  | cons {x : ResEntry × EntryAnswers} {res : List (ResEntry × EntryAnswers)} {s s' t : Tables} {ret : Int}
      (hirq : 0 ≤ ghRmGetIrq x.1 x.2.irq)
      (hentry : retry (populateEntry vmid x.1 (ghRmGetIrq x.1 x.2.irq)) x.2.tries s = some (s', ret)) (hret : 0 ≤ ret)
      (h : EntriesDone vmid res s' t) : EntriesDone vmid (x :: res) s t

/-- Every entry is handled without error. -/
def Handled (vmid : VmId) (s : Tables) (res : List (ResEntry × EntryAnswers)) : Prop :=
  ∃ s₁ s₂, VcpusDone vmid res s s₁ ∧ EntriesDone vmid res s₁ s₂

/-- 0 stands for success, and a negative number for a failure. -/
structure Reports (success : Prop) (ret : Int) : Prop where
  ok : success → ret = 0
  fails : ¬ success → ret < 0

/-- `request_irq`, `request_threaded_irq` and the virtio backend return 0, or an error. -/
def NonePositive (res : List (ResEntry × EntryAnswers)) : Prop :=
  ∀ x ∈ res, ∀ t ∈ x.2.tries, t.irqRet ≤ 0 ∧ t.virtio ≤ 0

/-- The `switch` of `gh_rm_populate_hyp_res` does not write `ret`, which is the interrupt of the entry. -/
def KeepsIrq (cb : Callbacks) (e : ResEntry) : Prop :=
  match e.resType with
  | .vcpu => True
  | .vpmgrp => cb.vpmGrpSet = false
  | .virtioMmio => cb.virtioMmio = false
  | .watchdog => cb.wdogManage = false
  | _ => False

/-- No interrupt is left in `ret` by the last entry. -/
def LastWithoutIrq (cb : Callbacks) (res : List (ResEntry × EntryAnswers)) : Prop :=
  ∀ x, res.getLast? = some x → KeepsIrq cb x.1 → ghRmGetIrq x.1 x.2.irq = 0

/-! ## Unpopulate -/

/-- An entry that has been reset without error, and the interrupt that was handed back for it. -/
structure Reset where
  entry : ResEntry
  handed : Option Int

/-- The entries that `gh_rm_unpopulate_hyp_res` resets, after one that gave `ret`. -/
def resets (vmid : VmId) : List ResEntry → Tables → Int → List Reset
  | [], _, _ => []
  | e :: es, s, ret =>
    let (s, ret, irq) := resetEntry vmid e s ret
    if ret < 0 then [] else ⟨e, irq⟩ :: resets vmid es s ret

/-- What was handed back for each entry. -/
def handedBack (rs : List Reset) : List (ResEntry × Int) := rs.filterMap fun r => r.handed.map (r.entry, ·)

/-- The calls of `gh_rm_put_irq` pass an entry with the interrupt handed back for it, and no interrupt
is put twice. 0 is no interrupt: `gh_put_irq` refuses it. -/
structure PutsRight (rs : List Reset) (puts : List (ResEntry × Int)) : Prop where
  paired : puts.Sublist (handedBack rs)
  once : ((puts.map (·.2)).filter (0 < ·)).Nodup

/-- Where nothing is handed back for an entry, the last thing that was handed back before it, if
anything, was no interrupt. -/
def NoneStale (rs : List Reset) : Prop :=
  ∀ before r after, rs = before ++ r :: after → r.handed = none →
    ∀ irq, (before.filterMap (·.handed)).getLast? = some irq → irq < 0

/-- The interrupts that are handed back are different ones. -/
def HandedOnce (rs : List Reset) : Prop := ((rs.filterMap (·.handed)).filter (0 < ·)).Nodup

end GH.Spec.Rm
