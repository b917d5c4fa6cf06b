import Mathlib.Data.List.InsertIdx
import Gunyah.Framework.Run
import Gunyah.Framework.Refs
import Gunyah.Proof.Virtio.Events
import Gunyah.Spec.Virtio.Refs

/-!
# Reference counts of devices

What a step does to the counts and to the operations that hold a device
(`Effect`): it takes a reference, puts one with its operation, leaves both as
they are, or adds a device; `GH_ACK_RESET` on a device without a capability
returns without its put, and a probe of a label that is there puts a reference
it does not have. Over runs, the counts are right exactly when neither happens
(`refs_iff`).
-/

namespace GH.Proof.Virtio

open GH.Impl GH.Impl.Virtio GH.Spec.Virtio

/-! ## Commands -/

@[simp] theorem vbDevPut_refcount (d : VbDev) : (vbDevPut d).refcount = d.refcount - 1 := rfl

theorem irqfd_refcount (d : VbDev) (file : Option (Except Int Addr)) :
    (vbDevIrqfd d file).1.refcount = d.refcount := by
  unfold vbDevIrqfd
  split
  · rfl
  split <;> rfl

theorem ioeventfd_keeps_refcount (d : VbDev) (i : Queue) (fd : Int) (ctx : Except Int Addr) :
    (vbDevIoeventfd d i fd ctx).1.refcount = d.refcount := by
  rw [ioeventfd_dev]

theorem setConfigSection_refcount (d : VbDev) (c : VirtioConfigData) (page copied : Bool) :
    (setConfigSection d c page copied).1.refcount = d.refcount - 1 := by
  unfold setConfigSection
  repeat' split
  all_goals rfl

theorem mmioInitBody_spec (vm : VirtMachine) (d : VbDev) (m : MmioInit) :
    (mmioInitBody vm d m).1.devs = vm.devs ∧ (mmioInitBody vm d m).2.1.refcount = d.refcount - 1 := by
  have hun : ∀ v : VirtMachine, (unshareVmBuffers v m.unshare).devs = v.devs := by
    intro v
    unfold unshareVmBuffers
    repeat' split
    all_goals rfl
  unfold mmioInitBody
  split
  · exact ⟨rfl, rfl⟩
  simp only
  split
  · exact ⟨hun _, rfl⟩
  split
  · exact ⟨hun _, rfl⟩
  · exact ⟨rfl, rfl⟩

theorem copyFromUser_ok {α β : Type} {o : Option α} {f : α → Except Int β} {b : β}
    (h : copyFromUser o >>= f = .ok b) : ∃ a, o = some a := by
  cases o with
  | none => cases h
  | some a => exact ⟨a, rfl⟩

/-- A command that has a device puts it on every path, but for `GH_ACK_RESET`
without a capability. -/
theorem body_puts {cmd : Cmd} {label : BitVec 32} (hl : cmd.label = .ok label) (hc : cmd.call = .ioctl cmd) (d : VbDev) :
    (∃ r, cmd = .ackReset r) ∧ d.capId = 0 ∧ (cmd.body d).1.refcount = d.refcount ∨
      ¬ ((∃ r, cmd = .ackReset r) ∧ d.capId = 0) ∧ (cmd.body d).1.refcount = d.refcount - 1 := by
  cases cmd with
  | getSharedMemorySize copied => cases hl
  | ioeventfd efd ctx =>
    obtain ⟨efd, rfl⟩ := copyFromUser_ok hl
    exact .inr ⟨nofun, by simp [Cmd.body, ioeventfd_keeps_refcount]⟩
  | irqfd ifd file =>
    obtain ⟨ifd, rfl⟩ := copyFromUser_ok hl
    exact .inr ⟨nofun, by simp [Cmd.body, irqfd_refcount]⟩
  | waitForEvent label copied => cases hc
  | getDriverFeatures df ret copied =>
    obtain ⟨df, rfl⟩ := copyFromUser_ok hl
    refine .inr ⟨nofun, ?_⟩
    simp only [Cmd.body]
    split <;> rfl
  | getQueueInfo qi ret copied =>
    obtain ⟨qi, rfl⟩ := copyFromUser_ok hl
    refine .inr ⟨nofun, ?_⟩
    simp only [Cmd.body]
    split <;> rfl
  | ackDriverOk label => exact .inr ⟨nofun, rfl⟩
  | ackReset r =>
    obtain ⟨l, rfl⟩ := copyFromUser_ok hl
    by_cases hcap : d.capId = 0
    · refine .inl ⟨⟨_, rfl⟩, hcap, ?_⟩
      simp only [Cmd.body]
      rw [if_pos hcap]
    · refine .inr ⟨fun h => hcap h.2, ?_⟩
      simp only [Cmd.body]
      rw [if_neg hcap]
      rfl
  | setDeviceFeatures f ret =>
    obtain ⟨f, rfl⟩ := copyFromUser_ok hl
    refine .inr ⟨nofun, ?_⟩
    simp only [Cmd.body]
    split <;> rfl
  | setQueueNumMax q ret =>
    obtain ⟨q, rfl⟩ := copyFromUser_ok hl
    refine .inr ⟨nofun, ?_⟩
    simp only [Cmd.body]
    split <;> rfl
  | getDriverConfigData c left =>
    obtain ⟨c, rfl⟩ := copyFromUser_ok hl
    refine .inr ⟨nofun, ?_⟩
    simp only [Cmd.body]
    repeat' split
    all_goals rfl
  | setDeviceConfigData c page copied =>
    obtain ⟨c, rfl⟩ := copyFromUser_ok hl
    exact .inr ⟨nofun, setConfigSection_refcount d c page copied⟩
  | setInputDeviceConfigData label ret =>
    obtain ⟨l, rfl⟩ := copyFromUser_ok hl
    refine .inr ⟨nofun, ?_⟩
    simp only [Cmd.body]
    split <;> rfl
  | setInputDeviceData label ret =>
    obtain ⟨l, rfl⟩ := copyFromUser_ok hl
    refine .inr ⟨nofun, ?_⟩
    simp only [Cmd.body]
    split <;> rfl
  | other => cases hl

/-! ## Counts and holders -/

/-- The count of each device. -/
def counts (s : Backend) (k : FwName × BitVec 32) : Option (BitVec 32) := (s.dev k.1 k.2).map VbDev.refcount

/-- The device that an operation holds a reference to. -/
def opKey (op : Op) : FwName × BitVec 32 := (op.name, op.label)

/-- The devices that the operations hold. -/
def holders (s : Backend) : List (FwName × BitVec 32) := s.ops.map opKey

theorem refsCounted_iff {s : Backend} : RefsCounted s ↔ Refs.Right (counts s) (holders s) := by
  have hcount : ∀ k, holding s k.1 k.2 = (holders s).countP (· = k) := by
    intro k
    rw [holding, holders, ← List.countP_eq_length_filter, List.countP_map]
    refine List.countP_congr fun op _ => ?_
    rw [Function.comp_apply, decide_eq_true_iff, decide_eq_true_iff]
    rw [opKey, Prod.ext_iff]
  constructor
  · rintro h ⟨name, label⟩ r hr
    obtain ⟨d, hd, rfl⟩ := Option.map_eq_some_iff.mp hr
    rw [h name label d hd]
    exact hcount (name, label)
  · intro h name label d hd
    rw [hcount (name, label)]
    exact h (name, label) d.refcount (by rw [counts, hd]; rfl)

theorem counts_congr {s t : Backend} (h : t.vms = s.vms) : counts t = counts s := by
  funext k
  rw [counts, counts, Backend.dev, Backend.dev, h]

theorem counts_of_dev {s : Backend} {name : FwName} {label : BitVec 32} {vm : VirtMachine} {d : VbDev}
    (hvm : s.vms name = some vm) (hd : vm.devs label = some d) : counts s (name, label) = some d.refcount := by
  simp [counts, Backend.dev, hvm, hd]

/-- A device is written back. -/
theorem counts_setDev {s t : Backend} {name : FwName} {label : BitVec 32} {vm vm' : VirtMachine} {d : VbDev}
    (hvm : s.vms name = some vm) (hdevs : vm'.devs = vm.devs)
    (ht : t.vms = Function.update s.vms name (some (vm'.setDev label d))) :
    counts t = Function.update (counts s) (name, label) (some d.refcount) := by
  funext ⟨n, l⟩
  by_cases hn : n = name
  · subst hn
    by_cases hl : l = label
    · simp [counts, Backend.dev, ht, VirtMachine.setDev, hl]
    · rw [Function.update_of_ne (by simp [hl])]
      simp [counts, Backend.dev, ht, hvm, VirtMachine.setDev, hl, hdevs]
  · rw [Function.update_of_ne (by simp [hn])]
    simp [counts, Backend.dev, ht, hn]

/-- A device is written back with the same count. -/
theorem counts_setDev_same {s t : Backend} {name : FwName} {label : BitVec 32} {vm : VirtMachine} {d d' : VbDev}
    (hvm : s.vms name = some vm) (hd : vm.devs label = some d) (hr : d'.refcount = d.refcount)
    (ht : t.vms = Function.update s.vms name (some (vm.setDev label d'))) : counts t = counts s := by
  rw [counts_setDev hvm rfl ht, hr, ← counts_of_dev hvm hd, Function.update_eq_self]

theorem op_some {s : Backend} {i : Nat} {op : Op} {vm : VirtMachine} {d : VbDev} (h : s.op i = some (op, vm, d)) :
    s.ops[i]? = some op ∧ s.vms op.name = some vm ∧ vm.devs op.label = some d := by
  simp only [Backend.op, bind, Option.bind_eq_some_iff] at h
  obtain ⟨op', hop, vm', hvm, d', hd, h⟩ := h
  cases h
  exact ⟨hop, hvm, hd⟩

/-! ## Steps -/

/-- What a step does to the counts and the holders. -/
inductive Effect (s : Backend) (act : BackendAct) (t : Backend) : Prop where
  | same (hb : Balanced s act) (hc : counts t = counts s) (hh : holders t = holders s)
  | take {k : FwName × BitVec 32} {r : BitVec 32} (hb : Balanced s act) (hk : counts s k = some r)
      (hr : r < BitVec.allOnes 32) (hc : counts t = Function.update (counts s) k (some (r + 1)))
      (hh : holders t = holders s ++ [k])
  | put {k : FwName × BitVec 32} {r : BitVec 32} {i : Nat} (hb : Balanced s act) (hk : counts s k = some r)
      (hi : (holders s)[i]? = some k) (hc : counts t = Function.update (counts s) k (some (r - 1)))
      (hh : holders t = (holders s).eraseIdx i)
  | add {k : FwName × BitVec 32} (hb : Balanced s act) (hk : counts s k = none)
      (hc : counts t = Function.update (counts s) k (some 0)) (hh : holders t = holders s)
  /-- An operation returns without its put. -/
  | leak {k : FwName × BitVec 32} {r : BitVec 32} {i : Nat} (hb : ¬ Balanced s act) (hk : counts s k = some r)
      (hi : (holders s)[i]? = some k) (hc : counts t = counts s) (hh : holders t = (holders s).eraseIdx i)
  /-- A put without an operation. -/
  | steal {k : FwName × BitVec 32} {r : BitVec 32} (hb : ¬ Balanced s act) (hk : counts s k = some r)
      (hc : counts t = Function.update (counts s) k (some (r - 1))) (hh : holders t = holders s)

/-- The commands of the operations have passed their checks. -/
def OpsOk (s : Backend) : Prop :=
  ∀ op ∈ s.ops, ∀ cmd, op.call = .ioctl cmd → cmd.label = .ok op.label ∧ cmd.call = .ioctl cmd

theorem get_effect {s : Backend} {act : BackendAct} {vm : VirtMachine} {op : Op} {v : Int} (hb : Balanced s act)
    (hvm : s.vms op.name = some vm) : Effect s act (s.get vm op v) := by
  unfold Backend.get
  split
  · exact .same hb (counts_congr rfl) rfl
  · rename_i d hd
    obtain ⟨d₀, hd₀, hget⟩ := Option.bind_eq_some_iff.mp hd
    obtain ⟨hr, rfl⟩ := vbDevGet_some hget
    refine .take hb (counts_of_dev hvm hd₀) hr
      (counts_setDev (d := { d₀ with refcount := d₀.refcount + 1 }) hvm rfl rfl) ?_
    simp [holders, opKey]

theorem done_holders {s : Backend} {i : Nat} {op : Op} {vm : VirtMachine} {d : VbDev} {v : Int} :
    holders (s.done i op vm d v) = (holders s).eraseIdx i := by
  simp only [holders, Backend.done]
  exact (List.eraseIdx_map ..).symm

theorem go_holders {s : Backend} {i : Nat} {op : Op} {vm : VirtMachine} {d : VbDev} {call : Call}
    (hop : s.ops[i]? = some op) : holders (s.go i op vm d call) = holders s := by
  obtain ⟨hi, rfl⟩ := List.getElem?_eq_some_iff.mp hop
  simp only [holders, Backend.go, List.map_set]
  have hkey : opKey { s.ops[i] with call := call } = opKey s.ops[i] := rfl
  rw [hkey, ← List.map_set, List.set_getElem_self]

/-- A probe that has its VM, in a state `s'` with the counts and holders of `s`. -/
theorem probeVm_effect {s s' : Backend} {act : BackendAct} {name : FwName} {vm : VirtMachine} {label : BitVec 32}
    {alloc : Bool} {v : Int} (hc : counts s' = counts s) (hh : holders s' = holders s) (hvm : s'.vms name = some vm)
    (hb : Balanced s act ↔ vm.devs label = none) : Effect s act ((probeVm s' name vm label alloc).1.ret v) := by
  unfold probeVm
  split
  · rename_i d hd
    refine .steal (k := (name, label)) (fun h => ?_) (hc ▸ counts_of_dev hvm hd)
      (hc ▸ counts_setDev (d := vbDevPut d) hvm rfl rfl) hh
    rw [hb, hd] at h
    cases h
  · rename_i hd
    have hbal := hb.mpr hd
    split
    · exact .same hbal hc hh
    · refine .add (k := (name, label)) hbal ?_ (hc ▸ counts_setDev (d := { label := label }) hvm rfl rfl) hh
      rw [← hc]
      simp [counts, Backend.dev, hvm, hd]

/-- A VM without devices changes no count. -/
theorem counts_newVm {s : Backend} {name : FwName} {size : BitVec 64} (h : s.vms name = none) :
    counts (s.setVm name { shmemSize := size }) = counts s := by
  funext ⟨n, l⟩
  by_cases hn : n = name
  · subst hn
    simp [counts, Backend.dev, Backend.setVm, h]
  · simp [counts, Backend.dev, Backend.setVm, hn]

theorem probe_effect (s : Backend) (name : FwName) (p : Probe) (v : Int) :
    Effect s (.probe name p) ((ghVirtioBackendProbe s name p).1.ret v) := by
  unfold ghVirtioBackendProbe
  split
  · rename_i hvm
    exact .same (fun h => absurd (hvm.symm.trans h) (by decide)) (counts_congr rfl) rfl
  split
  · rename_i hlen
    exact .same (fun _ h => absurd h (Nat.not_lt.mpr hlen)) (counts_congr rfl) rfl
  rename_i hp hlen
  split
  · rename_i hl
    exact .same (fun _ _ l h => nomatch hl.symm.trans h) (counts_congr rfl) rfl
  rename_i label hl
  split
  · rename_i h₀
    refine .same (fun _ _ l h hne => ?_) (counts_congr rfl) rfl
    cases hl.symm.trans h
    exact absurd h₀ hne
  rename_i hne
  have hb : Balanced s (.probe name p) ↔ s.dev name label = none := by
    constructor
    · intro h
      exact h (by simpa using hp) (Nat.not_le.mp hlen) label hl hne
    · intro h _ _ l h' _
      cases hl.symm.trans h'
      exact h
  split
  · rename_i vm hvm
    refine probeVm_effect rfl rfl hvm (hb.trans ?_)
    simp [Backend.dev, hvm]
  · rename_i hvm
    split
    · refine .same (hb.mpr ?_) (counts_congr rfl) rfl
      simp [Backend.dev, hvm]
    · refine probeVm_effect (counts_newVm hvm) rfl (Function.update_self ..) (hb.trans ?_)
      simp [Backend.dev, hvm]

/-- An operation returns with its put. -/
theorem done_effect {s : Backend} {act : BackendAct} {i : Nat} {op : Op} {vm vm' : VirtMachine} {d d' : VbDev} {v : Int}
    (hb : Balanced s act) (hop : s.op i = some (op, vm, d)) (hdevs : vm'.devs = vm.devs)
    (hr : d'.refcount = d.refcount - 1) : Effect s act (s.done i op vm' d' v) := by
  obtain ⟨hi, hvm, hd⟩ := op_some hop
  refine .put (k := opKey op) (i := i) hb (counts_of_dev hvm hd) ?_ ?_ done_holders
  · rw [holders, List.getElem?_map, hi]
    rfl
  · rw [← hr]
    exact counts_setDev hvm hdevs rfl

theorem go_effect {s : Backend} {act : BackendAct} {i : Nat} {op : Op} {vm : VirtMachine} {d d' : VbDev} {call : Call}
    (hb : Balanced s act) (hop : s.op i = some (op, vm, d)) (hr : d'.refcount = d.refcount) :
    Effect s act (s.go i op vm d' call) := by
  obtain ⟨hi, hvm, hd⟩ := op_some hop
  exact .same hb (counts_setDev_same hvm hd hr rfl) (go_holders hi)

theorem handOver_refcount (d : VbDev) (ackReg : BitVec 32) : (handOver d ackReg).refcount = d.refcount := by
  unfold handOver
  split <;> rfl

theorem waitSection_refcount (d : VbDev) (ackReg : BitVec 32) : (waitSection d ackReg).1.refcount = d.refcount := by
  simp only [waitSection]
  cases waitBranch d.vdevEvent with
  | driverOk =>
    simp only
    split <;> rfl
  | newBuffer =>
    simp only [waitNewBuffer]
    rw [handOver_refcount, signalAcked_dev]
  | exit => rfl
  | resetRqst => rfl
  | interruptAck => rfl
  | nothing => rfl

theorem vdevInterrupt_refcount (d : VbDev) (event eventData : BitVec 64) :
    (vdevInterrupt d event eventData).1.refcount = d.refcount := by
  unfold vdevInterrupt
  split
  · simp only
    split
    · rw [signalVqs_dev]
    · rw [signalVqs_dev]
  · rfl

/-! ## Operations keep their commands -/

theorem call_ioctl {cmd cmd' : Cmd} (h : cmd.call = .ioctl cmd') : cmd' = cmd := by
  cases cmd with
  | waitForEvent label copied => cases h
  | _ =>
    cases h
    rfl

theorem OpsOk.get {s : Backend} {vm : VirtMachine} {op : Op} {v : Int} (h : OpsOk s)
    (hop : ∀ cmd, op.call = .ioctl cmd → cmd.label = .ok op.label ∧ cmd.call = .ioctl cmd) : OpsOk (s.get vm op v) := by
  unfold Backend.get
  split
  · exact h
  · intro op' hmem
    rcases List.mem_append.mp hmem with hmem | hmem
    · exact h op' hmem
    · cases List.mem_singleton.mp hmem
      exact hop

theorem OpsOk.go {s : Backend} {i : Nat} {op : Op} {vm : VirtMachine} {d : VbDev} {copied : Bool} {pc : WaitPc}
    (h : OpsOk s) : OpsOk (s.go i op vm d (.wait copied pc)) := by
  intro op' hmem
  rcases List.mem_or_eq_of_mem_set hmem with hmem | rfl
  · exact h op' hmem
  · exact fun cmd hcall => nomatch hcall

theorem OpsOk.done {s : Backend} {i : Nat} {op : Op} {vm : VirtMachine} {d : VbDev} {v : Int} (h : OpsOk s) :
    OpsOk (s.done i op vm d v) :=
  fun op' hmem => h op' (List.mem_of_mem_eraseIdx hmem)

theorem probe_ops (s : Backend) (name : FwName) (p : Probe) : (ghVirtioBackendProbe s name p).1.ops = s.ops := by
  have hvm : ∀ (s' : Backend) (vm : VirtMachine) (label : BitVec 32),
      (probeVm s' name vm label p.alloc).1.ops = s'.ops := by
    intro s' vm label
    unfold probeVm
    repeat' split
    all_goals rfl
  unfold ghVirtioBackendProbe
  split
  · rfl
  split
  · rfl
  split
  · rfl
  split
  · rfl
  split
  · exact hvm _ _ _
  split
  · rfl
  · exact hvm _ _ _

/-! ## The step function -/

/-- The last part of an operation. -/
theorem finish_effect {s t : Backend} {i : Nat} {op : Op} {vm : VirtMachine} {d : VbDev} (hok : OpsOk s)
    (hop : s.op i = some (op, vm, d)) (h : finishOp s i op vm d = some t) : Effect s (.finish i) t ∧ OpsOk t := by
  obtain ⟨hi, hvm, hd⟩ := op_some hop
  -- what the condition says of this operation
  have hb : (∀ r, op.call = .ioctl (.ackReset r) → d.capId ≠ 0) → Balanced s (.finish i) := by
    intro hc op' vm' d' r hop' hcall
    cases hop.symm.trans hop'
    exact hc r hcall
  unfold finishOp at h
  split at h
  · rename_i cmd hcall
    obtain ⟨hl, hc⟩ := hok op (List.mem_of_getElem? hi) cmd hcall
    cases h
    refine ⟨?_, hok.done⟩
    rcases body_puts hl hc d with ⟨⟨r, rfl⟩, hcap, hr⟩ | ⟨hno, hr⟩
    · refine .leak (k := opKey op) (i := i) (fun hn => hn op vm d r hop hcall hcap) (counts_of_dev hvm hd) ?_
        (counts_setDev_same hvm hd hr rfl) done_holders
      rw [holders, List.getElem?_map, hi]
      rfl
    · refine done_effect (hb fun r hr' hcap => hno ⟨⟨r, ?_⟩, hcap⟩) hop rfl hr
      rw [hcall] at hr'
      cases hr'
      rfl
  · rename_i m hcall
    cases h
    obtain ⟨hdevs, hr⟩ := mmioInitBody_spec vm d m
    exact ⟨done_effect (hb fun r hr' => nomatch hcall.symm.trans hr') hop hdevs hr, hok.done⟩
  · rename_i copied hcall
    have hbal := hb fun r hr' => nomatch hcall.symm.trans hr'
    split at h
    · cases h
      exact ⟨go_effect hbal hop rfl, hok.go⟩
    · cases h
      exact ⟨done_effect hbal hop rfl rfl, hok.done⟩
  · cases h

theorem backendStep_effect {s t : Backend} {act : BackendAct} (hok : OpsOk s) (h : backendStep s act = some t) :
    Effect s act t ∧ OpsOk t := by
  cases act with
  | ioctl name cmd =>
    cases h
    unfold ghVirtioBackendIoctl
    split
    · exact ⟨.same trivial (counts_congr rfl) rfl, hok⟩
    · rename_i vm hvm
      split
      · exact ⟨.same trivial (counts_congr rfl) rfl, hok⟩
      · rename_i label hl
        refine ⟨get_effect trivial hvm, hok.get fun cmd' hcall => ?_⟩
        cases call_ioctl hcall
        exact ⟨hl, hcall⟩
  | mmioInit name m =>
    cases h
    unfold ghVirtioMmioInit
    split
    · exact ⟨.same trivial (counts_congr rfl) rfl, hok⟩
    · rename_i vm hvm
      split
      · exact ⟨.same trivial (counts_congr rfl) rfl, hok⟩
      · exact ⟨get_effect trivial hvm, hok.get fun cmd hcall => nomatch hcall⟩
  | probe name p =>
    cases h
    exact ⟨probe_effect s name p _, fun op hmem => hok op (probe_ops s name p ▸ hmem)⟩
  | interrupt name label event eventData =>
    simp only [backendStep, bind, Option.bind_eq_some_iff] at h
    obtain ⟨vm, hvm, d, hd, h⟩ := h
    split at h
    · cases h
    · cases h
      exact ⟨.same trivial (counts_setDev_same hvm hd (vdevInterrupt_refcount d event eventData) rfl) rfl, hok⟩
  | turn i ackReg =>
    simp only [backendStep, bind, Option.bind_eq_some_iff] at h
    obtain ⟨⟨op, vm, d⟩, hop, h⟩ := h
    split at h
    · rename_i copied pc hcall
      obtain ⟨⟨d', pc'⟩, hturn, h⟩ := Option.bind_eq_some_iff.mp h
      cases h
      refine ⟨go_effect trivial hop ?_, hok.go⟩
      cases pc with
      | loopBack =>
        simp only [waitTurn] at hturn
        split at hturn
        · cases hturn
          rfl
        · cases hturn
      | lock =>
        cases hturn
        exact waitSection_refcount d ackReg
      | check => cases hturn
      | out => cases hturn
    · cases h
  | interrupted i =>
    simp only [backendStep, bind, Option.bind_eq_some_iff] at h
    obtain ⟨⟨op, vm, d⟩, hop, h⟩ := h
    split at h
    · split at h
      · cases h
      · cases h
        exact ⟨done_effect trivial hop rfl rfl, hok.done⟩
    · cases h
  | finish i =>
    simp only [backendStep, bind, Option.bind_eq_some_iff] at h
    obtain ⟨⟨op, vm, d⟩, hop, h⟩ := h
    exact finish_effect hok hop h

/-! ## Runs -/

/-- The counts are those of the operations, and these are on devices that are there. -/
structure RefsOk (s : Backend) : Prop where
  counted : Refs.Counted (counts s) (holders s)
  ops : OpsOk s

/-- A step keeps the counts right exactly when it is balanced. -/
theorem step_refs (s : Backend) (act : BackendAct) (t : Backend) (h : RefsOk s) (hs : backendStep s act = some t) :
    RefsCounted t ↔ Balanced s act := by
  rw [refsCounted_iff]
  cases (backendStep_effect h.ops hs).1 with
  | same hb hc hh => exact iff_of_true (by rw [hc, hh]; exact h.counted.right) hb
  | take hb hk hr hc hh => exact iff_of_true (by rw [hc, hh]; exact (h.counted.take hk hr).right) hb
  | put hb hk hi hc hh => exact iff_of_true (by rw [hc, hh]; exact (h.counted.put hk hi).right) hb
  | add hb hk hc hh => exact iff_of_true (by rw [hc, hh]; exact (h.counted.add hk).right) hb
  | leak hb hk hi hc hh => exact iff_of_false (by rw [hc, hh]; exact h.counted.right.not_leak hk hi) hb
  | steal hb hk hc hh => exact iff_of_false (by rw [hc, hh]; exact h.counted.right.not_steal (by decide) hk) hb

theorem step_refsOk (s : Backend) (act : BackendAct) (t : Backend) (h : RefsOk s) (hs : backendStep s act = some t)
    (hb : Balanced s act) : RefsOk t := by
  obtain ⟨heff, hops⟩ := backendStep_effect h.ops hs
  refine ⟨?_, hops⟩
  cases heff with
  | same _ hc hh => rw [hc, hh]; exact h.counted
  | take _ hk hr hc hh => rw [hc, hh]; exact h.counted.take hk hr
  | put _ hk hi hc hh => rw [hc, hh]; exact h.counted.put hk hi
  | add _ hk hc hh => rw [hc, hh]; exact h.counted.add hk
  | leak hn hk hi hc hh => exact absurd hb hn
  | steal hn hk hc hh => exact absurd hb hn

/-- In a run, the count of every device is the number of operations that hold it
exactly when every step is balanced. -/
theorem refs_iff (as : List BackendAct) :
    Always backendStep RefsCounted .init as ↔ Each backendStep (fun s act _ => Balanced s act) .init as := by
  have h₀ : RefsOk .init := ⟨Refs.counted_nil, fun _ h => nomatch h⟩
  exact always_iff step_refsOk step_refs h₀ (refsCounted_iff.mpr h₀.counted.right)

/-- `GH_ACK_RESET` on a device that has been probed and not initialised returns
with its reference. -/
theorem ackReset_keeps_reference :
    ¬ Always backendStep RefsCounted .init
      [.probe [0x76] { vm := true, label := some 1, newVm := some 0x1000, alloc := true },
        .ioctl [0x76] (.ackReset (some 1)), .finish 0] := by
  intro h
  obtain ⟨t, d, ht, hd, hne⟩ : ∃ t d, exec backendStep .init
      [.probe [0x76] { vm := true, label := some 1, newVm := some 0x1000, alloc := true },
        .ioctl [0x76] (.ackReset (some 1)), .finish 0] = some t ∧
      t.dev [0x76] 1 = some d ∧ d.refcount.toNat ≠ holding t [0x76] 1 :=
    ⟨_, _, rfl, rfl, by decide +kernel⟩
  exact hne (h _ [] t (List.append_nil _).symm ht [0x76] 1 d hd)

end GH.Proof.Virtio
