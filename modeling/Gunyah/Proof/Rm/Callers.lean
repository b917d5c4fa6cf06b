import Gunyah.Spec.Rm.Callers
import Gunyah.Proof.Rm.VmTable
import Gunyah.Proof.Rm.Iface
import Gunyah.Framework.Run

/-!
# Callers at the same time

`gh_rm_vm_alloc_vmid` looks at the entry of its name in one section under
`gh_vm_table_lock` and writes it in another, and `gh_update_vm_prop_table`
does not look at the VMID that it overwrites. A name has one VMID as long as
every call that the RM gives one finds the entry still free when it gets to the
update, and no longer (`one_vmid_iff`).

The functions that set a part of the status read the whole of it and write the
whole of it back. No update is lost as long as the copy that is written back is
not stale (`no_lost_update`, and `status_iff` for the exact condition).
-/

namespace GH.Proof.Rm

open GH.Impl GH.Impl.Rm GH.Spec.Rm

/-! ## VMIDs of names -/

/-- The name is one that `gh_rm_vm_alloc_vmid` gives a VMID. -/
def Loadable (n : VmName) : Prop := n ≠ .max ∧ n ≠ .selfVm

/-- What holds of a call under way. -/
def AllocPc.Ok : AllocPc → Prop
  | .idle => True
  | .checked n _ _ => Loadable n
  | .answered n _ _ x => Loadable n ∧ ∀ v, x = .gives v → v ≠ 0 ∧ v ≠ GH_VMID_INVAL

/-- The entry of each name holds the VMID of the only call that has returned 0
for it, if there is one. -/
structure AllocInv (s : AllocState) : Prop where
  entry : ∀ n, Loadable n → s.table n = { vmid := (s.since n).headD GH_VMID_INVAL }
  one : ∀ n, (s.since n).length ≤ 1
  valid : ∀ n, ∀ v ∈ s.since n, Loadable n ∧ v ≠ GH_VMID_INVAL
  calls : ∀ k, AllocPc.Ok (s.allocs k)

theorem AllocInv.init : AllocInv AllocState.init where
  entry n hn := by
    cases n with
    | selfVm => exact absurd rfl hn.2
    | _ => rfl
  one n := by simp [AllocState.init]
  valid n v hv := by simp [AllocState.init] at hv
  calls k := trivial

theorem AllocInv.oneVmid {s : AllocState} (h : AllocInv s) (n : VmName) : OneVmid s n := by
  refine ⟨h.one n, fun v hv => ?_⟩
  have hone := h.one n
  rw [h.entry n (h.valid n v hv).1]
  match hs : s.since n with
  | [] => simp [hs] at hv
  | [w] =>
    rw [hs, List.mem_singleton] at hv
    exact hv.symm
  | _ :: _ :: _ => simp [hs] at hone

/-- An entry is free exactly when no call has returned 0 for its name. -/
theorem AllocInv.free_iff {s : AllocState} (h : AllocInv s) {n : VmName} (hn : Loadable n) :
    (s.table n).vmid = GH_VMID_INVAL ↔ s.since n = [] := by
  rw [h.entry n hn]
  cases hs : s.since n with
  | nil => simp
  | cons v vs => simpa using (h.valid n v (by simp [hs])).2

theorem AllocInv.setCall {s : AllocState} (h : AllocInv s) {k : Nat} {c : AllocPc} (hc : AllocPc.Ok c)
    (vs : List VmId) : AllocInv { s with vmids := vs, allocs := Function.update s.allocs k c } where
  entry := h.entry
  one := h.one
  valid := h.valid
  calls := (Function.forall_update_iff s.allocs fun _ => AllocPc.Ok).mpr ⟨hc, fun j _ => h.calls j⟩

/-! ### What the sections do -/

theorem alloc_loadable {t : VmTable} {n : VmName} {vmid : Int} {o : Out} {args : CallArgs}
    {cont : CallRet → Option (VmTable × Int × Int)} (h : ghRmVmAllocVmid t n vmid o = .call args cont) :
    Loadable n := by
  unfold ghRmVmAllocVmid at h
  by_cases hn : n = .max
  · subst hn
    simp [VmTable.get] at h
  · rw [get_of_ne hn] at h
    refine ⟨hn, fun hs => ?_⟩
    simp [hs] at h

/-- The VMID in the RM's answer. -/
theorem ofInt_respVmid (v : VmId) : BitVec.ofInt 16 (allocateRespVmid (u16Bytes v ++ u16Bytes 0)).toInt = v := by
  change (allocateRespVmid (u16Bytes v ++ u16Bytes 0)).signExtend 16 = v
  rw [BitVec.signExtend_eq_setWidth_of_le _ (by decide)]
  simp only [allocateRespVmid, u16Bytes, List.cons_append, List.nil_append, List.getD_cons_succ,
    List.getD_cons_zero]
  ext i hi
  simp only [BitVec.getElem_setWidth, BitVec.getLsbD_append]
  by_cases h8 : i < 8
  · simp [h8, BitVec.getLsbD_eq_getElem hi]
  · simp [h8, show i - 8 < 8 by omega, show 8 + (i - 8) = i by omega, BitVec.getLsbD_eq_getElem hi]

/-- The update of a call that the RM has given a VMID, where the entry has nothing
but a VMID. -/
theorem reply_gives {t : VmTable} {n : VmName} {v w : VmId} (hn : n ≠ .max) (ht : t n = { vmid := w })
    (hv : v ≠ 0) (vmid : Int) (o : Out) :
    ghRmVmAllocVmidReply t n vmid o (AllocAnswer.gives v).callRet =
      some (Function.update t n { vmid := v }, (allocateRespVmid (u16Bytes v ++ u16Bytes 0)).toInt, 0) := by
  have hm : ({ vmid := w } : VmProperty).merge { vmid := v } = { vmid := v } := by
    rw [VmProperty.merge, if_pos hv]
    rfl
  have hu : ghUpdateVmPropTable t n (some { vmid := v }) = some (Function.update t n { vmid := v }, 0) := by
    simp [ghUpdateVmPropTable, get_of_ne hn, ht, hm]
  have hok : ¬ (((AllocAnswer.gives v).callRet.out o).replyErrCode ≠ 0 ∨ (AllocAnswer.gives v).callRet.isErr) :=
    fun h => h.elim (fun h => h rfl) nofun
  have hpayload : (AllocAnswer.gives v).callRet.payload = some (u16Bytes v ++ u16Bytes 0) := rfl
  simp only [ghRmVmAllocVmidReply, if_neg hok, hpayload, ofInt_respVmid, hu]
  rfl

theorem reply_fails {x : Outcome} (h : ¬ x.Answered) (t : VmTable) (n : VmName) (vmid : Int) (o : Out) :
    ∃ ret, ret ≠ 0 ∧ ghRmVmAllocVmidReply t n vmid o x.callRet = some (t, vmid, ret) := by
  have hret : ∃ e, e ≠ 0 ∧ x.callRet.ret = .error e := by
    cases x with
    | early e he => exact ⟨e, by omega, rfl⟩
    | aborted => exact ⟨_, by decide, rfl⟩
    | refused e he => exact ⟨_, fun hz => toInt_ne_zero he (ghRemapError_eq_zero hz), rfl⟩
    | answered => exact absurd trivial h
  obtain ⟨e, he, hret⟩ := hret
  refine ⟨e, he, ?_⟩
  simp [ghRmVmAllocVmidReply, CallRet.isErr, CallRet.ptrErr, hret]

/-! ### Steps -/

section

variable {s t : AllocState}

/-- The update of a call that has got a VMID. -/
theorem AllocInv.update_gives (h : AllocInv s) {k : Nat} {n : VmName} {vmid : Int} {o : Out} {v : VmId}
    (hk : s.allocs k = .answered n vmid o (.gives v)) (hst : allocStep s (.update k) = some t) :
    t = { s with
      table := Function.update s.table n { vmid := v }
      allocs := Function.update s.allocs k .idle
      since := Function.update s.since n (v :: s.since n) } := by
  have hok := h.calls k
  rw [hk] at hok
  obtain ⟨hn, hv⟩ := hok
  rw [allocStep, hk] at hst
  simp only [reply_gives hn.1 (h.entry n hn) (hv v rfl).1, ofInt_respVmid, Option.map_some, if_pos,
    Option.some.injEq] at hst
  exact hst.symm

/-- The entry of a name is written, and the calls that have returned 0 for it since
its last deallocation are `vs`. -/
theorem AllocInv.setEntry (h : AllocInv s) (n : VmName) (vs : List VmId) (hone : vs.length ≤ 1)
    (hvalid : ∀ v ∈ vs, Loadable n ∧ v ≠ GH_VMID_INVAL) :
    AllocInv { s with
      table := Function.update s.table n { vmid := vs.headD GH_VMID_INVAL }
      since := Function.update s.since n vs } where
  entry m hm := by
    by_cases e : m = n
    · subst e
      simp
    · simp only [Function.update_of_ne e]
      exact h.entry m hm
  one := (Function.forall_update_iff s.since fun _ vs => vs.length ≤ 1).mpr ⟨hone, fun m _ => h.one m⟩
  valid := (Function.forall_update_iff s.since fun m vs => ∀ v ∈ vs, Loadable m ∧ v ≠ GH_VMID_INVAL).mpr
    ⟨hvalid, fun m _ => h.valid m⟩
  calls := h.calls

theorem AllocInv.give (h : AllocInv s) {n : VmName} {v : VmId} (hn : Loadable n) (hv : v ≠ GH_VMID_INVAL)
    (hs : s.since n = []) :
    AllocInv { s with
      table := Function.update s.table n { vmid := v }
      since := Function.update s.since n (v :: s.since n) } := by
  rw [hs]
  exact h.setEntry n [v] (Nat.le_refl 1) (by simpa using ⟨hn, hv⟩)

/-- The entry that a deallocation resets, if there is one, has nothing in it. -/
theorem AllocInv.reset (h : AllocInv s) (vmid : VmId) :
    AllocInv { s with
      table := ghResetVmPropTableEntry s.table vmid
      since := match VmName.peers.find? fun n => vmid = (s.table n).vmid with
        | some n => Function.update s.since n []
        | none => s.since } := by
  unfold ghResetVmPropTableEntry
  cases VmName.peers.find? fun n => vmid = (s.table n).vmid with
  | none => exact ⟨h.entry, h.one, h.valid, h.calls⟩
  | some n => exact h.setEntry n [] (Nat.zero_le 1) nofun

/-- A step keeps the invariant, if the entry that an update writes is free. -/
theorem AllocInv.step (h : AllocInv s) {act : AllocAct} (hst : allocStep s act = some t)
    (hc : EntryFree s act t) : AllocInv t := by
  cases act with
  | check k n vmid o =>
    rw [allocStep] at hst
    split at hst
    · split at hst
      · cases hst
      · cases hst
        exact h
      · cases hst
        exact h.setCall (c := .checked n vmid o) (alloc_loadable (by assumption)) s.vmids
    · cases hst
  | answer k x =>
    rw [allocStep] at hst
    split at hst
    · rename_i n vmid o hk
      split at hst
      · rename_i hx
        cases hst
        have hok := h.calls k
        rw [hk] at hok
        refine h.setCall (c := .answered n vmid o x) ⟨hok, fun v hv => ?_⟩ _
        subst hv
        exact hx.2
      · cases hst
    · cases hst
  | update k =>
    cases hk : s.allocs k with
    | idle => simp [allocStep, hk] at hst
    | checked n vmid o => simp [allocStep, hk] at hst
    | answered n vmid o x =>
      have hok := h.calls k
      rw [hk] at hok
      cases x with
      | fails x hx =>
        obtain ⟨ret, hret, hr⟩ := reply_fails hx s.table n vmid o
        rw [allocStep, hk] at hst
        simp only [AllocAnswer.callRet, hr, Option.map_some, if_neg hret, Option.some.injEq] at hst
        subst hst
        exact h.setCall (c := .idle) trivial s.vmids
      | gives v =>
        rw [EntryFree, hk] at hc
        rw [h.update_gives hk hst]
        exact (h.give hok.1 (hok.2 v rfl).2 ((h.free_iff hok.1).mp hc)).setCall (c := .idle) trivial s.vmids
  | dealloc j vmid o x =>
    rw [allocStep] at hst
    split at hst
    · split at hst
      · cases hst
        exact h
      · cases hst
        exact ⟨h.entry, h.one, h.valid, h.calls⟩
    · cases hst
  | reset j =>
    rw [allocStep] at hst
    split at hst
    · cases hst
      have := h.reset (by assumption)
      exact ⟨this.entry, this.one, this.valid, this.calls⟩
    · cases hst

/-- An update of an entry that is not free is the second for its name. -/
theorem AllocInv.oneVmid_iff (h : AllocInv s) {act : AllocAct} (hst : allocStep s act = some t) :
    (∀ n, OneVmid t n) ↔ EntryFree s act t := by
  refine ⟨fun hone => ?_, fun hc => (h.step hst hc).oneVmid⟩
  cases act with
  | update k =>
    rw [EntryFree, AllocPc.Free.eq_def]
    split
    · rename_i n vmid o v hk
      have hok := h.calls k
      rw [hk] at hok
      have hlen := (hone n).1
      rw [h.update_gives hk hst] at hlen
      simp only [Function.update_self, List.length_cons] at hlen
      exact (h.free_iff hok.1).mpr (List.length_eq_zero_iff.mp (by omega))
    · trivial
  | _ => trivial

end

/-- In every run of any number of calls, each name has one VMID between two
deallocations exactly when every call that the RM has given a VMID finds the
entry of its name free when it gets to the update. -/
theorem one_vmid_iff (as : List AllocAct) :
    Always allocStep (fun s => ∀ n, OneVmid s n) .init as ↔ Each allocStep EntryFree .init as :=
  always_iff (I := AllocInv) (fun _ _ _ h hst hc => h.step hst hc) (fun _ _ _ h hst => h.oneVmid_iff hst)
    AllocInv.init AllocInv.init.oneVmid

/-- Two loaders of the trusted VM: both pass the check before either of them has
updated the table. -/
def twoLoaders : List AllocAct :=
  [.check 0 .trustedVm 0 ⟨0, 0⟩, .check 1 .trustedVm 0 ⟨0, 0⟩, .answer 0 (.gives 45), .answer 1 (.gives 46),
    .update 0, .update 1]

theorem two_loaders_two_vmids : ¬ Always allocStep (fun s => ∀ n, OneVmid s n) .init twoLoaders := by
  intro h
  have hlen := (h twoLoaders [] _ (List.append_nil _).symm rfl .trustedVm).1
  exact absurd hlen (by decide)

/-! ## The parts of the status -/

theorem ofBytes_bytes (st : VmStatus) : VmStatus.ofBytes st.bytes = st := by
  have happ : st.appStatus.extractLsb' 8 8 ++ st.appStatus.extractLsb' 0 8 = st.appStatus :=
    (BitVec.extractLsb'_append_extractLsb'_eq_extractLsb' rfl).trans BitVec.extractLsb'_eq_self
  exact congrArg (VmStatus.mk st.vmStatus st.osStatus) happ

/-- A call that has got the status sends it back with its part set. -/
theorem call_get (w : StatusWrite) (env : StatusEnv) (st : VmStatus) :
    (w.call env).run (Outcome.answered (some st.bytes) 4).callRet =
      if env.alloc then ghRmVmSetStatus (w.apply st) env else .ret (-ENOMEM) := by
  have hget : (ghRmVmGetStatus 0 env).run (Outcome.answered (some st.bytes) 4).callRet =
      if env.alloc then .ok st else .error (-ENOMEM) := by
    change (if env.alloc then Except.ok (VmStatus.ofBytes st.bytes) else .error (-ENOMEM)) = _
    rw [ofBytes_bytes]
  have hchange : ∀ f : VmStatus → VmStatus,
      (changeStatus f env).run (Outcome.answered (some st.bytes) 4).callRet =
        if env.alloc then ghRmVmSetStatus (f st) env else .ret (-ENOMEM) := by
    intro f
    rw [changeStatus, run_map, hget]
    cases env.alloc with
    | false => rfl
    | true => rfl
  cases w with
  | vm x => exact hchange _
  | os x => exact hchange _
  | app x => exact hchange _

/-- What a call under way is about to send. -/
def StatusPc.Ok : StatusPc → Prop
  | .idle => True
  | .got w next => ∃ st env, next = ghRmVmSetStatus (w.apply st) env

/-- No update is lost so far. -/
structure StatusInv (s : StatusState) : Prop where
  rm : s.rm = s.last
  calls : ∀ k, StatusPc.Ok (s.calls k)

theorem StatusInv.init (st : VmStatus) : StatusInv (.init st) := ⟨rfl, fun _ => trivial⟩

section

variable {s t : StatusState}

theorem StatusInv.set (h : StatusInv s) {k : Nat} (hst : statusStep s (.set k) = some t) :
    ∃ w st env, s.calls k = .got w (ghRmVmSetStatus (w.apply st) env) ∧
      t = ⟨w.apply st, Function.update s.calls k .idle, w.apply s.last⟩ := by
  have hok := h.calls k
  cases hk : s.calls k with
  | idle => simp [statusStep, hk] at hst
  | got w next =>
    rw [hk] at hok
    obtain ⟨st, env, rfl⟩ := hok
    refine ⟨w, st, env, rfl, ?_⟩
    rw [statusStep, hk] at hst
    cases hst
    exact congrArg (StatusState.mk · _ _) (ofBytes_bytes _)

theorem copyFresh_iff {k : Nat} {w : StatusWrite} {st : VmStatus} {env : StatusEnv}
    (hk : s.calls k = .got w (ghRmVmSetStatus (w.apply st) env)) :
    CopyFresh s (.set k) t ↔ w.apply st = w.apply s.rm := by
  have : CopyFresh s (.set k) t ↔ VmStatus.ofBytes (w.apply st).bytes = w.apply s.rm := by
    rw [CopyFresh, hk]
    rfl
  rw [this, ofBytes_bytes]

theorem StatusInv.step (h : StatusInv s) {act : StatusAct} (hst : statusStep s act = some t)
    (hc : CopyFresh s act t) : StatusInv t := by
  cases act with
  | get k w env =>
    rw [statusStep] at hst
    split at hst
    · rw [call_get] at hst
      cases ha : env.alloc with
      | false =>
        rw [ha] at hst
        cases hst
        exact h
      | true =>
        rw [ha] at hst
        cases hst
        exact ⟨h.rm, (Function.forall_update_iff s.calls fun _ => StatusPc.Ok).mpr
          ⟨⟨s.rm, env, rfl⟩, fun j _ => h.calls j⟩⟩
    · cases hst
  | set k =>
    obtain ⟨w, st, env, hk, rfl⟩ := h.set hst
    refine ⟨?_, (Function.forall_update_iff s.calls fun _ => StatusPc.Ok).mpr ⟨trivial, fun j _ => h.calls j⟩⟩
    exact ((copyFresh_iff hk).mp hc).trans (congrArg w.apply h.rm)

/-- A call that sends a stale copy back reverts a part that it does not set. -/
theorem StatusInv.kept_iff (h : StatusInv s) {act : StatusAct} (hst : statusStep s act = some t) :
    t.rm = t.last ↔ CopyFresh s act t := by
  refine ⟨fun hrm => ?_, fun hc => (h.step hst hc).rm⟩
  cases act with
  | get k w env => trivial
  | set k =>
    obtain ⟨w, st, env, hk, rfl⟩ := h.set hst
    rw [copyFresh_iff hk, h.rm]
    exact hrm

end

/-- The RM holds the last completed values in every state of a run exactly when
no call of it sends a stale copy back. -/
theorem status_iff (st : VmStatus) (as : List StatusAct) :
    Always statusStep (fun s => s.rm = s.last) (.init st) as ↔ Each statusStep CopyFresh (.init st) as :=
  always_iff (I := StatusInv) (fun _ _ _ h hst hc => h.step hst hc) (fun _ _ _ h hst => h.kept_iff hst)
    (StatusInv.init st) rfl

/-- No status update is lost in a run in which no call sends a stale copy back. -/
theorem no_lost_update (st : VmStatus) (as : List StatusAct) (h : Each statusStep CopyFresh (.init st) as) :
    Always statusStep NoLostUpdate (.init st) as := by
  intro bs cs s e he _
  exact (status_iff st as).mpr h bs cs s e he

/-- Two callers that set the state of the operating system at the same time, and
then one that sets the state of the application. -/
theorem one_part_at_a_time :
    Always statusStep NoLostUpdate (.init ⟨1, 0, 0⟩)
      [.get 0 (.os 2) {}, .get 1 (.os 3) {}, .set 0, .set 1, .get 0 (.app 7) {}, .set 0] := by
  refine no_lost_update _ _ ?_
  decide

/-- The caller that sets the state of the operating system has read the status
before, and writes it after, the state of the application is set. -/
theorem stale_copy_reverts :
    ¬ Always statusStep NoLostUpdate (.init ⟨1, 0, 0⟩) [.get 0 (.os 2) {}, .get 1 (.app 7) {}, .set 1, .set 0] := by
  intro h
  have hlast := h _ [] _ (List.append_nil _).symm rfl fun k => ?_
  · exact absurd hlast (by decide)
  · simp only [Function.update_apply]
    split
    · rfl
    · split
      · rfl
      · rfl

end GH.Proof.Rm
