import Gunyah.Framework.Run
import Gunyah.Spec.Virtio.Events

/-!
# Events that wake, and kicks that are kept

What the code under the lock leaves pending, branch by branch
(`locked_eventWakes`), and what it does to the queues that are recorded
(`locked_kicks`). Over runs, every event that is pending wakes a thread exactly
when no thread that gets the lock finds one of the branches that forget to
(`eventWakes_iff`), and no kick is lost or left behind exactly when every step
meets `NoKickLost` (`kicks_iff`).
-/

namespace GH.Proof.Virtio

open GH.Impl GH.Impl.Virtio GH.Spec.Virtio

/-! ## Steps -/

/-- What an action does: `vdevStep`, with its cases. -/
inductive Does (s : Vdev) : VdevAct → Vdev → Prop where
  | interrupt {event eventData : BitVec 64} (he : event ≠ 0) :
      Does s (.interrupt event eventData) ((s.kick event eventData).signalled (vdevInterrupt s.dev event eventData))
  | enter {k : Nat} (hk : s.threads k = .out) (hr : s.dev.refcount < BitVec.allOnes 32) :
      Does s (.enter k) { s.setPc k .loopBack with dev := { s.dev with refcount := s.dev.refcount + 1 } }
  | wake {k : Nat} (hk : s.threads k = .loopBack) (he : s.dev.evtAvail = true) : Does s (.wake k) (s.setPc k .lock)
  | interrupted {k : Nat} (hk : s.threads k = .loopBack) (he : s.dev.evtAvail = false) :
      Does s (.interrupted k) { s.setPc k .out with dev := vbDevPut s.dev }
  | locked {k : Nat} {ackReg : BitVec 32} (hk : s.threads k = .lock) :
      Does s (.locked k ackReg) ((s.setPc k .check).signalled (waitSection s.dev ackReg))
  | again {k : Nat} (hk : s.threads k = .check) (hc : s.dev.curEvent = 0) : Does s (.leave k) (s.setPc k .loopBack)
  | leave {k : Nat} (hk : s.threads k = .check) (hc : s.dev.curEvent ≠ 0) :
      Does s (.leave k) { s.setPc k .out with dev := vbDevPut s.dev }
  | ackDriverOk : Does s .ackDriverOk { s with dev := { s.dev with ackDriverOk := true } }
  | ioeventfd {i : Queue} {fd : Int} {ctx : Except Int Addr} :
      Does s (.ioeventfd i fd ctx) { s with dev := (vbDevIoeventfd s.dev i fd ctx).1 }
  | appExit : Does s .appExit { s with dev := appExitSection s.dev, draining := s.dev.refcount ≠ 0 }
  | drained (hd : s.draining = true) (hr : s.dev.refcount = 0) : Does s .drained { s with draining := false }

theorem vbDevGet_some {d d' : VbDev} (h : vbDevGet d = some d') :
    d.refcount < BitVec.allOnes 32 ∧ d' = { d with refcount := d.refcount + 1 } := by
  unfold vbDevGet at h
  split at h
  · cases h
    exact ⟨by assumption, rfl⟩
  · cases h

/-- An assignment of an eventfd changes the contexts only, whatever the count of
references. -/
theorem ioeventfd_refcount (d : VbDev) (r : BitVec 32) (i : Queue) (fd : Int) (ctx : Except Int Addr) :
    (vbDevIoeventfd { d with refcount := r } i fd ctx).1 = { (vbDevIoeventfd d i fd ctx).1 with refcount := r } := by
  unfold vbDevIoeventfd
  split
  · rfl
  split
  · rfl
  cases ctx with
  | error e => rfl
  | ok a => rfl

theorem ioeventfd_dev (d : VbDev) (i : Queue) (fd : Int) (ctx : Except Int Addr) :
    (vbDevIoeventfd d i fd ctx).1 = { d with ioctx := (vbDevIoeventfd d i fd ctx).1.ioctx } := by
  unfold vbDevIoeventfd
  split
  · rfl
  split
  · rfl
  cases ctx with
  | error e => rfl
  | ok a => rfl

theorem vdevStep_does {s t : Vdev} {act : VdevAct} (h : vdevStep s act = some t) : Does s act t := by
  cases act with
  | interrupt event eventData =>
    simp only [vdevStep] at h
    split at h
    · cases h
    · cases h
      exact .interrupt (by assumption)
  | enter k =>
    simp only [vdevStep] at h
    split at h
    · obtain ⟨d, hd, rfl⟩ := Option.map_eq_some_iff.mp h
      obtain ⟨hr, rfl⟩ := vbDevGet_some hd
      exact .enter (by assumption) hr
    · cases h
  | wake k =>
    simp only [vdevStep] at h
    split at h
    · rename_i hc
      cases h
      exact .wake hc.1 hc.2
    · cases h
  | interrupted k =>
    simp only [vdevStep] at h
    split at h
    · rename_i hc
      cases h
      exact .interrupted hc.1 hc.2
    · cases h
  | locked k ackReg =>
    simp only [vdevStep] at h
    split at h
    · cases h
      exact .locked (by assumption)
    · cases h
  | leave k =>
    simp only [vdevStep] at h
    split at h
    · rename_i hk
      split at h
      · cases h
        exact .again hk (by assumption)
      · cases h
        exact .leave hk (by assumption)
    · cases h
  | ackDriverOk =>
    obtain ⟨d, hd, rfl⟩ := Option.map_eq_some_iff.mp h
    obtain ⟨-, rfl⟩ := vbDevGet_some hd
    simp only [vbDevPut, BitVec.add_sub_cancel]
    exact .ackDriverOk
  | ioeventfd i fd ctx =>
    obtain ⟨d, hd, rfl⟩ := Option.map_eq_some_iff.mp h
    obtain ⟨-, rfl⟩ := vbDevGet_some hd
    have hdev : vbDevPut (vbDevIoeventfd { s.dev with refcount := s.dev.refcount + 1 } i fd ctx).1 =
        (vbDevIoeventfd s.dev i fd ctx).1 := by
      rw [ioeventfd_refcount, ioeventfd_dev s.dev]
      simp only [vbDevPut, BitVec.add_sub_cancel]
    rw [hdev]
    exact .ioeventfd
  | appExit =>
    cases h
    exact .appExit
  | drained =>
    simp only [vdevStep] at h
    split at h
    · rename_i hc
      cases h
      exact .drained hc.1 hc.2
    · cases h

/-! ## Signalling the queues -/

theorem queueBit_or (x y : BitVec 64) (i : Queue) : queueBit (x ||| y) i = (queueBit x i || queueBit y i) := by
  simp [queueBit]

@[simp] theorem queueBit_zero (i : Queue) : queueBit 0 i = false := by
  simp [queueBit]

theorem queueBit_clear (x : BitVec 64) (i j : Queue) :
    queueBit (x &&& ~~~(1#64 <<< j.val)) i = (queueBit x i && !decide (i = j)) := by
  have hi : (i : Nat) < 64 := Nat.lt_of_lt_of_le i.isLt (by decide)
  have hj : (j : Nat) < 64 := Nat.lt_of_lt_of_le j.isLt (by decide)
  have hbit : (BitVec.twoPow 64 j).getLsbD i = decide (i = j) := by
    simp [BitVec.getLsbD_twoPow, hj, Fin.ext_iff, eq_comm]
  rw [← BitVec.twoPow_eq]
  simp only [queueBit, BitVec.getLsbD_and, BitVec.getLsbD_not, hi, decide_true, Bool.true_and]
  rw [hbit]

/-- The queues of `l` that are recorded and have an eventfd have been signalled. -/
structure Signals (l : List Queue) (d : VbDev) (qs : List Queue) (r : VbDev × List Queue) : Prop where
  dev : r.1 = { d with vdevEventData := r.1.vdevEventData }
  bit : ∀ i, queueBit r.1.vdevEventData i = (queueBit d.vdevEventData i && !decide (i ∈ l ∧ (d.ioctx i).ctx.isSome))
  mem : ∀ i, i ∈ r.2 ↔ i ∈ qs ∨ (i ∈ l ∧ queueBit d.vdevEventData i = true ∧ (d.ioctx i).ctx.isSome)

theorem foldl_signals {l : List Queue} (hl : l.Nodup) (d : VbDev) (qs : List Queue) :
    Signals l d qs (l.foldl signalVq (d, qs)) := by
  induction l generalizing d qs with
  | nil => exact ⟨rfl, by simp, by simp⟩
  | cons j l ih =>
    obtain ⟨hj, hl⟩ := List.nodup_cons.mp hl
    rw [List.foldl_cons, signalVq]
    split
    · rename_i hc
      obtain ⟨hdev, hbit, hmem⟩ := ih hl { d with vdevEventData := d.vdevEventData &&& ~~~(1#64 <<< j.val) } (qs ++ [j])
      refine ⟨hdev, fun i => ?_, fun i => ?_⟩
      · rw [hbit, queueBit_clear]
        by_cases hij : i = j
        · simp [hij, hc.2]
        · simp [hij]
      · rw [hmem, queueBit_clear, List.mem_append, List.mem_singleton, List.mem_cons]
        by_cases hij : i = j
        · simp [hij, hc.1, hc.2]
        · simp [hij]
    · rename_i hc
      obtain ⟨hdev, hbit, hmem⟩ := ih hl d qs
      refine ⟨hdev, fun i => ?_, fun i => ?_⟩
      · rw [hbit]
        by_cases hij : i = j
        · subst hij
          cases hq : queueBit d.vdevEventData i with
          | false => simp
          | true =>
            have hctx : ¬ (d.ioctx i).ctx.isSome := fun h => hc ⟨hq, h⟩
            simp [hj, hctx]
        · simp [hij]
      · rw [hmem, List.mem_cons]
        by_cases hij : i = j
        · subst hij
          simp [hj, hc]
        · simp [hij]

theorem signalVqs_signals (d : VbDev) : Signals (List.finRange MAX_IO_CONTEXTS) d [] (signalVqs d) :=
  foldl_signals (List.nodup_finRange _) d []

theorem signalVqs_dev (d : VbDev) :
    (signalVqs d).1 = { d with vdevEventData := (signalVqs d).1.vdevEventData } := (signalVqs_signals d).dev

theorem signalVqs_bit (d : VbDev) (i : Queue) :
    queueBit (signalVqs d).1.vdevEventData i = (queueBit d.vdevEventData i && !(d.ioctx i).ctx.isSome) := by
  rw [(signalVqs_signals d).bit]
  simp

theorem signalVqs_mem (d : VbDev) (i : Queue) :
    i ∈ (signalVqs d).2 ↔ queueBit d.vdevEventData i = true ∧ (d.ioctx i).ctx.isSome := by
  rw [(signalVqs_signals d).mem]
  simp

/-! ## Events -/

/-- A turn of `vdev_interrupt` wakes a thread for every event it leaves pending. -/
theorem vdevInterrupt_wakes {d : VbDev} {event eventData : BitVec 64} (h : d.vdevEvent ≠ 0 → d.evtAvail = true) :
    (vdevInterrupt d event eventData).1.vdevEvent ≠ 0 → (vdevInterrupt d event eventData).1.evtAvail = true := by
  unfold vdevInterrupt
  split
  · simp only
    split
    · rw [signalVqs_dev]
      exact h
    · exact fun _ => rfl
  · exact fun _ => rfl

theorem handOver_event (d : VbDev) (ackReg : BitVec 32) : (handOver d ackReg).vdevEvent = 0 := by
  unfold handOver
  split
  · rfl
  · rename_i h
    exact not_not.mp h

/-- What the code under the lock leaves pending wakes a thread in some branches
only. -/
theorem locked_eventWakes (s : Vdev) (k : Nat) (ackReg : BitVec 32) :
    ((waitSection s.dev ackReg).1.vdevEvent ≠ 0 → (waitSection s.dev ackReg).1.evtAvail = true) ↔
      NoneStranded s (.locked k ackReg) := by
  simp only [waitSection, NoneStranded]
  cases hb : waitBranch s.dev.vdevEvent with
  | exit =>
    have hne : s.dev.vdevEvent ≠ 0 := by
      intro h₀
      rw [h₀] at hb
      exact absurd hb (by decide)
    simpa using hne
  | resetRqst => simp
  | driverOk =>
    cases hack : s.dev.ackDriverOk with
    | false => simp
    | true => simp
  | newBuffer => simp [waitNewBuffer, handOver_event]
  | interruptAck => simp
  | nothing => simp

theorem step_eventWakes (s : Vdev) (act : VdevAct) (t : Vdev) (h : EventWakes s) (hs : vdevStep s act = some t) :
    EventWakes t ↔ NoneStranded s act := by
  cases vdevStep_does hs with
  | interrupt he => exact iff_of_true (vdevInterrupt_wakes h) trivial
  | locked hk => exact locked_eventWakes s _ _
  | appExit => exact iff_of_true (fun _ => rfl) trivial
  | ioeventfd =>
    refine iff_of_true ?_ trivial
    rw [EventWakes, ioeventfd_dev]
    exact h
  | _ => exact iff_of_true h trivial

/-- In a run, every pending event wakes a thread exactly when every thread that
gets the lock finds events that its branch does not strand. -/
theorem eventWakes_iff (d : VbDev) (as : List VdevAct) :
    Always vdevStep EventWakes (.opened d) as ↔
      Each vdevStep (fun s act _ => NoneStranded s act) (.opened d) as :=
  always_iff (I := EventWakes) (fun s act t h hs hc => (step_eventWakes s act t h hs).mpr hc) step_eventWakes
    (fun h => absurd rfl h) (fun h => absurd rfl h)

instance : DecidablePred EventWakes :=
  fun s => inferInstanceAs (Decidable (s.dev.vdevEvent ≠ 0 → s.dev.evtAvail = true))

/-- `EVENT_INTERRUPT_ACK` comes with a second `EVENT_DRIVER_OK`: the thread that is
woken drops the one, and waits while the other is pending. -/
theorem interruptAck_stranded :
    ¬ Always vdevStep EventWakes (.opened { label := 1 })
      [.ackDriverOk, .enter 0, .interrupt (EVENT_DRIVER_OK ||| EVENT_INTERRUPT_ACK) 0, .wake 0, .locked 0 0,
        .leave 0] := by
  decide +kernel

/-! ## Kicks -/

/-- Both promises about kicks. -/
def KicksOk (s : Vdev) : Prop := KicksKept s ∧ KicksMove s

theorem signalAcked_dev (d : VbDev) :
    (signalAcked d).1 = { d with vdevEventData := (signalAcked d).1.vdevEventData } := by
  unfold signalAcked
  split
  · exact signalVqs_dev d
  · rfl

theorem signalAcked_mem (d : VbDev) (i : Queue) : i ∈ (signalAcked d).2 ↔ Ready d i := by
  unfold signalAcked Ready
  split
  · rename_i hc
    rw [signalVqs_mem]
    simp [hc.2]
  · rename_i hc
    simp only [List.not_mem_nil, false_iff]
    rintro ⟨hbit, -, hack⟩
    refine hc ⟨fun h₀ => ?_, hack⟩
    rw [h₀, queueBit_zero] at hbit
    cases hbit

/-- After the signals, what is recorded cannot be signalled. -/
theorem signalAcked_bit {d : VbDev} {i : Queue} :
    queueBit (signalAcked d).1.vdevEventData i = true ↔ queueBit d.vdevEventData i = true ∧ ¬ Ready d i := by
  rw [← signalAcked_mem]
  unfold signalAcked
  split
  · rw [signalVqs_bit, signalVqs_mem]
    cases queueBit d.vdevEventData i <;> simp
  · simp

theorem waitBranch_nothing {e : BitVec 64} (h : waitBranch e = .nothing) : e &&& EVENT_NEW_BUFFER = 0 := by
  by_contra hne
  unfold waitBranch at h
  rw [if_pos hne] at h
  repeat' split at h
  all_goals cases h

theorem ready_congr {d d' : VbDev} (hdata : d'.vdevEventData = d.vdevEventData) (hctx : d'.ioctx = d.ioctx)
    (hack : d'.ackDriverOk = d.ackDriverOk) (i : Queue) : Ready d' i ↔ Ready d i := by
  rw [Ready, Ready, hdata, hctx, hack]

/-- Where no signal is sent, the kicks stay as they are. -/
theorem signalled_kicked (s : Vdev) (d : VbDev) : (s.signalled (d, [])).kicked = s.kicked := by
  funext i
  simp [Vdev.signalled]

theorem mem_signalled {s : Vdev} {d : VbDev} {qs : List Queue} {i : Queue} :
    (s.signalled (d, qs)).kicked i = true ↔ s.kicked i = true ∧ i ∉ qs := by
  simp [Vdev.signalled]

theorem handOver_data (d : VbDev) (ackReg : BitVec 32) :
    (handOver d ackReg).vdevEventData = if d.vdevEvent ≠ 0 then 0 else d.vdevEventData := by
  unfold handOver
  split <;> rfl

/-- Where nothing is recorded, the promises say that nothing is kicked. -/
theorem kicksOk_cleared {s : Vdev} (h : s.dev.vdevEventData = 0) : KicksOk s ↔ ∀ i, s.kicked i = false := by
  constructor
  · intro hk i
    by_contra hi
    have hbit := hk.1 i (Bool.not_eq_false _ ▸ hi)
    rw [h, queueBit_zero] at hbit
    cases hbit
  · intro hk
    refine ⟨fun i hi => ?_, fun i hi => ?_⟩
    · rw [hk i] at hi
      cases hi
    · have hbit := hi.1
      rw [h, queueBit_zero] at hbit
      cases hbit

/-- The branch for `EVENT_NEW_BUFFER` drops the kicks that it cannot signal, if
there are other events. -/
theorem newBuffer_kicks {s : Vdev} {d : VbDev} {ackReg : BitVec 32} (h : KicksKept s)
    (hdata : d.vdevEventData = s.dev.vdevEventData) (hctx : d.ioctx = s.dev.ioctx)
    (hack : d.ackDriverOk = s.dev.ackDriverOk) (k : Nat) :
    KicksOk ((s.setPc k .check).signalled (waitNewBuffer d ackReg)) ↔
      d.vdevEvent &&& ~~~EVENT_NEW_BUFFER = 0 ∨ ∀ i, s.kicked i = true → Ready s.dev i := by
  have hready : ∀ i, Ready { d with vdevEvent := d.vdevEvent &&& ~~~EVENT_NEW_BUFFER } i ↔ Ready s.dev i :=
    ready_congr hdata hctx hack
  have hmem := signalAcked_mem { d with vdevEvent := d.vdevEvent &&& ~~~EVENT_NEW_BUFFER }
  have hdev := signalAcked_dev { d with vdevEvent := d.vdevEvent &&& ~~~EVENT_NEW_BUFFER }
  have hbit : ∀ i, _ := fun i => @signalAcked_bit { d with vdevEvent := d.vdevEvent &&& ~~~EVENT_NEW_BUFFER } i
  simp only [waitNewBuffer]
  generalize signalAcked { d with vdevEvent := d.vdevEvent &&& ~~~EVENT_NEW_BUFFER } = r at hmem hdev hbit ⊢
  simp only [hready] at hmem hbit
  rw [hdata] at hbit
  have hevent : r.1.vdevEvent = d.vdevEvent &&& ~~~EVENT_NEW_BUFFER := by rw [hdev]
  by_cases h₀ : d.vdevEvent &&& ~~~EVENT_NEW_BUFFER = 0
  · have hsame : handOver r.1 ackReg = r.1 := if_neg (not_not.mpr (hevent.trans h₀))
    rw [hsame]
    refine iff_of_true ⟨fun i hi => ?_, fun i hi => ?_⟩ (.inl h₀)
    · obtain ⟨hk, hq⟩ := mem_signalled.mp hi
      exact (hbit i).mpr ⟨h i hk, fun hr => hq ((hmem i).mpr hr)⟩
    · -- what is still recorded could not be signalled before, and nothing else has changed
      obtain ⟨hq, hctx', hack'⟩ := hi
      simp only [Vdev.signalled] at hq hctx' hack'
      rw [hdev] at hctx' hack'
      obtain ⟨hs, hr⟩ := (hbit i).mp hq
      exact absurd ⟨hs, hctx ▸ hctx', hack ▸ hack'⟩ hr
  · have hnone : (handOver r.1 ackReg).vdevEventData = 0 := by
      rw [handOver_data, if_pos (hevent ▸ h₀)]
    rw [or_iff_right h₀]
    refine (kicksOk_cleared hnone).trans (forall_congr' fun i => ?_)
    rw [← Bool.not_eq_true, mem_signalled, hmem]
    exact not_and_not_right

/-- Where a branch signals nothing and leaves what is recorded, the promises say
that no recorded queue is passed over. -/
theorem quiet_kicks {s : Vdev} {d : VbDev} (h : KicksKept s) (hdata : d.vdevEventData = s.dev.vdevEventData) (k : Nat) :
    KicksOk ((s.setPc k .check).signalled (d, [])) ↔ ∀ i, Ready d i → NewBufferPending d := by
  refine and_iff_right fun i hi => ?_
  simp only [Vdev.signalled, hdata]
  exact h i (mem_signalled.mp hi).1

/-- The kicks after the code under the lock, branch by branch. -/
theorem locked_kicks {s : Vdev} (h : KicksOk s) (k : Nat) (ackReg : BitVec 32) :
    KicksOk ((s.setPc k .check).signalled (waitSection s.dev ackReg)) ↔ NoKickLost s (.locked k ackReg) := by
  simp only [waitSection, NoKickLost]
  cases hb : waitBranch s.dev.vdevEvent with
  | exit =>
    refine (quiet_kicks h.1 ?_ k).trans (forall_congr' fun i => ?_)
    · rfl
    · exact imp_congr (ready_congr rfl rfl rfl i) (iff_false_intro fun hn => nomatch hn.2)
  | resetRqst =>
    refine (quiet_kicks h.1 ?_ k).trans (iff_of_true (fun i hi => ?_) trivial)
    · rfl
    · cases hi.2.2
  | driverOk =>
    cases hack : s.dev.ackDriverOk with
    | true =>
      refine (quiet_kicks h.1 ?_ k).trans (forall_congr' fun i => ?_)
      · rfl
      · refine imp_congr ?_ (iff_false_intro fun hn => nomatch hn.2)
        rw [Ready, Ready, hack]
    | false =>
      refine (quiet_kicks h.1 ?_ k).trans (iff_of_true (fun i hi => ?_) fun i hi => ?_)
      · rfl
      · cases hi.2.2
      · exact absurd (hack.symm.trans hi.2.2) (by decide)
  | newBuffer =>
    refine newBuffer_kicks h.1 ?_ ?_ ?_ k
    · rfl
    · rfl
    · rfl
  | interruptAck =>
    refine (kicksOk_cleared ?_).trans (forall_congr' fun i => ?_)
    · rfl
    · rw [signalled_kicked]
      exact Iff.rfl
  | nothing =>
    refine (quiet_kicks h.1 ?_ k).trans (iff_of_true (fun i hi => ?_) trivial)
    · rfl
    · -- a queue that could be signalled would have kept `EVENT_NEW_BUFFER` pending
      have hpend := h.2 i ((ready_congr rfl rfl rfl i).mp hi)
      exact absurd (waitBranch_nothing hb) hpend.1

theorem kick_kicked {s : Vdev} {event eventData : BitVec 64} {i : Queue} :
    (s.kick event eventData).kicked i = true ↔
      s.kicked i = true ∨ (event &&& EVENT_NEW_BUFFER ≠ 0 ∧ queueBit eventData i = true) := by
  simp [Vdev.kick]

/-- Once the driver has been acknowledged, `EVENT_NEW_BUFFER` signals all that can
be. -/
theorem interrupt_acked {s : Vdev} {event eventData : BitVec 64} (h : KicksKept s)
    (hnb : event &&& EVENT_NEW_BUFFER ≠ 0) (hack : s.dev.ackDriverOk = true) :
    KicksOk ((s.kick event eventData).signalled (vdevInterrupt s.dev event eventData)) := by
  have hmem := signalVqs_mem { s.dev with vdevEventData := s.dev.vdevEventData ||| eventData }
  have hbit := signalVqs_bit { s.dev with vdevEventData := s.dev.vdevEventData ||| eventData }
  have hdev := signalVqs_dev { s.dev with vdevEventData := s.dev.vdevEventData ||| eventData }
  obtain ⟨d, hd, hctx, hdata⟩ : ∃ d, vdevInterrupt s.dev event eventData =
      (d, (signalVqs { s.dev with vdevEventData := s.dev.vdevEventData ||| eventData }).2) ∧
      d.ioctx = s.dev.ioctx ∧ d.vdevEventData =
        (signalVqs { s.dev with vdevEventData := s.dev.vdevEventData ||| eventData }).1.vdevEventData := by
    unfold vdevInterrupt
    rw [if_pos ⟨hnb, hack⟩]
    simp only
    split
    · exact ⟨_, rfl, by rw [hdev], rfl⟩
    · exact ⟨_, rfl, by rw [hdev], rfl⟩
  rw [hd]
  refine ⟨fun i hi => ?_, fun i hi => ?_⟩
  · obtain ⟨hk, hq⟩ := mem_signalled.mp hi
    have hrec : queueBit (s.dev.vdevEventData ||| eventData) i = true := by
      rw [queueBit_or, Bool.or_eq_true]
      exact (kick_kicked.mp hk).imp (h i) And.right
    have hno : (s.dev.ioctx i).ctx.isSome = false := by
      by_contra hc
      exact hq ((hmem i).mpr ⟨hrec, Bool.not_eq_false _ ▸ hc⟩)
    simp only [Vdev.signalled, hdata, hbit, hrec, hno]
    rfl
  · have hrec := hi.1
    have hsome := hi.2.1
    simp only [Vdev.signalled, hdata, hctx, hbit] at hrec hsome
    rw [hsome] at hrec
    simp at hrec

/-- Otherwise the queues are recorded, and `EVENT_NEW_BUFFER` must be pending for
those that can be signalled. -/
theorem interrupt_recorded {s : Vdev} {event eventData : BitVec 64} (h : KicksOk s)
    (hnb : ¬ (event &&& EVENT_NEW_BUFFER ≠ 0 ∧ s.dev.ackDriverOk = true)) :
    KicksOk ((s.kick event eventData).signalled (vdevInterrupt s.dev event eventData)) ↔
      NoKickLost s (.interrupt event eventData) := by
  have hd : vdevInterrupt s.dev event eventData = ({ s.dev with
      vdevEvent := s.dev.vdevEvent ||| event
      vdevEventData := s.dev.vdevEventData ||| eventData
      evtAvail := true }, []) := if_neg hnb
  have hkept : KicksKept ((s.kick event eventData).signalled (vdevInterrupt s.dev event eventData)) := by
    intro i hi
    rw [hd] at hi ⊢
    simp only [Vdev.signalled]
    rw [queueBit_or, Bool.or_eq_true]
    exact (kick_kicked.mp (mem_signalled.mp hi).1).imp (h.1 i) And.right
  refine (and_iff_right hkept).trans ?_
  rw [hd]
  refine ⟨fun hm hack he hv i hi => ?_, fun hc i hi => ?_⟩
  · by_contra hctx
    have hpend := (hm i ⟨?_, Option.isSome_iff_ne_none.mpr hctx, hack⟩).1
    · simp only [Vdev.signalled, BitVec.and_or_distrib_right, he, hv] at hpend
      exact hpend rfl
    · simp only [Vdev.signalled]
      rw [queueBit_or, hi, Bool.or_true]
  · obtain ⟨hrec, hctx, hack⟩ := hi
    simp only [Vdev.signalled] at hrec hctx hack
    refine ⟨fun hno => ?_, rfl⟩
    simp only [Vdev.signalled, BitVec.and_or_distrib_right] at hno
    obtain ⟨hv, he⟩ := BitVec.or_eq_zero_iff.mp hno
    rw [queueBit_or, Bool.or_eq_true] at hrec
    rcases hrec with hrec | hrec
    · exact absurd hv (h.2 i ⟨hrec, hctx, hack⟩).1
    · rw [hc hack he hv i hrec] at hctx
      cases hctx

theorem interrupt_kicks {s : Vdev} {event eventData : BitVec 64} (h : KicksOk s) :
    KicksOk ((s.kick event eventData).signalled (vdevInterrupt s.dev event eventData)) ↔
      NoKickLost s (.interrupt event eventData) := by
  by_cases hc : event &&& EVENT_NEW_BUFFER ≠ 0 ∧ s.dev.ackDriverOk = true
  · exact iff_of_true (interrupt_acked h.1 hc.1 hc.2) fun _ he => absurd he hc.1
  · exact interrupt_recorded h hc

theorem ackDriverOk_kicks {s : Vdev} (h : KicksOk s) :
    KicksOk { s with dev := { s.dev with ackDriverOk := true } } ↔ NoKickLost s .ackDriverOk :=
  (and_iff_right h.1).trans
    ⟨fun hm i hrec hctx => hm i ⟨hrec, hctx, rfl⟩, fun hc i hi => hc i hi.1 hi.2.1⟩

/-- A new eventfd must not come for a queue whose kick is no longer pending. -/
theorem ioeventfd_kicks {s : Vdev} (h : KicksOk s) (i : Queue) (fd : Int) (ctx : Except Int Addr) :
    KicksOk { s with dev := (vbDevIoeventfd s.dev i fd ctx).1 } ↔ NoKickLost s (.ioeventfd i fd ctx) := by
  simp only [NoKickLost, vbDevIoeventfd]
  split
  · exact iff_of_true h (by omega)
  split
  · exact iff_of_true h (by omega)
  rename_i hfd hbusy
  cases ctx with
  | error e => exact iff_of_true h fun _ _ hok => nomatch hok
  | ok a =>
    refine (and_iff_right h.1).trans ⟨fun hm _ _ _ hrec hack => ?_, fun hc j hj => ?_⟩
    · refine hm i ⟨hrec, ?_, hack⟩
      simp
    · by_cases hji : j = i
      · subst hji
        exact hc (by omega) (by omega) rfl hj.1 hj.2.2
      · have hctx := hj.2.1
        simp only [Function.update_of_ne hji] at hctx
        exact h.2 j ⟨hj.1, hctx, hj.2.2⟩

theorem step_kicks (s : Vdev) (act : VdevAct) (t : Vdev) (h : KicksOk s) (hs : vdevStep s act = some t) :
    KicksOk t ↔ NoKickLost s act := by
  cases vdevStep_does hs with
  | interrupt he => exact interrupt_kicks h
  | locked hk => exact locked_kicks h _ _
  | ackDriverOk => exact ackDriverOk_kicks h
  | ioeventfd => exact ioeventfd_kicks h _ _ _
  | appExit =>
    refine (kicksOk_cleared ?_).trans Iff.rfl
    rfl
  | _ => exact iff_of_true h trivial

/-- In a run, no kick is lost and none is left behind exactly when every step
meets `NoKickLost`. -/
theorem kicks_iff (d : VbDev) (as : List VdevAct) :
    Always vdevStep KicksOk (.opened d) as ↔ Each vdevStep (fun s act _ => NoKickLost s act) (.opened d) as := by
  have h₀ : KicksOk (.opened d) := (kicksOk_cleared rfl).mpr fun _ => rfl
  exact always_iff (I := KicksOk) (fun s act t h hs hc => (step_kicks s act t h hs).mpr hc) step_kicks h₀ h₀

instance : DecidablePred KicksOk := fun s =>
  inferInstanceAs (Decidable ((∀ i, s.kicked i = true → queueBit s.dev.vdevEventData i = true) ∧
    ∀ i, (queueBit s.dev.vdevEventData i = true ∧ (s.dev.ioctx i).ctx.isSome ∧ s.dev.ackDriverOk = true) →
      (s.dev.vdevEvent &&& EVENT_NEW_BUFFER ≠ 0 ∧ s.dev.evtAvail = true)))

/-- The driver kicks a queue before the backend has acknowledged `EVENT_DRIVER_OK`:
the thread that is woken drops the event, and the queue is never signalled. -/
theorem early_kick_lost :
    ¬ Always vdevStep KicksOk (.opened { label := 1 })
      [.ioeventfd 0 3 (.ok 1), .enter 0, .interrupt EVENT_NEW_BUFFER 1, .wake 0, .locked 0 0, .leave 0,
        .ackDriverOk] := by
  decide +kernel

end GH.Proof.Virtio
