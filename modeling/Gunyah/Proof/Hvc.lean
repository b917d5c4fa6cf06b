import Mathlib.Tactic.Common
import Gunyah.Spec.Hvc
import Gunyah.Framework.Relay
import Gunyah.Framework.Run

/-!
# The order of a console's output

`cancel_work_sync` waits for the worker, but it neither keeps `put_chars` from
queueing the work again nor waits for the other caller that runs the function itself:
two runs of `gh_hvc_put_work_fn` can each hold a piece of the output, and the later one
can be sent first (`requeued_before_flush`). The console is a relay of its bytes
(`step_relay`), with the runs as its hands, so its output is in order where each run
takes only while no other holds a piece (`output_in_order`).
-/

namespace GH.Proof.Hvc

open GH.Impl GH.Impl.Hvc GH.Spec.Hvc

/-- The console as a relay, of which the runs of `gh_hvc_put_work_fn` are the hands. -/
def relay (s : Console) : Relay Runner Byte where
  queue := s.putFifo
  hand r := (s.pc r).elim [] held
  accepted := s.accepted
  given := s.given

variable {s t : Console} {r : Runner} {pc : WorkPc}

theorem relay_hand (h : s.pc r = some pc) : (relay s).hand r = held pc := by
  simp only [relay, h, Option.elim_some]

/-! ## Where the runs are -/

theorem pc_setPc (h : s.pc r = some pc) (pc' : Option WorkPc) :
    (s.setPc pc' r).pc = Function.update s.pc r pc' := by
  funext r'
  cases r with
  | worker => cases r' <;> simp [Console.setPc, Console.pc]
  | thread i =>
    cases hi : s.threads i with
    | work c pc₀ =>
      cases r' with
      | worker => simp [Console.setPc, Console.pc, hi]
      | thread j =>
        by_cases hj : j = i
        · subst hj
          cases pc' <;> simp [Console.setPc, Console.pc, hi]
        · simp [Console.setPc, Console.pc, hi, hj]
    | out | getVmid | cancel _ | wait _ _ | last _ => simp [Console.pc, hi] at h

theorem setPc_rest (pc' : Option WorkPc) (r : Runner) :
    (s.setPc pc' r).putFifo = s.putFifo ∧ (s.setPc pc' r).accepted = s.accepted ∧
      (s.setPc pc' r).given = s.given := by
  cases r with
  | worker => exact ⟨rfl, rfl, rfl⟩
  | thread i =>
    simp only [Console.setPc]
    split <;> exact ⟨rfl, rfl, rfl⟩

theorem relay_setPc (h : s.pc r = some pc) (pc' : Option WorkPc) :
    relay (s.setPc pc' r) =
      { relay s with hand := Function.update (relay s).hand r (pc'.elim [] held) } := by
  obtain ⟨hfifo, haccepted, hgiven⟩ := setPc_rest (s := s) pc' r
  simp only [relay, hfifo, haccepted, hgiven, pc_setPc h, Relay.mk.injEq, true_and, and_true]
  funext r'
  by_cases hr : r' = r
  · subst hr
    simp only [Function.update_self]
  · simp only [Function.update_of_ne hr]

/-- A thread and the work item, without the worker, are the business of the thread's run only. -/
theorem pc_threads {i : Nat} {w : Work} (hw : w.running = s.putWork.running) (pc : ThreadPc) (hr : r ≠ .thread i) :
    Console.pc { s with putWork := w, threads := Function.update s.threads i pc } r = s.pc r := by
  cases r with
  | worker => simp only [Console.pc, hw]
  | thread j =>
    have hj : j ≠ i := fun h => hr (h ▸ rfl)
    simp only [Console.pc, Function.update_of_ne hj]

/-- A thread that is in no run, or at the start of one, is there again after its step. -/
theorem relay_threads {i : Nat} {pc : ThreadPc} {w : Work} (hw : w.running = s.putWork.running)
    (hs : ∀ c p, s.threads i = .work c p → held p = []) (ht : ∀ c p, pc = .work c p → held p = []) :
    relay { s with putWork := w, threads := Function.update s.threads i pc } = relay s := by
  simp only [relay, Relay.mk.injEq, true_and, and_true]
  funext r'
  by_cases hr : r' = .thread i
  · subst hr
    simp only [Console.pc, Function.update_self]
    cases h : s.threads i <;> cases h' : pc <;> simp_all
  · rw [pc_threads hw pc hr]

/-! ## Steps -/

/-- A step of a thread out of a run: the worker stays where it is, and the thread goes nowhere
that it would hold anything. -/
theorem thread_cases {w w' : Work} {ret : Int} {pc pc' : ThreadPc}
    (h : ghHvcThreadStep w ret pc = some (w', pc')) :
    w'.running = w.running ∧ (∀ c p, pc ≠ .work c p) ∧ ∀ c p, pc' = .work c p → held p = [] := by
  cases pc with
  | out | work _ _ => simp [ghHvcThreadStep] at h
  | getVmid =>
    simp only [ghHvcThreadStep, Option.some.injEq, Prod.mk.injEq] at h
    obtain ⟨rfl, rfl⟩ := h
    refine ⟨rfl, nofun, fun c p hp => ?_⟩
    split at hp <;> cases hp
  | cancel c =>
    simp only [ghHvcThreadStep, Option.some.injEq, Prod.mk.injEq] at h
    obtain ⟨rfl, rfl⟩ := h
    exact ⟨rfl, nofun, nofun⟩
  | wait c pending =>
    simp only [ghHvcThreadStep, Option.ite_none_right_eq_some, Option.some.injEq, Prod.mk.injEq] at h
    obtain ⟨-, rfl, rfl⟩ := h
    refine ⟨rfl, nofun, fun c p hp => ?_⟩
    split at hp <;> cases hp
    rfl
  | last c =>
    simp only [ghHvcThreadStep, Option.some.injEq, Prod.mk.injEq] at h
    obtain ⟨rfl, rfl⟩ := h
    exact ⟨rfl, nofun, nofun⟩

theorem putWorkStep_take (fifo : List Byte) (ret : Int) :
    ghHvcPutWorkStep fifo ret .take =
      (fifo.drop GH_HVC_WRITE_MSG_SIZE,
        some (if (fifo.take GH_HVC_WRITE_MSG_SIZE).length = 0 then .test
          else .write (fifo.take GH_HVC_WRITE_MSG_SIZE))) := rfl

theorem held_taken (buf : List Byte) : held (if buf.length = 0 then .test else .write buf) = buf := by
  split
  · rename_i hlen
    exact (List.length_eq_zero_iff.mp hlen).symm
  · rfl

/-- A step of a run: it takes, or it passes on what it holds, which can be nothing. -/
theorem relay_work {ret : Int} (h : s.pc r = some pc) (ht : consoleStep s (.work r ret) = some t) :
    (pc = .take ∧ relay t = (relay s).take r GH_HVC_WRITE_MSG_SIZE) ∨ relay t = (relay s).give r := by
  simp only [consoleStep, h, Option.map_some, Option.some.injEq] at ht
  have hset (fifo : List Byte) (pc' : Option WorkPc) :=
    relay_setPc (s := { s with putFifo := fifo, given := s.given ++ held pc }) h pc'
  subst ht
  rw [hset]
  have hr := relay_hand h
  cases pc with
  | take =>
    left
    refine ⟨rfl, ?_⟩
    simp only [putWorkStep_take, Relay.take, relay, Option.elim_some, held_taken]
    simp only [held, List.append_nil]
    rfl
  | getVmid =>
    right
    simp only [Relay.give, hr, ghHvcPutWorkStep]
    split <;> rfl
  | test =>
    right
    simp only [Relay.give, hr, ghHvcPutWorkStep]
    split <;> rfl
  | write buf =>
    right
    simp only [Relay.give, hr, ghHvcPutWorkStep]
    split <;> rfl

/-- What a step does to the relay. -/
theorem step_relay {act : ConsoleAct} (ht : consoleStep s act = some t) :
    relay t = relay s ∨ (∃ buf, relay t = (relay s).put buf) ∨
    (∃ r ret, act = .work r ret ∧ s.pc r = some .take ∧
      relay t = (relay s).take r GH_HVC_WRITE_MSG_SIZE) ∨
    ∃ r, relay t = (relay s).give r := by
  cases act with
  | putChars buf =>
    simp only [consoleStep, Option.some.injEq] at ht
    subst ht
    refine .inr (.inl ⟨buf.take (kfifoIn s.putFifo buf).2, ?_⟩)
    simp only [ghHvcPutChars, relay, Relay.put, Relay.mk.injEq, and_true]
    refine ⟨rfl, ?_⟩
    funext r
    cases r with
    | worker =>
      simp only [Console.pc]
      split <;> rfl
    | thread i => rfl
  | call i c =>
    simp only [consoleStep, Option.ite_none_right_eq_some, Option.some.injEq] at ht
    obtain ⟨hout, rfl⟩ := ht
    refine .inl (relay_threads rfl (fun c p hp => ?_) fun c' p hp => ?_)
    · simp [hout] at hp
    · cases c <;> simp [Caller.start] at hp
  | thread i ret =>
    simp only [consoleStep, Option.map_eq_some_iff] at ht
    obtain ⟨⟨w, pc⟩, hstep, rfl⟩ := ht
    obtain ⟨hw, hs, ht⟩ := thread_cases hstep
    exact .inl (relay_threads hw (fun c p hp => absurd hp (hs c p)) ht)
  | start =>
    simp only [consoleStep, Work.start, Option.map_eq_some_iff, Option.ite_none_right_eq_some,
      Option.some.injEq] at ht
    obtain ⟨w, ⟨⟨-, hidle⟩, rfl⟩, rfl⟩ := ht
    refine .inl ?_
    simp only [relay, Relay.mk.injEq, true_and, and_true]
    funext r
    cases r with
    | worker => simp [Console.pc, hidle, held]
    | thread i => rfl
  | work r ret =>
    obtain ⟨pc, hpc, -⟩ := Option.map_eq_some_iff.mp ht
    obtain ⟨rfl, htake⟩ | hgive := relay_work hpc ht
    · exact .inr (.inr (.inl ⟨r, ret, rfl, hpc, htake⟩))
    · exact .inr (.inr (.inr ⟨r, hgive⟩))

/-- A step at which runs take alone keeps the order. -/
theorem step_inOrder {act : ConsoleAct} (h : (relay s).InOrder) (ht : consoleStep s act = some t)
    (halone : TakesAlone s act t) : (relay t).InOrder := by
  obtain heq | ⟨buf, heq⟩ | ⟨r, ret, rfl, hpc, heq⟩ | ⟨r, heq⟩ := step_relay ht
  · exact heq ▸ h
  · exact heq ▸ h.put
  · have hempty : ∀ r', (relay s).hand r' = [] := by
      intro r'
      cases hr' : s.pc r' with
      | none => simp [relay, hr']
      | some pc => exact (relay_hand hr').trans (halone hpc r' pc hr')
    exact heq ▸ h.take hempty
  · exact heq ▸ h.give

theorem init_inOrder : (relay .init).InOrder :=
  ⟨.worker, fun r _ => by cases r <;> rfl, rfl⟩

/-! ## Runs -/

/-- Where each run of `gh_hvc_put_work_fn` takes bytes only while no other holds any, the RM gets
the beginning of what was written, in its order. -/
theorem output_in_order (acts : List ConsoleAct) (h : Each consoleStep TakesAlone .init acts) :
    Always consoleStep InOrder .init acts := by
  have hinv : Always consoleStep (fun s => (relay s).InOrder) .init acts :=
    inv_each (fun s act t hs ht halone => step_inOrder hs ht halone) init_inOrder h
  intro bs cs t hacts ht
  exact (hinv bs cs t hacts ht).begins

/-- The acts of a single thread, and of those that only put bytes into the FIFO. -/
def By (i : Nat) : ConsoleAct → Bool
  | .putChars _ => true
  | .call j _ | .thread j _ => j = i
  | .start => false
  | .work r _ => r = .thread i

/-- No other thread runs the function. -/
def Only (i : Nat) (s : Console) : Prop := ∀ r, r ≠ .thread i → s.pc r = none

theorem only_step {i : Nat} {act : ConsoleAct} (h : Only i s) (ht : consoleStep s act = some t) (hby : By i act = true) :
    Only i t := by
  intro r hr
  cases act with
  | putChars buf =>
    simp only [consoleStep, Option.some.injEq] at ht
    subst ht
    rw [← h r hr]
    cases r with
    | worker =>
      simp only [ghHvcPutChars, Console.pc]
      split <;> rfl
    | thread j => rfl
  | call j c =>
    simp only [consoleStep, Option.ite_none_right_eq_some, Option.some.injEq] at ht
    obtain ⟨-, rfl⟩ := ht
    obtain rfl : j = i := of_decide_eq_true hby
    exact (pc_threads rfl _ hr).trans (h r hr)
  | thread j ret =>
    simp only [consoleStep, Option.map_eq_some_iff] at ht
    obtain ⟨⟨w, pc⟩, hstep, rfl⟩ := ht
    obtain rfl : j = i := of_decide_eq_true hby
    exact (pc_threads (thread_cases hstep).1 _ hr).trans (h r hr)
  | start => cases hby
  | work r₀ ret =>
    have hr₀ : r ≠ r₀ := fun heq => hr (heq.trans (of_decide_eq_true hby))
    obtain ⟨pc, hpc, rfl⟩ := Option.map_eq_some_iff.mp ht
    have hset (fifo : List Byte) (pc' : Option WorkPc) :=
      pc_setPc (s := { s with putFifo := fifo, given := s.given ++ held pc }) hpc pc'
    rw [hset, Function.update_of_ne hr₀]
    exact h r hr

/-- A thread that is alone takes alone. -/
theorem takesAlone_of_by {i : Nat} {acts : List ConsoleAct} (hby : ∀ act ∈ acts, By i act = true) :
    Each consoleStep TakesAlone .init acts := by
  have honly : Always consoleStep (Only i) .init acts :=
    inv_each (C := fun _ act _ => By i act = true) (fun _ _ _ hs ht hact => only_step hs ht hact)
      (fun r _ => by cases r <;> rfl)
      fun bs act _ _ _ hacts _ _ => hby act (hacts ▸ List.mem_append_right bs List.mem_cons_self)
  intro bs act cs s t hacts hs _
  have hs := honly bs (act :: cs) s hacts hs
  cases act with
  | work r ret =>
    intro htake r' pc hpc
    have hrun {r : Runner} {pc : WorkPc} (h : s.pc r = some pc) : r = .thread i := by
      by_contra hr
      rw [hs r hr] at h
      cases h
    rw [hrun hpc, ← hrun htake, htake, Option.some.injEq] at hpc
    exact hpc ▸ rfl
  | putChars _ | call _ _ | thread _ _ | start => trivial

/-- The run of a flush. -/
def flushRun : List ConsoleAct :=
  [.putChars [65], .call 0 .flush, .thread 0 0, .thread 0 0, .thread 0 0,
    .work (.thread 0) 0, .work (.thread 0) 0, .work (.thread 0) 0]

theorem output_in_order_flush :
    Always consoleStep InOrder .init (flushRun ++ [.work (.thread 0) 0, .work (.thread 0) 0]) :=
  output_in_order _ (takesAlone_of_by (i := 0) (by decide))

/-- A flush has taken `A` when `B` is written: the worker takes it and sends it first. -/
theorem requeued_before_flush :
    ¬ Always consoleStep InOrder .init
      (flushRun ++ [.putChars [66], .start, .work .worker 0, .work .worker 0, .work .worker 0,
        .work .worker 0]) := by
  decide

end GH.Proof.Hvc
