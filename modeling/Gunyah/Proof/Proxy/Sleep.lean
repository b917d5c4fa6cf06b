import Mathlib.Tactic.Common
import Gunyah.Spec.Proxy.Sleep
import Gunyah.Framework.Run

/-!
# Waking up vCPUs

A thread falls asleep only if it finds `abort_sleep` false after it has entered
the wait queue, so an interrupt that sets `abort_sleep` finds it in the queue
and wakes it, or the thread sees the flag (`never_slept_through`).

The exit of a VM relies on the same flag, but it comes once: a thread that has
tested `is_active` before the exit, and resets `abort_sleep` after it, sleeps
for good. Without such a reset, `abort_sleep` stays set (`released_on_exit`).
-/

namespace GH.Proof.Proxy

open GH.Impl GH.Impl.Proxy GH.Spec.Proxy

/-! ## A step of a thread -/

section Thread

variable {c c' : RunVcpu} {isActive : Bool} {ret : Int} {st : VcpuState}

theorem wakeUp_asleep (c : RunVcpu) : c.wakeUp.asleep = false := by
  unfold RunVcpu.wakeUp
  split
  · simp [RunVcpu.asleep]
  · rename_i hpc
    simp [RunVcpu.asleep, (not_or.mp hpc).2]

@[simp] theorem wakeUp_abortSleep (c : RunVcpu) : c.wakeUp.abortSleep = c.abortSleep := by
  unfold RunVcpu.wakeUp
  split <;> rfl

/-- What a step of a thread can do: it resets `abort_sleep`, enters the wait queue,
gives up the CPU, or goes on. -/
theorem step_cases (h : ghVcpuRunStep isActive ret st c = some c') :
    (c.pc = .reset ∧ c' = { c with abortSleep := false, pc := .hypercall }) ∨
    (c.pc = .prepare ∧ c' = { c with pc := .waitTest, woken := false }) ∨
    (c.pc = .waitTest ∧ c.abortSleep = false ∧ c' = { c with pc := .blocked }) ∨
    ∃ pc, c' = { c with pc := pc } ∧ pc ≠ .blocked ∧
      (c.abortSleep = true → c.pc = .hypercall ∨ toRun pc < toRun c.pc) := by
  unfold ghVcpuRunStep at h
  cases hpc : c.pc with
  | out => simp [hpc] at h
  | entry =>
    simp only [hpc, Option.some.injEq] at h
    refine .inr (.inr (.inr ⟨_, h.symm, ?_, fun _ => .inr ?_⟩)) <;> split <;> simp [toRun]
  | reset =>
    simp only [hpc, Option.some.injEq] at h
    exact .inl ⟨rfl, h.symm⟩
  | hypercall =>
    simp only [hpc, Option.some.injEq] at h
    refine .inr (.inr (.inr ⟨_, h.symm, ?_, fun _ => .inl rfl⟩))
    split <;> simp
  | sleepTest =>
    simp only [hpc, Option.some.injEq] at h
    refine .inr (.inr (.inr ⟨_, h.symm, ?_, fun _ => .inr ?_⟩)) <;> split <;> simp [toRun]
  | waitFirst =>
    simp only [hpc, Option.some.injEq] at h
    refine .inr (.inr (.inr ⟨_, h.symm, ?_, fun _ => .inr ?_⟩)) <;> split <;> simp [toRun]
  | prepare =>
    simp only [hpc, Option.some.injEq] at h
    split at h
    · exact .inr (.inr (.inr ⟨_, h.symm, nofun, fun _ => .inr (by simp [toRun])⟩))
    · exact .inr (.inl ⟨rfl, h.symm⟩)
  | waitTest =>
    simp only [hpc, Option.some.injEq] at h
    cases ha : c.abortSleep with
    | false =>
      rw [ha] at h
      exact .inr (.inr (.inl ⟨rfl, rfl, by simpa [ha] using h.symm⟩))
    | true =>
      rw [ha] at h
      refine .inr (.inr (.inr ⟨.signalTest GH_ERROR_OK, ?_, nofun, fun _ => .inr (by simp [toRun])⟩))
      simpa [ha] using h.symm
  | blocked =>
    simp only [hpc, Option.ite_none_right_eq_some, Option.some.injEq] at h
    exact .inr (.inr (.inr ⟨_, h.2.symm, nofun, fun _ => .inr (by simp [toRun])⟩))
  | signalTest ret =>
    simp only [hpc, Option.some.injEq] at h
    refine .inr (.inr (.inr ⟨_, h.symm, ?_, fun _ => .inr ?_⟩)) <;> split <;> simp [toRun]
  | activeTest ret =>
    simp only [hpc, Option.some.injEq] at h
    refine .inr (.inr (.inr ⟨_, h.symm, ?_, fun _ => .inr ?_⟩)) <;> split <;> simp [toRun]

/-- Only the head of the loop resets `abort_sleep`. -/
theorem step_abortSleep (h : ghVcpuRunStep isActive ret st c = some c') (hpc : c.pc ≠ .reset) :
    c'.abortSleep = c.abortSleep := by
  obtain ⟨hr, -⟩ | ⟨-, rfl⟩ | ⟨-, -, rfl⟩ | ⟨pc, rfl, -⟩ := step_cases h
  · exact absurd hr hpc
  · rfl
  · rfl
  · rfl

/-- A thread falls asleep with `abort_sleep` false. -/
theorem step_asleep (h : ghVcpuRunStep isActive ret st c = some c') (ha : c'.asleep = true) :
    c.abortSleep = false := by
  obtain ⟨-, rfl⟩ | ⟨-, rfl⟩ | ⟨-, hf, rfl⟩ | ⟨pc, rfl, hne, -⟩ := step_cases h
  · simp [RunVcpu.asleep] at ha
  · simp [RunVcpu.asleep] at ha
  · exact hf
  · simp [RunVcpu.asleep, hne] at ha

/-- With `abort_sleep` set, a thread gets to its next run. -/
theorem step_toRun (h : ghVcpuRunStep isActive ret st c = some c') (ha : c.abortSleep = true) :
    c.pc = .hypercall ∨ toRun c'.pc < toRun c.pc := by
  obtain ⟨hpc, rfl⟩ | ⟨hpc, rfl⟩ | ⟨-, hf, -⟩ | ⟨pc, rfl, -, hto⟩ := step_cases h
  · right
    simp [hpc, toRun]
  · right
    simp [hpc, toRun]
  · rw [ha] at hf
    cases hf
  · exact hto ha

/-- A thread in `gh_vcpu_run` that is not asleep goes on. -/
theorem step_of_awake (ha : c.asleep = false) (hin : c.pc ≠ .out) : ∃ d, ghVcpuRunStep isActive ret st c = some d := by
  unfold ghVcpuRunStep
  cases hpc : c.pc with
  | out => exact absurd hpc hin
  | blocked =>
    have hwoken : c.woken = true := by simpa [RunVcpu.asleep, hpc] using ha
    exact ⟨_, if_pos hwoken⟩
  | _ => exact ⟨_, rfl⟩

end Thread

/-! ## Interrupts -/

/-- A vCPU that an interrupt has come for has `abort_sleep` set, and is woken where it is asleep. -/
structure SleepInv (s : SleepState) : Prop where
  set : ∀ j, s.since j = true → (s.vcpus j).abortSleep = true
  wake : ∀ j, s.since j = true → (s.vcpus j).asleep = true → ∃ k, s.irqs k = .wake j

theorem SleepInv.init (n : Nat) : SleepInv (.init n) where
  set j h := by cases h
  wake j h := by cases h

variable {s t : SleepState} {j k : Nat}

theorem SleepInv.notSleptThrough (h : SleepInv s) (j : Nat) : NotSleptThrough s j where
  woken := h.wake j
  goes _ ha hin ret st := step_of_awake ha hin
  next hs _ _ _ hst := step_toRun hst (h.set j hs)

/-- A vCPU and its thread are changed, but `abort_sleep` is not reset, and the thread
does not fall asleep with `abort_sleep` set. -/
theorem SleepInv.setVcpu (h : SleepInv s) {c : RunVcpu} (hset : (s.vcpus j).abortSleep = true → c.abortSleep = true)
    (hasleep : c.asleep = true → (s.vcpus j).asleep = true ∨ c.abortSleep = false) : SleepInv (s.setVcpu j c) where
  set := (Function.forall_update_iff s.vcpus fun i c => s.since i = true → c.abortSleep = true).mpr
    ⟨fun hs => hset (h.set j hs), fun i _ => h.set i⟩
  wake := by
    refine (Function.forall_update_iff s.vcpus fun i c =>
      s.since i = true → c.asleep = true → ∃ k, s.irqs k = .wake i).mpr ⟨fun hs ha => ?_, fun i _ => h.wake i⟩
    rcases hasleep ha with ha' | hf
    · exact h.wake j hs ha'
    · rw [hset (h.set j hs)] at hf
      cases hf

/-- The thread resets `abort_sleep`. -/
theorem SleepInv.reset (h : SleepInv s) (c : RunVcpu) :
    SleepInv { s.setVcpu j c with since := Function.update s.since j false } where
  set i hi := by
    by_cases hij : i = j
    · simp [hij] at hi
    · simp only [SleepState.setVcpu, Function.update_of_ne hij] at hi ⊢
      exact h.set i hi
  wake i hi := by
    by_cases hij : i = j
    · simp [hij] at hi
    · simp only [SleepState.setVcpu, Function.update_of_ne hij] at hi ⊢
      exact h.wake i hi

/-- The handler that wakes a vCPU is another one than `k`. -/
theorem wake_update {irqs : Nat → IrqPc} {i : Nat} {pc : IrqPc} (hk : irqs k ≠ .wake i) (h : ∃ k, irqs k = .wake i) :
    ∃ k', Function.update irqs k pc k' = .wake i := by
  obtain ⟨k', hk'⟩ := h
  have hne : k' ≠ k := by
    rintro rfl
    exact hk hk'
  exact ⟨k', by rw [Function.update_of_ne hne, hk']⟩

/-- A handler sets `abort_sleep`. -/
theorem SleepInv.irqSet (h : SleepInv s) (hk : s.irqs k = .set j) :
    SleepInv { s.setVcpu j { s.vcpus j with abortSleep := true } with
      irqs := Function.update s.irqs k (.wake j)
      since := Function.update s.since j true } where
  set i hi := by
    by_cases hij : i = j
    · simp [SleepState.setVcpu, hij]
    · simp only [SleepState.setVcpu, Function.update_of_ne hij] at hi ⊢
      exact h.set i hi
  wake i hi ha := by
    by_cases hij : i = j
    · exact ⟨k, by simp [hij]⟩
    · simp only [SleepState.setVcpu, Function.update_of_ne hij] at hi ha ⊢
      exact wake_update (by rw [hk]; nofun) (h.wake i hi ha)

/-- A handler wakes the thread. -/
theorem SleepInv.irqWake (h : SleepInv s) (hk : s.irqs k = .wake j) :
    SleepInv { s.setVcpu j (s.vcpus j).wakeUp with irqs := Function.update s.irqs k .out } where
  set := (h.setVcpu (c := (s.vcpus j).wakeUp) (by simp) (by simp [wakeUp_asleep])).set
  wake i hi ha := by
    by_cases hij : i = j
    · simp [SleepState.setVcpu, hij, wakeUp_asleep] at ha
    · simp only [SleepState.setVcpu, Function.update_of_ne hij] at hi ha ⊢
      refine wake_update (fun he => ?_) (h.wake i hi ha)
      rw [hk, IrqPc.wake.injEq] at he
      exact hij he.symm

theorem SleepInv.step {act : SleepAct} (h : SleepInv s) (hst : sleepStep s act = some t) : SleepInv t := by
  cases act with
  | call j =>
    simp only [sleepStep, Option.ite_none_right_eq_some, Option.some.injEq] at hst
    obtain ⟨-, rfl⟩ := hst
    exact h.setVcpu id (by simp [RunVcpu.asleep])
  | run j ret st =>
    simp only [sleepStep, Option.map_eq_some_iff] at hst
    obtain ⟨c, hc, rfl⟩ := hst
    by_cases hpc : (s.vcpus j).pc = .reset
    · simp only [if_pos hpc]
      exact h.reset c
    · simp only [if_neg hpc]
      have ha := step_abortSleep hc hpc
      exact h.setVcpu (by rw [ha]; exact id) fun hs => .inr (ha.trans (step_asleep hc hs))
  | irq k j =>
    simp only [sleepStep, Option.ite_none_right_eq_some, Option.some.injEq] at hst
    obtain ⟨hk, rfl⟩ := hst
    exact ⟨h.set, fun i hi ha => wake_update (by rw [hk]; nofun) (h.wake i hi ha)⟩
  | handler k =>
    simp only [sleepStep] at hst
    split at hst
    · cases hst
    · rename_i j hk
      cases hst
      exact h.irqSet hk
    · rename_i j hk
      cases hst
      exact h.irqWake hk
  | exit =>
    simp only [sleepStep, Option.ite_none_right_eq_some, Option.some.injEq] at hst
    obtain ⟨-, rfl⟩ := hst
    exact ⟨h.set, h.wake⟩
  | exitStep =>
    simp only [sleepStep] at hst
    split at hst
    · cases hst
    · cases hst
      exact ⟨h.set, h.wake⟩
    · cases hst
      exact ⟨h.set, h.wake⟩
    · cases hst
      split <;> exact ⟨h.set, h.wake⟩
    · rename_i i _
      cases hst
      have := h.setVcpu (j := i) (c := { s.vcpus i with abortSleep := true }) (fun _ => rfl) fun ha => .inl ha
      exact ⟨this.set, this.wake⟩
    · rename_i i _
      cases hst
      have := h.setVcpu (j := i) (c := (s.vcpus i).wakeUp) (by simp) (by simp [wakeUp_asleep])
      exact ⟨this.set, this.wake⟩
  | signal j =>
    cases hst
    exact h.setVcpu (by simp) (by simp [wakeUp_asleep])
  | handled j =>
    simp only [sleepStep, Option.ite_none_right_eq_some, Option.some.injEq] at hst
    obtain ⟨-, rfl⟩ := hst
    exact h.setVcpu id fun ha => .inl ha

/-- An interrupt of a vCPU is not slept through. -/
theorem never_slept_through (n : Nat) (as : List SleepAct) :
    Always sleepStep (fun s => ∀ j, NotSleptThrough s j) (.init n) as := by
  intro bs cs t _ hex
  exact (inv_exec (fun _ _ _ h hst => h.step hst) (SleepInv.init n) hex).notSleptThrough

/-! ## The exit of the VM -/

/-- `gh_wakeup_all_vcpus` is in its loop. -/
def looping : ExitPc → Bool
  | .loop _ | .set _ | .wake _ => true
  | _ => false

/-- A vCPU that the exit has passed has `abort_sleep` set, and the VM is not active from then on. -/
structure ExitInv (s : SleepState) : Prop where
  set : ∀ j < s.vcpuCount, s.exitSet j = true → (s.vcpus j).abortSleep = true
  inLoop : looping s.exit = true → s.isActive = false
  ended : s.exited = true → s.isActive = false ∧ (s.exit = .out ∨ s.exit = .test)

theorem ExitInv.init (n : Nat) : ExitInv (.init n) where
  set j _ h := by cases h
  inLoop h := by cases h
  ended h := by cases h

theorem ExitInv.released (h : ExitInv s) : ReleasedOnExit s := by
  rintro hex - j hj ⟨-, hf⟩
  have hset : s.exitSet j = true := by
    rcases (h.ended hex).2 with he | he <;> simpa [SleepState.exitSet, he] using hex
  rw [h.set j hj hset] at hf
  cases hf

/-- A vCPU and its thread are changed, but `abort_sleep` is not reset after
`gh_wakeup_all_vcpus` has set it. -/
theorem ExitInv.setVcpu (h : ExitInv s) {c : RunVcpu}
    (hset : s.exitSet j = true → (s.vcpus j).abortSleep = true → c.abortSleep = true) : ExitInv (s.setVcpu j c) where
  set := (Function.forall_update_iff s.vcpus fun i c => i < s.vcpuCount → s.exitSet i = true → c.abortSleep = true).mpr
    ⟨fun hj he => hset he (h.set j hj he), fun i _ => h.set i⟩
  inLoop := h.inLoop
  ended := h.ended

theorem ExitInv.not_exited (h : ExitInv s) (he : looping s.exit = true) : s.exited ≠ true := by
  intro hx
  rcases (h.ended hx).2 with ho | ho <;> · rw [ho] at he; cases he

theorem ExitInv.exitStep (h : ExitInv s) (hst : sleepStep s .exitStep = some t) : ExitInv t := by
  simp only [sleepStep] at hst
  split at hst
  · cases hst
  · rename_i he
    have hset : ∀ j < s.vcpuCount, s.exited = true → (s.vcpus j).abortSleep = true := fun j hj hx =>
      h.set j hj (by simpa [SleepState.exitSet, he] using hx)
    by_cases ha : s.isActive = true
    · simp only [if_pos ha, Option.some.injEq] at hst
      subst hst
      refine ⟨hset, nofun, fun hx => ?_⟩
      rw [(h.ended hx).1] at ha
      cases ha
    · simp only [if_neg ha, Option.some.injEq] at hst
      subst hst
      exact ⟨hset, nofun, fun _ => ⟨Bool.eq_false_iff.mpr ha, .inl rfl⟩⟩
  · rename_i he
    cases hst
    have hno : ∀ j < s.vcpuCount, decide (j < 0) = true → (s.vcpus j).abortSleep = true := by simp
    refine ⟨hno, fun _ => rfl, fun hx => ?_⟩
    rcases (h.ended hx).2 with ho | ho <;> · rw [he] at ho; cases ho
  · rename_i i he
    have hin : looping s.exit = true := by rw [he]; rfl
    have hset : ∀ j < s.vcpuCount, decide (j < i) = true → (s.vcpus j).abortSleep = true := fun j hj hji =>
      h.set j hj (by rw [SleepState.exitSet, he]; exact hji)
    cases hst
    by_cases hi : i < s.vcpuCount
    · rw [if_pos hi]
      exact ⟨hset, fun _ => h.inLoop hin, fun hx => absurd hx (h.not_exited hin)⟩
    · rw [if_neg hi]
      have hall : ∀ j < s.vcpuCount, (s.vcpus j).abortSleep = true := fun j hj =>
        hset j hj (decide_eq_true (by omega))
      exact ⟨fun j hj _ => hall j hj, nofun, fun _ => ⟨h.inLoop hin, .inl rfl⟩⟩
  · rename_i i he
    have hin : looping s.exit = true := by rw [he]; rfl
    cases hst
    refine ⟨?_, fun _ => h.inLoop hin, fun hx => absurd hx (h.not_exited hin)⟩
    refine (Function.forall_update_iff s.vcpus fun j c => j < s.vcpuCount → decide (j ≤ i) = true →
      c.abortSleep = true).mpr ⟨fun _ _ => rfl, fun j hji hj hle => h.set j hj ?_⟩
    rw [SleepState.exitSet, he]
    exact decide_eq_true (lt_of_le_of_ne (of_decide_eq_true hle) hji)
  · rename_i i he
    have hin : looping s.exit = true := by rw [he]; rfl
    have hwake := h.setVcpu (j := i) (c := (s.vcpus i).wakeUp) (by simp)
    cases hst
    have hset : ∀ j < s.vcpuCount, decide (j < i + 1) = true → (s.setVcpu i (s.vcpus i).wakeUp |>.vcpus j).abortSleep =
        true := by
      intro j hj hji
      refine hwake.set j hj ?_
      simp only [SleepState.exitSet, SleepState.setVcpu, he]
      exact decide_eq_true (Nat.lt_succ_iff.mp (of_decide_eq_true hji))
    exact ⟨hset, fun _ => h.inLoop hin, fun hx => absurd hx (h.not_exited hin)⟩

theorem ExitInv.step {act : SleepAct} (h : ExitInv s) (hst : sleepStep s act = some t) (hc : ResetsBeforeExit s act t) :
    ExitInv t := by
  cases act with
  | call j =>
    simp only [sleepStep, Option.ite_none_right_eq_some, Option.some.injEq] at hst
    obtain ⟨-, rfl⟩ := hst
    exact h.setVcpu fun _ => id
  | run j ret st =>
    simp only [sleepStep, Option.map_eq_some_iff] at hst
    obtain ⟨c, hrun, rfl⟩ := hst
    have := h.setVcpu (j := j) (c := c) fun he ha => by
      rw [step_abortSleep hrun fun hpc => by rw [hc hpc] at he; cases he]
      exact ha
    exact ⟨this.set, this.inLoop, this.ended⟩
  | irq k j =>
    simp only [sleepStep, Option.ite_none_right_eq_some, Option.some.injEq] at hst
    obtain ⟨-, rfl⟩ := hst
    exact ⟨h.set, h.inLoop, h.ended⟩
  | handler k =>
    simp only [sleepStep] at hst
    split at hst
    · cases hst
    · rename_i j _
      cases hst
      have := h.setVcpu (j := j) (c := { s.vcpus j with abortSleep := true }) fun _ _ => rfl
      exact ⟨this.set, this.inLoop, this.ended⟩
    · rename_i j _
      cases hst
      have := h.setVcpu (j := j) (c := (s.vcpus j).wakeUp) (by simp)
      exact ⟨this.set, this.inLoop, this.ended⟩
  | exit =>
    simp only [sleepStep, Option.ite_none_right_eq_some, Option.some.injEq] at hst
    obtain ⟨he, rfl⟩ := hst
    refine ⟨fun j hj hx => h.set j hj ?_, nofun, fun hx => ⟨(h.ended hx).1, .inr rfl⟩⟩
    simpa [SleepState.exitSet, he] using hx
  | exitStep => exact h.exitStep hst
  | signal j =>
    cases hst
    exact h.setVcpu (by simp)
  | handled j =>
    simp only [sleepStep, Option.ite_none_right_eq_some, Option.some.injEq] at hst
    obtain ⟨-, rfl⟩ := hst
    exact h.setVcpu fun _ => id

/-- The exit of a VM releases its threads, in a run where no thread resets
`abort_sleep` after `gh_wakeup_all_vcpus` has set it. -/
theorem released_on_exit (n : Nat) (as : List SleepAct) (h : Each sleepStep ResetsBeforeExit (.init n) as) :
    Always sleepStep ReleasedOnExit (.init n) as := by
  have hinv := inv_each (fun _ _ _ h hst hc => ExitInv.step h hst hc) (ExitInv.init n) h
  intro bs cs t hbs hex
  exact (hinv bs cs t hbs hex).released

/-- The exit of the VM, with one vCPU. -/
def exitRun : List SleepAct := .exit :: List.replicate 6 .exitStep

/-- A vCPU expects a wakeup, and its thread falls asleep, from the head of the
loop. -/
def sleepRun : List SleepAct := List.replicate 6 (.run 0 GH_ERROR_OK .expectsWakeup)

/-- The VM exits while its thread is asleep. -/
theorem exit_wakes :
    (exec sleepStep (.init 1) ([.call 0, .run 0 0 .ready] ++ sleepRun ++ exitRun)).isSome ∧
      Always sleepStep ReleasedOnExit (.init 1) ([.call 0, .run 0 0 .ready] ++ sleepRun ++ exitRun) :=
  ⟨by decide, released_on_exit 1 _ (by decide)⟩

/-- The VM exits between the thread's test of `is_active` and its reset of
`abort_sleep`. -/
theorem sleeps_after_exit :
    ¬ Always sleepStep ReleasedOnExit (.init 1) ([.call 0, .run 0 0 .ready] ++ exitRun ++ sleepRun) := by
  intro h
  obtain ⟨t, ht⟩ : ∃ t, exec sleepStep (.init 1) ([.call 0, .run 0 0 .ready] ++ exitRun ++ sleepRun) = some t :=
    ⟨_, rfl⟩
  have hrel := h _ [] t (List.append_nil _).symm ht
  cases ht
  exact hrel rfl rfl 0 (by decide) ⟨by decide, by decide⟩

end GH.Proof.Proxy
