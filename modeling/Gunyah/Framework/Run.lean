import Mathlib.Data.List.Induction
import Mathlib.Logic.Function.Basic

/-!
# Runs of a machine

A machine is a step function `S → A → Option S`: what an action does in a
state, `none` where it cannot be taken. The action carries everything the
machine does not decide (scheduling, the answers of its environment), so a
run is a list of actions.

`Always P s as` says that every state of the run `as` from `s` satisfies
`P`, and `Each Q s as` that every step of it satisfies `Q`. An invariant
carries over a run (`inv_exec`, and `inv_hist` where it is about the actions
taken too), or over a run whose steps meet a condition (`inv_each`, and
`each_of_inv` where it says that the steps are good); where,
under an invariant, a step is good exactly when a condition holds before it,
a run is good exactly when all its steps meet the condition (`each_iff`,
`always_iff`).
-/

namespace GH

variable {S A : Type*} (step : S → A → Option S)

/-- The state after a run of actions, if each of them can be taken. -/
def exec : S → List A → Option S
  | s, [] => some s
  | s, a :: as => (step s a).bind fun t => exec t as

/-- Every state of the run `as` from `s` satisfies `P`. -/
def Always (P : S → Prop) (s : S) (as : List A) : Prop :=
  ∀ bs cs t, as = bs ++ cs → exec step s bs = some t → P t

/-- Every step of the run `as` from `s` satisfies `Q`. -/
def Each (Q : S → A → S → Prop) (s : S) (as : List A) : Prop :=
  ∀ bs a cs t u, as = bs ++ a :: cs → exec step s bs = some t → step t a = some u → Q t a u

variable {step}

theorem exec_cons {s t : S} {a : A} {as : List A} (h : step s a = some t) :
    exec step s (a :: as) = exec step t as := by
  simp [exec, h]

theorem exec_cons_some {s u : S} {a : A} {as : List A} :
    exec step s (a :: as) = some u ↔ ∃ t, step s a = some t ∧ exec step t as = some u := by
  simp [exec, Option.bind_eq_some_iff]

theorem exec_append_some {s u : S} {as bs : List A} :
    exec step s (as ++ bs) = some u ↔ ∃ t, exec step s as = some t ∧ exec step t bs = some u := by
  induction as generalizing s with
  | nil => simp [exec]
  | cons a as ih =>
    rw [List.cons_append, exec_cons_some]
    simp only [ih, exec_cons_some]
    constructor
    · rintro ⟨t, ht, v, hv, hu⟩
      exact ⟨v, ⟨t, ht, hv⟩, hu⟩
    · rintro ⟨v, ⟨t, ht, hv⟩, hu⟩
      exact ⟨t, ht, v, hv, hu⟩

theorem each_nil (Q : S → A → S → Prop) (s : S) : Each step Q s [] := by
  intro bs a cs t u h
  simp at h

theorem each_cons {Q : S → A → S → Prop} {s : S} {a : A} {as : List A} :
    Each step Q s (a :: as) ↔ ∀ t, step s a = some t → Q s a t ∧ Each step Q t as := by
  constructor
  · intro h t ht
    refine ⟨h [] a as s t rfl rfl ht, fun bs b cs t' u e he hu => ?_⟩
    exact h (a :: bs) b cs t' u (by rw [e]; rfl) (by rw [exec_cons ht, he]) hu
  · intro h bs b cs t' u e he hu
    cases bs with
    | nil =>
      simp only [List.nil_append, List.cons.injEq] at e
      simp only [exec, Option.some.injEq] at he
      obtain ⟨rfl, rfl⟩ := e
      subst he
      exact (h u hu).1
    | cons c bs =>
      simp only [List.cons_append, List.cons.injEq] at e
      obtain ⟨rfl, rfl⟩ := e
      obtain ⟨t, ht, he⟩ := exec_cons_some.mp he
      exact (h t ht).2 bs b cs t' u rfl he hu

theorem each_and {Q R : S → A → S → Prop} {s : S} {as : List A} :
    Each step (fun t a u => Q t a u ∧ R t a u) s as ↔ Each step Q s as ∧ Each step R s as := by
  constructor
  · intro h
    exact ⟨fun bs a cs t u e he hu => (h bs a cs t u e he hu).1,
      fun bs a cs t u e he hu => (h bs a cs t u e he hu).2⟩
  · rintro ⟨hq, hr⟩ bs a cs t u e he hu
    exact ⟨hq bs a cs t u e he hu, hr bs a cs t u e he hu⟩

instance decidableEach (Q : S → A → S → Prop) [∀ s a t, Decidable (Q s a t)] :
    (s : S) → (as : List A) → Decidable (Each step Q s as)
  | s, [] => isTrue (each_nil Q s)
  | s, a :: as =>
    match h : step s a with
    | none => isTrue (each_cons.mpr fun t ht => by rw [h] at ht; cases ht)
    | some u =>
      have := decidableEach Q u as
      decidable_of_iff (Q s a u ∧ Each step Q u as)
        (by simp only [each_cons, h, Option.some.injEq, forall_eq'])

/-- The states of a run: the first, and the one after each step. -/
theorem always_iff_each {P : S → Prop} {s : S} {as : List A} :
    Always step P s as ↔ P s ∧ Each step (fun _ _ u => P u) s as := by
  constructor
  · intro h
    refine ⟨h [] as s rfl rfl, fun bs a cs t u e he hu => ?_⟩
    exact h (bs ++ [a]) cs u (by simp [e])
      (exec_append_some.mpr ⟨t, he, exec_cons_some.mpr ⟨u, hu, rfl⟩⟩)
  · rintro ⟨h₀, h⟩ bs cs t e he
    rcases List.eq_nil_or_concat bs with rfl | ⟨bs, a, rfl⟩
    · simp only [exec, Option.some.injEq] at he
      exact he ▸ h₀
    · rw [List.concat_eq_append] at e he
      obtain ⟨t', ht', he'⟩ := exec_append_some.mp he
      obtain ⟨u, hu, hu'⟩ := exec_cons_some.mp he'
      simp only [exec, Option.some.injEq] at hu'
      exact hu' ▸ h bs a cs t' u (by simp [e]) ht' hu

instance (P : S → Prop) [DecidablePred P] (s : S) (as : List A) : Decidable (Always step P s as) :=
  decidable_of_iff _ always_iff_each.symm

/-- An invariant that every step keeps holds after a run. -/
theorem inv_exec {I : S → Prop} (hI : ∀ s a t, I s → step s a = some t → I t) {s t : S}
    {as : List A} (h₀ : I s) (h : exec step s as = some t) : I t := by
  induction as generalizing s with
  | nil =>
    simp only [exec, Option.some.injEq] at h
    exact h ▸ h₀
  | cons a as ih =>
    obtain ⟨u, hu, h⟩ := exec_cons_some.mp h
    exact ih (hI s a u h₀ hu) h

/-- `inv_exec` for a property of the state and the actions that led to it. -/
theorem inv_hist {s₀ : S} {I : List A → S → Prop} (h₀ : I [] s₀)
    (hI : ∀ as s a t, I as s → step s a = some t → I (as ++ [a]) t) {t : S} {as : List A}
    (h : exec step s₀ as = some t) : I as t := by
  induction as using List.reverseRecOn generalizing t with
  | nil =>
    simp only [exec, Option.some.injEq] at h
    exact h ▸ h₀
  | append_singleton as a ih =>
    obtain ⟨s, hs, h⟩ := exec_append_some.mp h
    obtain ⟨u, hu, h⟩ := exec_cons_some.mp h
    simp only [exec, Option.some.injEq] at h
    exact h ▸ hI as s a u (ih hs) hu

/-- An invariant that every step meeting `C` keeps holds in every state of a
run whose steps all meet `C`. -/
theorem inv_each {I : S → Prop} {C : S → A → S → Prop}
    (hI : ∀ s a t, I s → step s a = some t → C s a t → I t) {s : S} {as : List A} (h₀ : I s)
    (hC : Each step C s as) : Always step I s as := by
  rw [always_iff_each]
  refine ⟨h₀, ?_⟩
  induction as generalizing s with
  | nil => exact each_nil _ _
  | cons a as ih =>
    rw [each_cons] at hC ⊢
    intro t ht
    obtain ⟨hc, hC⟩ := hC t ht
    have hi := hI s a t h₀ ht hc
    exact ⟨hi, ih hi hC⟩

/-- Where, under an invariant that the steps meeting `C` keep, those steps are
good, the steps of a run that all meet `C` are good. -/
theorem each_of_inv {I : S → Prop} {C Q : S → A → S → Prop}
    (hI : ∀ s a t, I s → step s a = some t → C s a t → I t)
    (hQ : ∀ s a t, I s → step s a = some t → C s a t → Q s a t) {s : S} {as : List A} (h₀ : I s)
    (hC : Each step C s as) : Each step Q s as := by
  intro bs a cs t u hbs he hu
  have hi : I t := inv_each hI h₀ hC bs (a :: cs) t hbs he
  exact hQ t a u hi hu (hC bs a cs t u hbs he hu)

/-- Where, under an invariant that the steps meeting `C` keep, a step is good
exactly when it meets `C`, the steps of a run are all good exactly when they
all meet `C`. -/
theorem each_iff {I : S → Prop} {C Q : S → A → S → Prop}
    (hI : ∀ s a t, I s → step s a = some t → C s a t → I t)
    (hQ : ∀ s a t, I s → step s a = some t → (Q s a t ↔ C s a t)) {s : S} {as : List A}
    (h₀ : I s) : Each step Q s as ↔ Each step C s as := by
  induction as generalizing s with
  | nil => exact ⟨fun _ => each_nil _ _, fun _ => each_nil _ _⟩
  | cons a as ih =>
    rw [each_cons, each_cons]
    constructor
    · intro h t ht
      have hc := (hQ s a t h₀ ht).mp (h t ht).1
      exact ⟨hc, (ih (hI s a t h₀ ht hc)).mp (h t ht).2⟩
    · intro h t ht
      obtain ⟨hc, h⟩ := h t ht
      exact ⟨(hQ s a t h₀ ht).mpr hc, (ih (hI s a t h₀ ht hc)).mpr h⟩

/-- `each_iff` for a property of states. -/
theorem always_iff {I P : S → Prop} {C : S → A → S → Prop}
    (hI : ∀ s a t, I s → step s a = some t → C s a t → I t)
    (hP : ∀ s a t, I s → step s a = some t → (P t ↔ C s a t)) {s : S} {as : List A}
    (h₀ : I s) (hp : P s) : Always step P s as ↔ Each step C s as := by
  rw [always_iff_each, and_iff_right hp]
  exact each_iff (Q := fun _ _ t => P t) hI hP h₀

end GH
