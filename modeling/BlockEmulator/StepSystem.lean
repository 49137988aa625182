import Mathlib.Order.Basic

/-!
# Step systems: guarded runs and their invariants

A system is given by its step function `step : σ → α → Option σ`, with `none`
where an action is not enabled. Two ways to speak of its runs:

* `Reaches step ok s t` — `t` is reached from `s` by steps that all meet the
  condition `ok`, a condition on the state before the step and on the action.
  `Reaches.invariant` is the induction: one step lemma gives the run lemma.
* `AllStates P s as` and `AllSteps Q s as` — along the run of one list of
  actions, every state meets `P`, every step taken meets `Q`.
  `allStates_iff_allSteps` turns a step-level equivalence into one of runs.

`runWith` executes a list of actions and checks the condition at each of them,
so that a concrete run can be computed and handed to `Reaches.of_runWith`.
-/

namespace StepSystem

universe u v

variable {σ : Type u} {α : Type v} {step : σ → α → Option σ}

/-! ## Reachability under a condition on the steps -/

/-- The states reached from `s` by steps that all meet `ok`. -/
inductive Reaches (step : σ → α → Option σ) (ok : σ → α → Prop) (s : σ) : σ → Prop
  /-- the empty run -/
  | refl : Reaches step ok s s
  /-- one more step, at a state where it meets `ok` -/
  | tail {t u : σ} {a : α} :
      Reaches step ok s t → ok t a → step t a = some u → Reaches step ok s u

/-- **The induction over runs**: what holds at the start and is kept by every
step that meets the condition holds in every state reached. -/
theorem Reaches.invariant {ok : σ → α → Prop} {s t : σ} (hr : Reaches step ok s t)
    (Inv : σ → Prop) (h₀ : Inv s)
    (hstep : ∀ s a t, Inv s → ok s a → step s a = some t → Inv t) : Inv t := by
  induction hr with
  | refl => exact h₀
  | tail _ hok hs ih => exact hstep _ _ _ ih hok hs

/-- A weaker condition reaches at least as much. -/
theorem Reaches.mono {ok ok' : σ → α → Prop} {s t : σ}
    (hr : Reaches step ok s t) (h : ∀ s a, ok s a → ok' s a) : Reaches step ok' s t := by
  induction hr with
  | refl => exact .refl
  | tail _ hok hs ih => exact .tail ih (h _ _ hok) hs

/-- Runs compose. -/
theorem Reaches.trans {ok : σ → α → Prop} {s t u : σ}
    (h₁ : Reaches step ok s t) (h₂ : Reaches step ok t u) : Reaches step ok s u := by
  induction h₂ with
  | refl => exact h₁
  | tail _ hok hs ih => exact .tail ih hok hs

/-! ## Executing a list of actions -/

/-- Run the actions in order, checking the condition before each of them. -/
def runWith (step : σ → α → Option σ) (ok : σ → α → Prop) [∀ s a, Decidable (ok s a)] :
    σ → List α → Option σ
  | s, [] => some s
  | s, a :: as => if ok s a then (step s a).bind fun t => runWith step ok t as else none

/-- A computed run is a run. -/
theorem Reaches.of_runWith {ok : σ → α → Prop} [∀ s a, Decidable (ok s a)] {t : σ} :
    ∀ {as : List α} {s : σ}, runWith step ok s as = some t → Reaches step ok s t
  | [], s, h => by
    obtain rfl := Option.some.inj h
    exact .refl
  | a :: as, s, h => by
    rw [runWith] at h
    by_cases hok : ok s a
    · rw [if_pos hok] at h
      obtain ⟨u, hu, hrun⟩ := Option.bind_eq_some_iff.mp h
      exact (Reaches.tail .refl hok hu).trans (Reaches.of_runWith hrun)
    · rw [if_neg hok] at h
      cases h

/-- A computed run whose end passes a test reaches such an end. -/
theorem Reaches.exists_of_runWith {ok : σ → α → Prop} [∀ s a, Decidable (ok s a)] {s : σ}
    {as : List α} {P : σ → Prop} [DecidablePred P]
    (h : (runWith step ok s as).any (fun t => decide (P t)) = true) :
    ∃ t, Reaches step ok s t ∧ P t := by
  rcases hrun : runWith step ok s as with _ | t
  · rw [hrun] at h
    cases h
  · rw [hrun] at h
    exact ⟨t, Reaches.of_runWith hrun, of_decide_eq_true h⟩

/-- A computed run is one under a condition that all of its actions meet in every state. -/
theorem Reaches.of_actions {ok : σ → α → Prop} {as : List α} {s t : σ}
    (hok : ∀ a ∈ as, ∀ s, ok s a) (h : runWith step (fun _ _ => True) s as = some t) :
    Reaches step ok s t := by
  induction as generalizing s with
  | nil =>
    obtain rfl := Option.some.inj h
    exact .refl
  | cons a as ih =>
    rw [runWith, if_pos trivial] at h
    obtain ⟨u, hu, hrun⟩ := Option.bind_eq_some_iff.mp h
    have hrest : ∀ b ∈ as, ∀ s, ok s b := fun b hb => hok b (List.mem_cons_of_mem _ hb)
    exact (Reaches.tail .refl (hok a List.mem_cons_self s) hu).trans (ih hrest hrun)

/-! ## Properties along one run -/

/-- Every state of the run of `as` from `s` meets `P`. -/
def AllStates (step : σ → α → Option σ) (P : σ → Prop) : σ → List α → Prop
  | s, [] => P s
  | s, a :: as => P s ∧ ∀ t, step s a = some t → AllStates step P t as

/-- Every step that the run of `as` from `s` takes meets `Q`. -/
def AllSteps (step : σ → α → Option σ) (Q : σ → α → Prop) : σ → List α → Prop
  | _, [] => True
  | s, a :: as => ∀ t, step s a = some t → Q s a ∧ AllSteps step Q t as

/-- What holds in all states of a run holds at its end; the end can be computed. -/
theorem AllStates.exists_of_runWith {P Q : σ → Prop} [DecidablePred Q] {as : List α} {s : σ}
    (h : AllStates step P s as)
    (hrun : (runWith step (fun _ _ => True) s as).any (fun t => decide (Q t)) = true) :
    ∃ t, P t ∧ Q t := by
  induction as generalizing s with
  | nil => exact ⟨s, h, of_decide_eq_true hrun⟩
  | cons a as ih =>
    rw [runWith, if_pos trivial] at hrun
    rcases hs : step s a with _ | t
    · rw [hs] at hrun
      cases hrun
    · rw [hs] at hrun
      exact ih (h.2 t hs) hrun

/-- What every step of a run meets, the run meets. -/
theorem AllSteps.of_runWith {Q ok : σ → α → Prop} [∀ s a, Decidable (ok s a)]
    (hQ : ∀ s a, ok s a → Q s a) {as : List α} {s t : σ} (h : runWith step ok s as = some t) :
    AllSteps step Q s as := by
  induction as generalizing s with
  | nil => trivial
  | cons a as ih =>
    rw [runWith] at h
    by_cases hok : ok s a
    · rw [if_pos hok] at h
      intro u hu
      rw [hu, Option.bind_some] at h
      exact ⟨hQ s a hok, ih h⟩
    · rw [if_neg hok] at h
      cases h

/-- **From steps to runs**: where, under an invariant, a step keeps `P` exactly
when it meets `Q`, a run keeps `P` in all its states exactly when all its steps
meet `Q`. -/
theorem allStates_iff_allSteps (Inv : σ → Prop) {P : σ → Prop} {Q : σ → α → Prop}
    (hinv : ∀ s a t, Inv s → P s → Q s a → step s a = some t → Inv t)
    (hstep : ∀ s a t, Inv s → P s → step s a = some t → (P t ↔ Q s a)) :
    ∀ (as : List α) (s : σ), Inv s → P s →
      (AllStates step P s as ↔ AllSteps step Q s as)
  | [], _, _, hP => ⟨fun _ => trivial, fun _ => hP⟩
  | a :: as, s, hI, hP => by
    constructor
    · rintro ⟨-, hall⟩ t ht
      have hPt : P t := by
        have := hall t ht
        cases as with
        | nil => exact this
        | cons b bs => exact this.1
      have hQ : Q s a := (hstep s a t hI hP ht).mp hPt
      exact ⟨hQ, (allStates_iff_allSteps Inv hinv hstep as t (hinv s a t hI hP hQ ht) hPt).mp
        (hall t ht)⟩
    · intro hall
      refine ⟨hP, fun t ht => ?_⟩
      obtain ⟨hQ, hrest⟩ := hall t ht
      have hPt : P t := (hstep s a t hI hP ht).mpr hQ
      exact (allStates_iff_allSteps Inv hinv hstep as t (hinv s a t hI hP hQ ht) hPt).mpr hrest

/-! ## Runs that end -/

/-- What is decided about a computed run holds of it: an invariant along its steps. -/
theorem runWith_invariant {ok : σ → α → Prop} [∀ s a, Decidable (ok s a)] (Inv : σ → Prop)
    (hstep : ∀ s a t, Inv s → ok s a → step s a = some t → Inv t) {as : List α} {s t : σ}
    (h₀ : Inv s) (h : runWith step ok s as = some t) : Inv t :=
  (Reaches.of_runWith h).invariant Inv h₀ hstep

/-- Runs of unconditional steps compose. -/
theorem runWith_append (step : σ → α → Option σ) (s : σ) (as bs : List α) :
    runWith step (fun _ _ => True) s (as ++ bs) =
      (runWith step (fun _ _ => True) s as).bind fun t => runWith step (fun _ _ => True) t bs := by
  induction as generalizing s with
  | nil => rfl
  | cons a as ih =>
    rw [List.cons_append, runWith, runWith, if_pos trivial, if_pos trivial, Option.bind_assoc]
    exact Option.bind_congr fun t _ => ih t

/-- **Two systems that take the same actions**: what holds between them at the start and is
kept where both take one, holds after both have run. -/
theorem runWith_related {τ : Type*} {step' : τ → α → Option τ} {ok : σ → α → Prop}
    {ok' : τ → α → Prop} [∀ s a, Decidable (ok s a)] [∀ t a, Decidable (ok' t a)]
    (Rel : σ → τ → Prop)
    (hstep : ∀ s t a s' t', Rel s t → step s a = some s' → step' t a = some t' → Rel s' t')
    {as : List α} {s s' : σ} {t t' : τ} (h₀ : Rel s t) (hs : runWith step ok s as = some s')
    (ht : runWith step' ok' t as = some t') : Rel s' t' := by
  induction as generalizing s t with
  | nil =>
    obtain rfl := Option.some.inj hs
    obtain rfl := Option.some.inj ht
    exact h₀
  | cons a as ih =>
    rw [runWith] at hs ht
    split at hs
    · split at ht
      · obtain ⟨u, hu, hs⟩ := Option.bind_eq_some_iff.mp hs
        obtain ⟨v, hv, ht⟩ := Option.bind_eq_some_iff.mp ht
        exact ih (hstep s t a u v h₀ hu hv) hs ht
      · cases ht
    · cases hs

/-- **A run is no longer than what it has to do**, where each step leaves less of it. -/
theorem runWith_length_le {ok : σ → α → Prop} [∀ s a, Decidable (ok s a)] (Inv : σ → Prop)
    (μ : σ → ℕ) (hstep : ∀ s a t, Inv s → ok s a → step s a = some t → Inv t ∧ μ t < μ s)
    {as : List α} {s t : σ} (h₀ : Inv s) (h : runWith step ok s as = some t) :
    as.length + μ t ≤ μ s := by
  induction as generalizing s with
  | nil =>
    obtain rfl := Option.some.inj h
    exact Nat.le_of_eq (Nat.zero_add _)
  | cons a as ih =>
    rw [runWith] at h
    split at h
    · rename_i hok
      obtain ⟨u, hu, h⟩ := Option.bind_eq_some_iff.mp h
      obtain ⟨hinv, hlt⟩ := hstep s a u h₀ hok hu
      have hle := ih hinv h
      rw [List.length_cons]
      omega
    · cases h

/-- Where each step leaves less to do, some run ends in a state with nothing to do. -/
theorem exists_runWith_stuck {ok : σ → α → Prop} [∀ s a, Decidable (ok s a)] (Inv : σ → Prop)
    (μ : σ → ℕ) (hstep : ∀ s a t, Inv s → ok s a → step s a = some t → Inv t ∧ μ t < μ s)
    {s : σ} (h₀ : Inv s) :
    ∃ as t, runWith step ok s as = some t ∧ ∀ a, ok t a → step t a = none := by
  induction hn : μ s using Nat.strongRecOn generalizing s with
  | ind n ih =>
    by_cases hstuck : ∀ a, ok s a → step s a = none
    · exact ⟨[], s, rfl, hstuck⟩
    · obtain ⟨a, hok, hne⟩ : ∃ a, ok s a ∧ step s a ≠ none := by
        by_contra hno
        exact hstuck fun a ha => by_contra fun hne => hno ⟨a, ha, hne⟩
      obtain ⟨u, hu⟩ := Option.ne_none_iff_exists'.mp hne
      obtain ⟨hinv, hlt⟩ := hstep s a u h₀ hok hu
      obtain ⟨as, t, hrun, ht⟩ := ih (μ u) (hn ▸ hlt) hinv rfl
      refine ⟨a :: as, t, ?_, ht⟩
      rw [runWith, if_pos hok, hu, Option.bind_some, hrun]

end StepSystem
