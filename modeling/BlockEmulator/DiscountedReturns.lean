import Mathlib.Algebra.BigOperators.Intervals
import Mathlib.Data.List.GetD
import Mathlib.Tactic.Ring
import Mathlib.Tactic.Tauto

/-!
# Discounted returns and the advantages that estimate them

A step of a trajectory has a reward and a discount for what follows it. The advantage of
a step sums the errors of the value estimates from there on, each by its trace.

* `advantages_append_of_trace` — a step without a trace ends a trajectory.
* `advantages_add` — where the rewards and the values add up, the advantages do.
* `return_eq_discounted` — where a trace is the discount and every estimate is taken of
  the state that follows, the return is the discounted sum, down to what is assumed
  behind the last step.
* `tailReturn` — the same sum over a clock that ticks once for every entry; one tick more
  is a bootstrap by what it earns (`tailReturn_succ`).
-/

namespace DiscountedReturns

open Finset

variable {R : Type*} [CommRing R]

/-! ## Advantages -/

/-- A step; a step that ends the trajectory has no discount and no trace. -/
structure Step (R : Type*) where
  /-- what the step earns -/
  reward : R
  /-- what the value behind the step counts for -/
  discount : R
  /-- what the errors behind the step count for -/
  trace : R
  /-- the estimate before the step -/
  value : R
  /-- the estimate behind it -/
  nextValue : R

/-- The error of the estimates at one step. -/
def Step.error (s : Step R) : R := s.reward + s.discount * s.nextValue - s.value

/-- The advantages of a trajectory. -/
def advantages : List (Step R) → List R
  | [] => []
  | s :: steps => (s.error + s.trace * (advantages steps).headD 0) :: advantages steps

@[simp] theorem advantages_length (steps : List (Step R)) :
    (advantages steps).length = steps.length := by
  induction steps with
  | nil => rfl
  | cons s steps ih => rw [advantages, List.length_cons, List.length_cons, ih]

theorem advantages_drop (steps : List (Step R)) (i : ℕ) :
    advantages (steps.drop i) = (advantages steps).drop i := by
  induction steps generalizing i with
  | nil => simp [advantages]
  | cons s steps ih =>
    cases i with
    | zero => rfl
    | succ i => exact ih i

/-- **A step without a trace ends a trajectory**: what comes behind it is one of its own. -/
theorem advantages_append_of_trace {s : Step R} (hs : s.trace = 0) (before later : List (Step R)) :
    advantages (before ++ s :: later) = advantages (before ++ [s]) ++ advantages later := by
  induction before with
  | nil =>
    rw [List.nil_append, List.nil_append, advantages, advantages, hs, zero_mul, zero_mul,
      advantages]
    rfl
  | cons t before ih =>
    have hhead : ∀ l : List R, (advantages (before ++ [s]) ++ l).headD 0 =
        (advantages (before ++ [s])).headD 0 := by
      intro l
      cases before with
      | nil => rfl
      | cons u before => rfl
    rw [List.cons_append, advantages, ih, hhead, List.cons_append, advantages, List.cons_append]

/-- Two parts of a step: they earn and estimate together what it does, under its discount
and its trace. -/
structure Parts (s t u : Step R) : Prop where
  /-- the rewards add up -/
  reward : s.reward + t.reward = u.reward
  /-- so do the estimates before the step -/
  value : s.value + t.value = u.value
  /-- and behind it -/
  nextValue : s.nextValue + t.nextValue = u.nextValue
  /-- one discount -/
  discount : s.discount = u.discount ∧ t.discount = u.discount
  /-- one trace -/
  trace : s.trace = u.trace ∧ t.trace = u.trace

/-- **Advantages add up** as their rewards and estimates do. -/
theorem advantages_add {α : Type*} {f g h : α → Step R} {l : List α}
    (hparts : ∀ a ∈ l, Parts (f a) (g a) (h a)) :
    List.zipWith (· + ·) (advantages (l.map f)) (advantages (l.map g)) =
      advantages (l.map h) := by
  induction l with
  | nil => rfl
  | cons a l ih =>
    have hrest := ih fun b hb => hparts b (List.mem_cons_of_mem _ hb)
    obtain ⟨hreward, hvalue, hnext, ⟨hdf, hdg⟩, htf, htg⟩ := hparts a List.mem_cons_self
    have hhead : (advantages (l.map f)).headD 0 + (advantages (l.map g)).headD 0 =
        (advantages (l.map h)).headD 0 := by
      rw [← hrest]
      cases l with
      | nil => simp [advantages]
      | cons b l => rfl
    simp only [List.map_cons, advantages, List.zipWith_cons_cons, hrest]
    congr 1
    rw [Step.error, Step.error, Step.error, hdf, hdg, htf, htg, ← hreward, ← hvalue, ← hnext,
      ← hhead]
    ring

/-! ## Returns -/

/-- The discounted sum of rewards, each with the discount of what follows it, over what is
assumed behind the last. -/
def discounted (bootstrap : R) : List (R × R) → R
  | [] => bootstrap
  | (reward, discount) :: rest => reward + discount * discounted bootstrap rest

theorem discounted_append (bootstrap : R) (l l' : List (R × R)) :
    discounted bootstrap (l ++ l') = discounted (discounted bootstrap l') l := by
  induction l with
  | nil => rfl
  | cons e l ih => rw [List.cons_append, discounted, discounted, ih]

/-- Without a discount the rewards add up. -/
theorem discounted_undiscounted (bootstrap : R) (rewards : List R) :
    discounted bootstrap (rewards.map fun r => (r, 1)) = rewards.sum + bootstrap := by
  induction rewards with
  | nil => simp [discounted]
  | cons r rewards ih =>
    rw [List.map_cons, discounted, ih, List.sum_cons]
    ring

/-- The estimates are those of what follows: the trace is the discount, and the estimate
behind a step is the one before the next, or what is assumed behind the last. -/
def Bootstraps (bootstrap : R) : List (Step R) → Prop
  | [] => True
  | s :: steps => s.trace = s.discount ∧
      s.discount * s.nextValue = s.discount * ((steps.head?.map (·.value)).getD bootstrap) ∧
      Bootstraps bootstrap steps

theorem bootstraps_append {bootstrap : R} {steps steps' : List (Step R)} :
    Bootstraps bootstrap (steps ++ steps') ↔
      Bootstraps ((steps'.head?.map (·.value)).getD bootstrap) steps ∧
        Bootstraps bootstrap steps' := by
  induction steps with
  | nil => simp [Bootstraps]
  | cons s steps ih =>
    have hnext : ((steps ++ steps').head?.map (·.value)).getD bootstrap =
        (steps.head?.map (·.value)).getD ((steps'.head?.map (·.value)).getD bootstrap) := by
      cases steps with
      | nil => rfl
      | cons t steps => rfl
    rw [List.cons_append, Bootstraps, Bootstraps, hnext, ih]
    tauto

theorem Bootstraps.drop {bootstrap : R} {steps : List (Step R)} (h : Bootstraps bootstrap steps)
    (i : ℕ) : Bootstraps bootstrap (steps.drop i) := by
  induction steps generalizing i with
  | nil => simpa using h
  | cons s steps ih =>
    cases i with
    | zero => exact h
    | succ i => exact ih h.2.2 i

/-- The return of the first step. -/
theorem head_return {bootstrap : R} {s : Step R} {steps : List (Step R)}
    (h : Bootstraps bootstrap (s :: steps)) :
    (advantages (s :: steps)).headD 0 + s.value =
      discounted bootstrap ((s :: steps).map fun t => (t.reward, t.discount)) := by
  induction steps generalizing s with
  | nil =>
    obtain ⟨-, hnext, -⟩ := h
    simp only [advantages, List.headD_cons, List.headD_nil, List.map_cons, List.map_nil,
      discounted, Step.error]
    rw [hnext]
    simp
  | cons t steps ih =>
    obtain ⟨htrace, hnext, hrest⟩ := h
    have hreturn := ih hrest
    rw [List.map_cons, discounted, ← hreturn]
    rw [advantages, List.headD_cons, Step.error, htrace, hnext]
    simp only [List.head?_cons, Option.map_some, Option.getD_some]
    ring

/-- **The return of every step** is its discounted sum. -/
theorem return_eq_discounted {bootstrap : R} {steps : List (Step R)}
    (h : Bootstraps bootstrap steps) {i : ℕ} (hi : i < steps.length) :
    (advantages steps).getD i 0 + (steps[i]).value =
      discounted bootstrap ((steps.drop i).map fun t => (t.reward, t.discount)) := by
  have hdrop : steps.drop i = steps[i] :: steps.drop (i + 1) := List.drop_eq_getElem_cons hi
  have hhead := h.drop i
  rw [hdrop] at hhead ⊢
  rw [← head_return hhead, ← hdrop, advantages_drop, List.headD_eq_head?_getD, List.head?_drop,
    List.getD_eq_getElem?_getD]

/-! ## A clock -/

/-- What is earned from tick `k` on up to tick `n`, and the bootstrap behind. -/
def tailReturn (gamma : R) (earned : ℕ → R) (n : ℕ) (bootstrap : R) (k : ℕ) : R :=
  ∑ j ∈ Ico k n, gamma ^ (j - k) * earned j + gamma ^ (n - k) * bootstrap

/-- One more tick is a bootstrap by what it earns. -/
theorem tailReturn_succ (gamma : R) (earned : ℕ → R) {n k : ℕ} (hk : k ≤ n) (bootstrap : R) :
    tailReturn gamma earned (n + 1) bootstrap k =
      tailReturn gamma earned n (earned n + gamma * bootstrap) k := by
  unfold tailReturn
  rw [sum_Ico_succ_top hk, Nat.succ_sub hk, pow_succ]
  ring

/-- Nothing is earned in no time. -/
theorem tailReturn_self (gamma : R) (earned : ℕ → R) (n : ℕ) (bootstrap : R) :
    tailReturn gamma earned n bootstrap n = bootstrap := by
  simp [tailReturn]

theorem tailReturn_congr {gamma : R} {earned earned' : ℕ → R} {n : ℕ}
    (h : ∀ j < n, earned j = earned' j) (bootstrap : R) (k : ℕ) :
    tailReturn gamma earned n bootstrap k = tailReturn gamma earned' n bootstrap k := by
  unfold tailReturn
  congr 1
  refine sum_congr rfl fun j hj => ?_
  rw [h j (mem_Ico.mp hj).2]

end DiscountedReturns
