import Mathlib.Data.Fintype.Card
import Mathlib.Data.Set.Finite.Basic
import Mathlib.Logic.Relation
import Mathlib.Order.WellFounded
import Mathlib.Algebra.Order.Ring.Defs
import Mathlib.Tactic.Linarith

/-!
# Domination on a finite type

A relation `R`, read as "dominates", need neither be transitive nor free of cycles. What
nothing dominates is undominated; the undominated elements cover the others when each of
these is dominated by one of them.

* `reached_or_cycle` — what no undominated element reaches lies behind a cycle.
* `covers_iff` — **the undominated elements cover the others** exactly when they reach every
  cycle and two steps from one of them can be replaced by a single step.
* `covers_of_trans` — so they do for a strict order.
* `SlackBeats` — better in one number and worse in none, with a slack; `SlackBeats.trans` — a
  strict order where numbers that differ differ by more than the slack.
-/

namespace Domination

open Relation

variable {α : Type*} (R : α → α → Prop)

/-- Nothing dominates it. -/
def Undominated (x : α) : Prop := ∀ y, ¬ R y x

/-- Every dominated element is dominated by an undominated one. -/
def Covers : Prop := ∀ x, ¬ Undominated R x → ∃ y, Undominated R y ∧ R y x

/-- Every cycle is reached from an undominated element. -/
def ReachesCycles : Prop := ∀ x, TransGen R x x → ∃ y, Undominated R y ∧ TransGen R y x

/-- Two steps from an undominated element are one step from an undominated element. -/
def Shortens : Prop :=
  ∀ x y z, Undominated R x → R x y → R y z → ∃ w, Undominated R w ∧ R w z

variable {R}

/-- Without a cycle something is undominated. -/
theorem exists_undominated_of_acyclic [Finite α] [Nonempty α] (h : ∀ x, ¬ TransGen R x x) :
    ∃ x, Undominated R x := by
  have : IsTrans α (TransGen R) := ⟨fun _ _ _ hxy hyz => hxy.trans hyz⟩
  have : Std.Irrefl (TransGen R) := ⟨h⟩
  obtain ⟨m, -, hmin⟩ :=
    (Finite.wellFounded_of_trans_of_irrefl (TransGen R)).has_min Set.univ Set.univ_nonempty
  exact ⟨m, fun y hy => hmin y trivial (.single hy)⟩

/-- Going back from an element one meets an undominated one, or a cycle that none of them
reaches. -/
theorem reached_or_cycle [Finite α] (x : α) :
    (Undominated R x ∨ ∃ y, Undominated R y ∧ TransGen R y x) ∨
      ∃ y, TransGen R y y ∧ ∀ z, Undominated R z → ¬ TransGen R z y := by
  by_contra hnot
  obtain ⟨hx, hcycle⟩ := not_or.mp hnot
  -- the elements that no undominated one reaches have no cycle among them
  have : Nonempty { y // ¬ (Undominated R y ∨ ∃ z, Undominated R z ∧ TransGen R z y) } := ⟨⟨x, hx⟩⟩
  obtain ⟨⟨m, hm⟩, hfirst⟩ := exists_undominated_of_acyclic
    (R := fun a b : { y // ¬ (Undominated R y ∨ ∃ z, Undominated R z ∧ TransGen R z y) } =>
      R a.1 b.1) fun a ha => hcycle ⟨a.1, ha.lift Subtype.val fun _ _ h => h,
        fun z hz hza => a.2 (.inr ⟨z, hz, hza⟩)⟩
  -- but what dominates one of them is one of them
  obtain ⟨hdominated, hunreached⟩ := not_or.mp hm
  obtain ⟨y, hy⟩ := not_forall_not.mp hdominated
  refine hfirst ⟨y, ?_⟩ hy
  rintro (hfree | ⟨z, hz, hzy⟩)
  · exact hunreached ⟨y, hfree, .single hy⟩
  · exact hunreached ⟨z, hz, hzy.tail hy⟩

/-- Where two steps can be made one, so can any number. -/
theorem Shortens.step (h : Shortens R) {x z : α} (hx : Undominated R x) (hxz : TransGen R x z) :
    ∃ w, Undominated R w ∧ R w z := by
  induction hxz with
  | single hxy => exact ⟨x, hx, hxy⟩
  | tail _ hyz ih =>
    obtain ⟨w, hw, hwy⟩ := ih
    exact h w _ _ hw hwy hyz

/-- **When the undominated elements cover the others**. -/
theorem covers_iff [Finite α] : Covers R ↔ ReachesCycles R ∧ Shortens R := by
  constructor
  · intro h
    refine ⟨fun x hx => ?_, fun x y z _ _ hyz => h z fun hz => hz y hyz⟩
    obtain ⟨y, -, hyx⟩ := TransGen.tail'_iff.mp hx
    obtain ⟨w, hw, hwx⟩ := h x fun hfree => hfree y hyx
    exact ⟨w, hw, .single hwx⟩
  · rintro ⟨hcycles, hshort⟩ x hx
    rcases reached_or_cycle (R := R) x with (hfree | ⟨y, hy, hyx⟩) | ⟨y, hcycle, hunreached⟩
    · exact absurd hfree hx
    · exact hshort.step hy hyx
    · obtain ⟨z, hz, hzy⟩ := hcycles y hcycle
      exact absurd hzy (hunreached z hz)

/-- A strict order on a finite type. -/
theorem covers_of_trans [Finite α] (htrans : ∀ x y z, R x y → R y z → R x z)
    (hirrefl : ∀ x, ¬ R x x) : Covers R := by
  have hclosed : ∀ x y, TransGen R x y → R x y := by
    intro x y hxy
    induction hxy with
    | single h => exact h
    | tail _ hyz ih => exact htrans _ _ _ ih hyz
  refine covers_iff.mpr ⟨fun x hx => absurd (hclosed x x hx) (hirrefl x), fun x y z hx hxy hyz => ?_⟩
  exact ⟨x, hx, htrans x y z hxy hyz⟩

/-- Where something is there and all that is dominated is covered, something is
undominated. -/
theorem Covers.exists_undominated (h : Covers R) [Nonempty α] : ∃ x, Undominated R x := by
  obtain ⟨x⟩ := ‹Nonempty α›
  by_cases hx : Undominated R x
  · exact ⟨x, hx⟩
  · obtain ⟨y, hy, -⟩ := h x hx
    exact ⟨y, hy⟩

/-! ## Slack -/

section Slack

variable {ι K : Type*} [Field K] [LinearOrder K] [IsStrictOrderedRing K]

/-- No number is greater by more than the slack, and one is smaller by more. -/
def SlackBeats (eps : K) (l r : ι → K) : Prop := (∀ i, l i ≤ r i + eps) ∧ ∃ i, l i < r i - eps

/-- The numbers of the two are equal, or apart by more than the slack. -/
def Apart (eps : K) (l r : ι → K) : Prop := ∀ i, l i = r i ∨ eps < |l i - r i|

variable {eps : K} {l r t : ι → K}

theorem SlackBeats.irrefl (heps : 0 ≤ eps) : ¬ SlackBeats eps l l := by
  rintro ⟨-, i, hi⟩
  linarith

theorem Apart.le (h : Apart eps l r) {i : ι} (hi : l i ≤ r i + eps) : l i ≤ r i := by
  rcases h i with heq | hlt
  · exact heq.le
  · by_contra hgt
    rw [abs_of_pos (sub_pos.mpr (not_le.mp hgt))] at hlt
    linarith

/-- Apart from one another, the comparison is the exact one. -/
theorem SlackBeats.trans (heps : 0 ≤ eps) (h₁ : SlackBeats eps l r) (h₂ : SlackBeats eps r t)
    (hlr : Apart eps l r) (hrt : Apart eps r t) : SlackBeats eps l t := by
  obtain ⟨hle, i, hlt⟩ := h₁
  obtain ⟨hle', -⟩ := h₂
  refine ⟨fun k => ?_, i, ?_⟩
  · exact ((hlr.le (hle k)).trans (hrt.le (hle' k))).trans (le_add_of_nonneg_right heps)
  · exact hlt.trans_le (sub_le_sub_right (hrt.le (hle' i)) eps)

end Slack

end Domination
