import Mathlib.Algebra.BigOperators.Group.Finset.Basic
import Mathlib.Algebra.Order.BigOperators.Group.Finset
import Mathlib.Data.Multiset.UnionInter
import Mathlib.Tactic.Abel

/-!
# Accounting over the members of a system

A system has members `0, …, n - 1`, each with a state. What all of them hold together
is a sum in some commutative monoid: integers for amounts, multisets for tokens.

* `total_update` — when one member changes, the total changes by what it gained.
* `disjoint_of_nodup_total` — where no token is held twice, no two members hold the
  same.
-/

namespace Accounting

open Finset

variable {α M : Type*} {n : ℕ}

section

variable [AddCommMonoid M]

/-- What the members hold together. -/
def total (n : ℕ) (hold : ℕ → α → M) (c : ℕ → α) : M := ∑ k ∈ range n, hold k (c k)

/-- What all members but one hold. -/
def others (n : ℕ) (hold : ℕ → α → M) (c : ℕ → α) (i : ℕ) : M :=
  ∑ k ∈ (range n).erase i, hold k (c k)

variable {hold : ℕ → α → M} {c : ℕ → α} {i : ℕ}

/-- One member and the rest. -/
theorem total_eq (hi : i < n) :
    total n hold c = hold i (c i) + others n hold c i :=
  (add_sum_erase _ _ (mem_range.mpr hi)).symm

/-- What the others hold does not change with one member. -/
theorem others_update (x : α) : others n hold (Function.update c i x) i = others n hold c i := by
  refine sum_congr rfl fun k hk => ?_
  rw [Function.update_of_ne (mem_erase.mp hk).1]

/-- **Only one member changes**: the total changes by what this member gained. -/
theorem total_update (hold : ℕ → α → M) (c : ℕ → α) (hi : i < n) (x : α) :
    total n hold (Function.update c i x) + hold i (c i) = total n hold c + hold i x := by
  rw [total_eq hi, total_eq hi, others_update, Function.update_self]
  abel

end

variable {β : Type*} {hold : ℕ → α → Multiset β} {c : ℕ → α} {i j : ℕ}

theorem mem_total {b : β} : b ∈ total n hold c ↔ ∃ k < n, b ∈ hold k (c k) := by
  simp [total, Multiset.mem_sum]

/-- Where no token is held twice, two members hold different ones. -/
theorem disjoint_of_nodup_total (h : (total n hold c).Nodup) (hi : i < n) (hj : j < n)
    (hij : i ≠ j) : Disjoint (hold i (c i)) (hold j (c j)) := by
  rw [total_eq hi] at h
  obtain ⟨-, -, hdisj⟩ := Multiset.nodup_add.mp h
  refine Multiset.disjoint_left.mpr fun hb hb' => Multiset.disjoint_left.mp hdisj hb ?_
  exact Multiset.mem_sum.mpr ⟨j, mem_erase.mpr ⟨hij.symm, mem_range.mpr hj⟩, hb'⟩

end Accounting
