import Mathlib.Algebra.BigOperators.Group.List.Basic
import Mathlib.Algebra.BigOperators.Group.Finset.Basic
import Mathlib.Algebra.BigOperators.Intervals
import Mathlib.Algebra.Order.Ring.Int
import Mathlib.Tactic.Ring

/-!
# Counters indexed by number

A list of integers, one counter a number below `n`. `tally n f` is the list that holds
`f k` at `k`; adding to a counter changes `f` at one place, and fails past the end.
-/

namespace Counters

/-- The counters that hold `f 0`, …, `f (n - 1)`. -/
def tally (n : ℕ) (f : ℕ → ℤ) : List ℤ := (List.range n).map f

/-- Add to one counter; there is none past the end. -/
def addAt (l : List ℤ) (i : ℕ) (d : ℤ) : Option (List ℤ) :=
  if i < l.length then some (l.modify i (· + d)) else none

/-- What is left of the smallest counter, starting from an upper bound. -/
def minFrom (m : ℤ) : List ℤ → ℤ
  | [] => m
  | v :: l => minFrom (if m > v then v else m) l

variable {n i : ℕ} {f g : ℕ → ℤ} {d : ℤ}

@[simp] theorem length_tally (n : ℕ) (f : ℕ → ℤ) : (tally n f).length = n := by
  rw [tally, List.length_map, List.length_range]

theorem tally_getElem? (h : i < n) : (tally n f)[i]? = some (f i) := by
  rw [tally, List.getElem?_map, List.getElem?_range h, Option.map_some]

theorem tally_getElem?_none (h : ¬ i < n) : (tally n f)[i]? = none := by
  rw [List.getElem?_eq_none_iff, length_tally]
  omega

theorem tally_congr (h : ∀ k < n, f k = g k) : tally n f = tally n g :=
  List.map_congr_left fun k hk => h k (List.mem_range.mp hk)

theorem tally_inj : tally n f = tally n g ↔ ∀ k < n, f k = g k := by
  refine ⟨fun h k hk => ?_, tally_congr⟩
  have := congrArg (·[k]?) h
  simpa [tally_getElem? hk] using this

theorem mem_tally {x : ℤ} : x ∈ tally n f ↔ ∃ k < n, f k = x := by
  rw [tally, List.mem_map]
  simp only [List.mem_range]

theorem replicate_eq_tally (n : ℕ) : List.replicate n (0 : ℤ) = tally n fun _ => 0 := by
  rw [tally, List.map_const', List.length_range]

theorem zipWith_tally (op : ℤ → ℤ → ℤ) :
    List.zipWith op (tally n f) (tally n g) = tally n fun k => op (f k) (g k) := by
  rw [tally, tally, tally, List.zipWith_map, List.zipWith_self]

/-- **Adding** to a counter changes it and no other. -/
theorem addAt_tally (h : i < n) :
    addAt (tally n f) i d = some (tally n fun k => f k + if k = i then d else 0) := by
  rw [addAt, length_tally, if_pos h]
  refine congrArg some (List.ext_getElem? fun k => ?_)
  rw [List.getElem?_modify]
  by_cases hk : k < n
  · rw [tally_getElem? hk, tally_getElem? hk]
    by_cases hki : k = i
    · simp [hki]
    · have hik : i ≠ k := fun h => hki h.symm
      simp [hki, hik]
  · rw [tally_getElem?_none hk, tally_getElem?_none hk]
    rfl

theorem addAt_tally_none (h : ¬ i < n) : addAt (tally n f) i d = none := by
  rw [addAt, length_tally, if_neg h]

/-- The sum of the counters is that of their values. -/
theorem sum_tally (n : ℕ) (f : ℕ → ℤ) : (tally n f).sum = ∑ k ∈ Finset.range n, f k := by
  induction n with
  | zero => rfl
  | succ n ih =>
    rw [tally, List.range_succ, List.map_append, List.sum_append, Finset.sum_range_succ, ← ih, tally]
    simp

/-- **The minimum is positive** exactly where the bound and all counters are. -/
theorem minFrom_pos {m : ℤ} {l : List ℤ} : 0 < minFrom m l ↔ 0 < m ∧ ∀ v ∈ l, 0 < v := by
  induction l generalizing m with
  | nil => simp [minFrom]
  | cons v l ih =>
    rw [minFrom, ih, List.forall_mem_cons, ← and_assoc]
    refine and_congr_left fun _ => ?_
    split <;> omega

end Counters
