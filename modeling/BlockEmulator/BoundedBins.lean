import Mathlib.Data.Rat.Floor
import Mathlib.Algebra.Order.BigOperators.Group.List
import Mathlib.Tactic.Linarith
import Mathlib.Tactic.Ring

/-!
# Bins under a limit that grows

Balls go into bins one after another, and what a bin may hold depends on how many balls
there are. The history of the balls is the list of their bins.

* `WithinLimit.append` — one more ball, into a bin with room for it.
* `share` — the limit that gives a bin its part of all balls, rounded up.
* `lt_share` — a bin that has at most its part of the balls has room for the next one.
* `mul_le_sum_of_least` — and the least one has at most its part.
-/

namespace BoundedBins

/-- After every ball, no bin has more of them than it may then hold. -/
def WithinLimit (limit : ℕ → ℕ) (balls : List ℕ) : Prop :=
  ∀ k ≤ balls.length, ∀ bin, (balls.take k).count bin ≤ limit k

theorem WithinLimit.nil (limit : ℕ → ℕ) : WithinLimit limit [] := by
  intro k _ bin
  simp

/-- A ball goes where there is room for it; the other bins may hold no less than before. -/
theorem WithinLimit.append {limit : ℕ → ℕ} (hmono : Monotone limit) {balls : List ℕ} {bin : ℕ}
    (h : WithinLimit limit balls) (hroom : balls.count bin < limit (balls.length + 1)) :
    WithinLimit limit (balls ++ [bin]) := by
  intro k hk other
  rw [List.length_append, List.length_singleton] at hk
  rcases Nat.lt_or_ge balls.length k with hlast | hearlier
  · obtain rfl : k = balls.length + 1 := by omega
    rw [List.take_of_length_le (by simp), List.count_append, List.count_singleton]
    by_cases hother : bin = other
    · subst hother
      simpa using Nat.succ_le_of_lt hroom
    · have hbefore := h balls.length le_rfl other
      rw [List.take_length] at hbefore
      simpa [hother] using hbefore.trans (hmono (Nat.le_succ _))
  · rw [List.take_append_of_le_length hearlier]
    exact h k hearlier other

/-- The part of `k` balls for one of `n` bins, by a factor and rounded up: one at least. -/
def share (factor : ℚ) (n k : ℕ) : ℕ := max 1 ⌈(k : ℚ) * factor / n⌉₊

theorem share_mono {factor : ℚ} (hfactor : 0 ≤ factor) (n : ℕ) : Monotone (share factor n) := by
  intro k k' hk
  unfold share
  gcongr

/-- Who has at most the part of `k` balls has room when there is one ball more. -/
theorem lt_share {factor : ℚ} (hfactor : 1 ≤ factor) {n k c : ℕ} (hn : 0 < n) (h : n * c ≤ k) :
    c < share factor n (k + 1) := by
  have hn' : (0 : ℚ) < n := by exact_mod_cast hn
  have hpart : (c : ℚ) < ((k + 1 : ℕ) : ℚ) * factor / n := by
    rw [lt_div_iff₀ hn']
    calc (c : ℚ) * n = ((n * c : ℕ) : ℚ) := by push_cast; ring
      _ ≤ k := by exact_mod_cast h
      _ < ((k + 1 : ℕ) : ℚ) * 1 := by push_cast; linarith
      _ ≤ ((k + 1 : ℕ) : ℚ) * factor := by gcongr
  exact lt_max_of_lt_right (Nat.lt_ceil.mpr hpart)

/-- The least of the loads is at most their mean. -/
theorem mul_le_sum_of_least {loads : List ℕ} {c : ℕ} (h : ∀ load ∈ loads, c ≤ load) :
    loads.length * c ≤ loads.sum := by
  have hsum := loads.card_nsmul_le_sum c h
  rwa [Nat.nsmul_eq_mul] at hsum

end BoundedBins
