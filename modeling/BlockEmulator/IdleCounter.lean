import Mathlib.Data.List.Induction
import Mathlib.Data.List.TakeWhile
import Mathlib.Order.Basic

/-!
# Counting idle events in a row

A counter goes up with each idle event and starts again with each busy one.

* `foldl_count` — it counts the idle events at the end.
* `exists_prefix` — **it gets to any number** once there were enough events for the busy ones
  among them.
-/

namespace IdleCounter

variable {α : Type*} (idle : α → Bool)

/-- How many events at the end are idle. -/
def tail (l : List α) : ℕ := (l.reverse.takeWhile idle).length

/-- One more event for the counter. -/
def count (n : ℕ) (a : α) : ℕ := if idle a then n + 1 else 0

variable {idle}

@[simp] theorem tail_nil : tail idle [] = 0 := rfl

theorem tail_concat (l : List α) (a : α) : tail idle (l ++ [a]) = count idle (tail idle l) a := by
  rw [tail, List.reverse_append, List.reverse_singleton, List.singleton_append,
    List.takeWhile_cons, count]
  split <;> rfl

/-- **The counter counts the idle events at the end.** -/
theorem foldl_count (l : List α) : l.foldl (count idle) 0 = tail idle l := by
  induction l using List.reverseRecOn with
  | nil => rfl
  | append_singleton l a ih =>
    rw [List.foldl_append, ih, tail_concat, List.foldl_cons, List.foldl_nil]

theorem tail_le_length (l : List α) : tail idle l ≤ l.length := by
  rw [tail, ← l.length_reverse]
  exact (List.takeWhile_sublist _).length_le

/-- The events that it counts are the last ones. -/
theorem idle_of_mem_drop {l : List α} {n : ℕ} (hn : n ≤ tail idle l) {a : α}
    (ha : a ∈ l.drop (l.length - n)) : idle a = true := by
  rw [← List.mem_reverse, ← List.take_reverse] at ha
  refine List.mem_takeWhile_imp (p := idle) (l := l.reverse) ?_
  have hpre : l.reverse.take n <+: l.reverse.takeWhile idle :=
    List.prefix_of_prefix_length_le (List.take_prefix ..) (List.takeWhile_prefix _)
      (le_trans (List.length_take_le ..) hn)
  exact hpre.subset ha

/-- From any count on, it gets to a number once there were enough events. By induction on
the events: an idle one takes the count on, after a busy one fewer of them are left. -/
theorem exists_prefix_of_count {l : List α} {n w c : ℕ}
    (hbusy : (l.filter fun a => !idle a).length ≤ w) (hlen : w * n + (n - c) ≤ l.length) :
    ∃ l₁, l₁ <+: l ∧ n ≤ l₁.foldl (count idle) c := by
  induction l generalizing w c with
  | nil =>
    refine ⟨[], List.nil_prefix, ?_⟩
    rw [List.length_nil] at hlen
    rw [List.foldl_nil]
    omega
  | cons a l ih =>
    rcases Nat.lt_or_ge c n with hlt | hge
    · rw [List.length_cons] at hlen
      obtain ⟨w', c', hbusy', hlen', hcount⟩ : ∃ w' c', (l.filter fun a => !idle a).length ≤ w' ∧
          w' * n + (n - c') ≤ l.length ∧ count idle c a = c' := by
        cases hidle : idle a with
        | true =>
          rw [List.filter_cons_of_neg (by simp [hidle])] at hbusy
          exact ⟨w, c + 1, hbusy, by omega, by simp [count, hidle]⟩
        | false =>
          rw [List.filter_cons_of_pos (by simp [hidle]), List.length_cons] at hbusy
          obtain ⟨w', rfl⟩ := Nat.exists_eq_succ_of_ne_zero (Nat.ne_of_gt (Nat.zero_lt_of_lt hbusy))
          refine ⟨w', 0, Nat.le_of_succ_le_succ hbusy, ?_, by simp [count, hidle]⟩
          rw [Nat.succ_mul] at hlen
          omega
      obtain ⟨l₁, hpre, hn⟩ := ih hbusy' hlen'
      refine ⟨a :: l₁, List.cons_prefix_cons.mpr ⟨rfl, hpre⟩, ?_⟩
      rwa [List.foldl_cons, hcount]
    · exact ⟨[], List.nil_prefix, hge⟩

/-- **The counter gets to any number** once there were enough events for the busy ones
among them. -/
theorem exists_prefix {l : List α} {n w : ℕ} (hbusy : (l.filter fun a => !idle a).length ≤ w)
    (hlen : (w + 1) * n ≤ l.length) : ∃ l₁, l₁ <+: l ∧ n ≤ tail idle l₁ := by
  rw [Nat.succ_mul] at hlen
  obtain ⟨l₁, hpre, hn⟩ := exists_prefix_of_count (c := 0) hbusy hlen
  rw [foldl_count] at hn
  exact ⟨l₁, hpre, hn⟩

end IdleCounter
