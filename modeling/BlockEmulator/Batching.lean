import Mathlib.Data.List.Basic
import Mathlib.Data.Nat.ModEq

/-!
# Batches

Elements are held until there are enough of them for a batch. At the end some may be left.

* `full_append_rest` — the full batches and what is left make up the list.
* `rest_eq_nil_iff` — **nothing is left** exactly where the size divides the length.
* `Aligned` — the n-th batch holds the n-th block of numbers, full or not.
-/

namespace Batching

variable {α : Type*} (size : ℕ)

/-- The full batches. -/
def full : List α → List α → List (List α)
  | _, [] => []
  | held, x :: xs =>
    if held.length + 1 = size then (held ++ [x]) :: full [] xs else full (held ++ [x]) xs

/-- What is left at the end. -/
def rest : List α → List α → List α
  | held, [] => held
  | held, x :: xs => if held.length + 1 = size then rest [] xs else rest (held ++ [x]) xs

/-- A last batch, where there is something in it. -/
def last (held : List α) : List (List α) := if held = [] then [] else [held]

/-- All batches, with what is left as the last one. -/
def all (held xs : List α) : List (List α) := full size held xs ++ last (rest size held xs)

variable {size} {held xs : List α}

@[simp] theorem flatten_last (held : List α) : (last held).flatten = held := by
  rw [last]
  split
  · rename_i h
    rw [h]
    rfl
  · exact List.flatten_singleton

theorem all_nil (held : List α) : all size held [] = last held := rfl

/-- An element that ends a batch. -/
theorem all_cons_of_eq (h : held.length + 1 = size) (x : α) (xs : List α) :
    all size held (x :: xs) = (held ++ [x]) :: all size [] xs := by
  rw [all, full, rest, if_pos h, if_pos h]
  rfl

/-- An element that does not. -/
theorem all_cons_of_ne (h : held.length + 1 ≠ size) (x : α) (xs : List α) :
    all size held (x :: xs) = all size (held ++ [x]) xs := by
  rw [all, full, rest, if_neg h, if_neg h]
  rfl

/-- The last element ends the last batch, full or not. -/
theorem all_singleton (held : List α) (x : α) : all size held [x] = [held ++ [x]] := by
  by_cases h : held.length + 1 = size
  · exact all_cons_of_eq h x []
  · rw [all_cons_of_ne h, all_nil, last,
      if_neg (List.append_ne_nil_of_right_ne_nil _ (List.cons_ne_nil _ _))]

/-- **The full batches and what is left** make up the list. -/
theorem full_append_rest (held xs : List α) :
    (full size held xs).flatten ++ rest size held xs = held ++ xs := by
  induction xs generalizing held with
  | nil => rw [full, rest, List.flatten_nil, List.nil_append, List.append_nil]
  | cons x xs ih =>
    rw [full, rest]
    split
    · rw [List.flatten_cons, List.append_assoc, ih, List.nil_append, List.append_assoc]
      rfl
    · rw [ih, List.append_assoc]
      rfl

/-- How much is left. -/
theorem length_rest (h : held.length < size) :
    (rest size held xs).length = (held.length + xs.length) % size := by
  induction xs generalizing held with
  | nil => rw [rest, List.length_nil, add_zero, Nat.mod_eq_of_lt h]
  | cons x xs ih =>
    rw [rest]
    split
    · rename_i hfull
      have hpos : ([] : List α).length < size := (Nat.zero_le _).trans_lt h
      rw [ih hpos, List.length_nil, zero_add, List.length_cons]
      have hsum : held.length + (xs.length + 1) = size + xs.length := by omega
      rw [hsum, Nat.add_mod_left]
    · rename_i hmore
      have hlen : (held ++ [x]).length = held.length + 1 := List.length_append
      rw [ih (by omega), hlen, List.length_cons]
      congr 1
      omega

/-- **Nothing is left** exactly where the size divides the length. -/
theorem rest_eq_nil_iff (h : 0 < size) : rest size [] xs = [] ↔ size ∣ xs.length := by
  have hpos : ([] : List α).length < size := h
  rw [← List.length_eq_zero_iff, length_rest hpos, List.length_nil, zero_add,
    Nat.dvd_iff_mod_eq_zero]

/-- All batches, the last one too, make up the list. -/
theorem flatten_all (held xs : List α) : (all size held xs).flatten = held ++ xs := by
  rw [all, List.flatten_append, flatten_last, full_append_rest]

/-- The full batches alone do so exactly where nothing is left. -/
theorem flatten_full_eq_iff (h : 0 < size) :
    (full size [] xs).flatten = xs ↔ size ∣ xs.length := by
  rw [← rest_eq_nil_iff h]
  have hall : (full size [] xs).flatten ++ rest size [] xs = [] ++ xs := full_append_rest [] xs
  constructor
  · intro heq
    rw [heq, List.nil_append] at hall
    exact List.append_right_eq_self.mp hall
  · intro hnil
    rwa [hnil, List.append_nil] at hall

/-! ## Numbered elements -/

/-- Each batch holds elements of one block of `size` numbers; the first batch those of the
block `k`, the next ones those of the blocks after it. -/
def Aligned (size : ℕ) (number : α → ℕ) : ℕ → List (List α) → Prop
  | _, [] => True
  | k, batch :: batches =>
    (∀ x ∈ batch, number x / size = k) ∧ Aligned size number (k + 1) batches

/-- **The block of a batch** is its place in the list. -/
theorem Aligned.div_eq {number : α → ℕ} {batches : List (List α)} {k j : ℕ} {batch : List α}
    (h : Aligned size number k batches) (hj : batches[j]? = some batch) {x : α} (hx : x ∈ batch) :
    number x / size = k + j := by
  induction batches generalizing k j with
  | nil => cases hj
  | cons first batches ih =>
    cases j with
    | zero =>
      obtain rfl := Option.some.inj hj
      exact h.1 x hx
    | succ j =>
      rw [ih h.2 hj]
      omega

/-- The number behind `n` elements of a block is in the block. -/
theorem div_eq_of_lt {k n : ℕ} (h : n < size) : (size * k + n) / size = k := by
  rw [Nat.mul_add_div ((Nat.zero_le n).trans_lt h), Nat.div_eq_of_lt h, add_zero]

end Batching
