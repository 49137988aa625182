import Mathlib.Data.List.Basic
import Mathlib.Data.List.Nodup
import Mathlib.Data.Nat.Basic
import Mathlib.Order.Lattice

/-!
# Sorting by keys

A list is sorted by keys in a linear order, no two of its elements with one key.

* `eq_sortOn` — a sorted permutation is the sorted list.
* `sortOn_append`, `sortOn_cons` — a part that is before the rest is sorted before it.
* `Smallest` — **the first elements of the sorted list, in any order**: how they change
  when one element more has come.
-/

namespace KeyedSort

variable {α κ : Type*} [LinearOrder κ] (key : α → κ)

/-- `sorted(l, key=key)`. -/
def sortOn (l : List α) : List α := l.mergeSort fun a b => key a ≤ key b

variable {key} {l l' : List α}

theorem sortOn_perm (l : List α) : (sortOn key l).Perm l := List.mergeSort_perm l _

theorem mem_sortOn {a : α} : a ∈ sortOn key l ↔ a ∈ l := (sortOn_perm l).mem_iff

@[simp] theorem length_sortOn (l : List α) : (sortOn key l).length = l.length :=
  (sortOn_perm l).length_eq

@[simp] theorem sortOn_singleton (a : α) : sortOn key [a] = [a] := List.mergeSort_singleton a

theorem pairwise_sortOn (l : List α) : (sortOn key l).Pairwise fun a b => key a ≤ key b := by
  have htrans : ∀ a b c, decide (key a ≤ key b) = true → decide (key b ≤ key c) = true →
      decide (key a ≤ key c) = true := fun a b c hab hbc =>
    decide_eq_true ((of_decide_eq_true hab).trans (of_decide_eq_true hbc))
  have htotal : ∀ a b, (decide (key a ≤ key b) || decide (key b ≤ key a)) = true := fun a b => by
    rw [Bool.or_eq_true, decide_eq_true_iff, decide_eq_true_iff]
    exact le_total _ _
  exact (List.pairwise_mergeSort htrans htotal l).imp of_decide_eq_true

omit [LinearOrder κ] in
/-- Different elements have different keys. -/
theorem eq_of_key_eq (hkeys : (l.map key).Nodup) {a b : α} (ha : a ∈ l) (hb : b ∈ l)
    (h : key a = key b) : a = b :=
  List.inj_on_of_nodup_map hkeys ha hb h

/-- **A sorted permutation is the sorted list.** -/
theorem eq_sortOn (hkeys : (l.map key).Nodup) (hperm : l'.Perm l)
    (hsorted : l'.Pairwise fun a b => key a ≤ key b) : l' = sortOn key l := by
  refine List.Perm.eq_of_pairwise (fun a b ha hb hab hba => ?_) hsorted (pairwise_sortOn l)
    (hperm.trans (sortOn_perm l).symm)
  exact eq_of_key_eq hkeys (hperm.mem_iff.mp ha) (mem_sortOn.mp hb) (le_antisymm hab hba)

theorem sortOn_congr (hkeys : (l.map key).Nodup) (hperm : l'.Perm l) :
    sortOn key l' = sortOn key l :=
  eq_sortOn hkeys ((sortOn_perm l').trans hperm) (pairwise_sortOn l')

/-- **A part before the rest.** -/
theorem sortOn_append {kept rest : List α} (hkeys : (l.map key).Nodup)
    (hperm : l.Perm (kept ++ rest)) (hle : ∀ a ∈ kept, ∀ b ∈ rest, key a ≤ key b) :
    sortOn key l = sortOn key kept ++ sortOn key rest := by
  refine (eq_sortOn hkeys (((sortOn_perm kept).append (sortOn_perm rest)).trans hperm.symm)
    ?_).symm
  refine List.pairwise_append.mpr ⟨pairwise_sortOn kept, pairwise_sortOn rest, fun a ha b hb => ?_⟩
  exact hle a (mem_sortOn.mp ha) b (mem_sortOn.mp hb)

/-- **A first element before the others.** -/
theorem sortOn_cons {a : α} {rest : List α} (hkeys : (l.map key).Nodup) (hperm : l.Perm (a :: rest))
    (hle : ∀ b ∈ rest, key a ≤ key b) : sortOn key l = a :: sortOn key rest := by
  have hsingle : ∀ x ∈ [a], ∀ b ∈ rest, key x ≤ key b := fun x hx b hb => by
    rw [List.mem_singleton.mp hx]
    exact hle b hb
  have hsplit : l.Perm ([a] ++ rest) := hperm
  rw [sortOn_append hkeys hsplit hsingle, sortOn_singleton, List.singleton_append]

/-! ## The first elements -/

/-- `kept` are the first elements of `l`, at most `limit`, in any order; `rest` are the others. -/
structure Smallest (key : α → κ) (limit : ℕ) (kept rest l : List α) : Prop where
  perm : l.Perm (kept ++ rest)
  le : ∀ a ∈ kept, ∀ b ∈ rest, key a ≤ key b
  length_le : kept.length ≤ limit
  full : rest = [] ∨ kept.length = limit

namespace Smallest

variable {limit : ℕ} {kept kept' rest : List α} {x : α}

theorem nil (limit : ℕ) : Smallest key limit [] [] ([] : List α) :=
  ⟨.refl _, fun _ h => (nomatch h), Nat.zero_le _, .inl rfl⟩

/-- There is room for one more. -/
theorem add (h : Smallest key limit kept rest l) (hlen : kept.length < limit)
    (hperm : kept'.Perm (x :: kept)) : Smallest key limit kept' [] (l ++ [x]) := by
  have hrest : rest = [] := h.full.resolve_right hlen.ne
  have hl := h.perm
  rw [hrest, List.append_nil] at hl
  refine ⟨?_, fun _ _ _ hb => (nomatch hb), by rw [hperm.length_eq]; exact hlen, .inl rfl⟩
  rw [List.append_nil]
  exact (hl.append_right [x]).trans ((List.perm_append_singleton x kept).trans hperm.symm)

/-- The new one is behind all that are kept. -/
theorem skip (h : Smallest key limit kept rest l) (hlen : kept.length = limit)
    (hx : ∀ a ∈ kept, key a ≤ key x) : Smallest key limit kept (x :: rest) (l ++ [x]) := by
  refine ⟨?_, fun a ha b hb => ?_, h.length_le, .inr hlen⟩
  · refine (h.perm.append_right [x]).trans ?_
    rw [List.append_assoc]
    exact (List.perm_append_singleton x rest).append_left kept
  · rcases List.mem_cons.mp hb with rfl | hb
    · exact hx a ha
    · exact h.le a ha b hb

/-- The new one takes the place of the last one. -/
theorem swap (h : Smallest key limit kept rest l) (hlen : kept.length = limit) {r : α}
    (hr : r ∈ kept) (hlast : ∀ a ∈ kept, key a ≤ key r) (hx : key x ≤ key r)
    (hperm : (r :: kept').Perm (x :: kept)) : Smallest key limit kept' (r :: rest) (l ++ [x]) := by
  have hlen' : kept'.length = kept.length := Nat.succ.inj hperm.length_eq
  have hmem : ∀ a ∈ kept', a = x ∨ a ∈ kept := fun a ha =>
    List.mem_cons.mp (hperm.mem_iff.mp (List.mem_cons_of_mem _ ha))
  have hle : ∀ a ∈ kept', key a ≤ key r := fun a ha => by
    rcases hmem a ha with rfl | ha
    · exact hx
    · exact hlast a ha
  refine ⟨?_, fun a ha b hb => ?_, by omega, .inr (by omega)⟩
  · calc (l ++ [x]).Perm (kept ++ rest ++ [x]) := h.perm.append_right [x]
      _ |>.Perm (x :: (kept ++ rest)) := List.perm_append_singleton x _
      _ |>.Perm (r :: kept' ++ rest) := (hperm.symm.append_right rest)
      _ |>.Perm (kept' ++ r :: rest) := List.perm_middle.symm
  · rcases List.mem_cons.mp hb with rfl | hb
    · exact hle a ha
    · exact (hle a ha).trans (h.le r hr b hb)

/-- **In order they are the first elements of the sorted list.** -/
theorem sortOn_eq (h : Smallest key limit kept rest l) (hkeys : (l.map key).Nodup) :
    sortOn key kept = (sortOn key l).take limit := by
  rw [sortOn_append hkeys h.perm h.le]
  rcases h.full with hnil | hlen
  · have hempty : sortOn key rest = [] := by
      rw [← List.length_eq_zero_iff, length_sortOn, hnil]
      rfl
    rw [hempty, List.append_nil,
      List.take_of_length_le (by rw [length_sortOn]; exact h.length_le)]
  · rw [List.take_left' (by rw [length_sortOn]; exact hlen)]

end Smallest

end KeyedSort
