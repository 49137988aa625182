import Mathlib.Data.List.Nodup
import Mathlib.Data.List.Sort

/-!
# Selecting the first k of a ranking

A list is sorted, and its first elements are taken.

* `length_best` — how many.
* `before_of_mem_best` — **what is taken comes before what is not.**
* `best_filter` — what is not taken can be left out before.
* `same_best_iff` — two filters, one within the other, and **when they leave the same best.**
-/

namespace Selection

variable {α : Type*}

/-- A comparison by which two different elements always have an order. -/
structure Ranks (less : α → α → Bool) : Prop where
  /-- one order only -/
  asymm : ∀ a b, less a b = true → less b a = false
  /-- an element between is before one or behind the other -/
  cotrans : ∀ a b c, less a c = true → less a b = true ∨ less b c = true
  /-- no ties -/
  connected : ∀ a b, a ≠ b → less a b = true ∨ less b a = true

/-- The first elements of the ranking. -/
def best (less : α → α → Bool) (k : ℕ) (l : List α) : List α :=
  (l.mergeSort fun a b => !less b a).take k

variable {less : α → α → Bool} {k : ℕ} {l : List α}

theorem length_best : (best less k l).length = min k l.length := by
  rw [best, List.length_take, List.length_mergeSort]

theorem subset_of_best {a : α} (h : a ∈ best less k l) : a ∈ l :=
  List.mem_mergeSort.mp (List.mem_of_mem_take h)

theorem nodup_best (hl : l.Nodup) : (best less k l).Nodup :=
  ((List.mergeSort_perm l _).nodup_iff.mpr hl).sublist (List.take_sublist k _)

/-- The list is sorted. -/
theorem pairwise_ranking (h : Ranks less) (l : List α) :
    (l.mergeSort fun a b => !less b a).Pairwise fun a b => less b a = false := by
  have htrans : ∀ a b c, (!less b a) = true → (!less c b) = true → (!less c a) = true := by
    intro a b c hab hbc
    rw [Bool.not_eq_true'] at hab hbc ⊢
    by_contra hca
    rcases h.cotrans c b a (Bool.not_eq_false _ ▸ hca) with hcb | hba
    · exact Bool.false_ne_true (hbc.symm.trans hcb)
    · exact Bool.false_ne_true (hab.symm.trans hba)
  have htotal : ∀ a b, (!less b a || !less a b) = true := by
    intro a b
    cases hab : less a b with
    | true => rw [h.asymm a b hab]; rfl
    | false => rw [Bool.not_false, Bool.or_true]
  apply (List.pairwise_mergeSort htrans htotal l).imp
  intro a b hab
  rwa [Bool.not_eq_true'] at hab

/-- **What is taken comes before what is not.** -/
theorem before_of_mem_best (h : Ranks less) {a b : α} (ha : a ∈ best less k l)
    (hb : b ∈ l) (hnot : b ∉ best less k l) : less a b = true := by
  have hsplit := List.take_append_drop k (l.mergeSort fun a b => !less b a)
  have hsorted := pairwise_ranking h l
  have hmem : b ∈ l.mergeSort fun a b => !less b a := List.mem_mergeSort.mpr hb
  rw [← hsplit] at hsorted hmem
  have hdrop := (List.mem_append.mp hmem).resolve_left hnot
  have hback := (List.pairwise_append.mp hsorted).2.2 a ha b hdrop
  have hne : a ≠ b := by
    rintro rfl
    exact hnot ha
  exact (h.connected a b hne).resolve_right (by rw [hback]; exact Bool.false_ne_true)

/-- The ranking of a part is a part of the ranking. -/
theorem mergeSort_filter (h : Ranks less) (p : α → Bool) (l : List α) :
    ((l.filter p).mergeSort fun a b => !less b a) =
      (l.mergeSort fun a b => !less b a).filter p := by
  have hantisymm : ∀ a b, a ∈ ((l.filter p).mergeSort fun a b => !less b a) →
      b ∈ (l.mergeSort fun a b => !less b a).filter p →
      less b a = false → less a b = false → a = b := by
    intro a b _ _ hab hba
    by_contra hne
    rcases h.connected a b hne with hless | hless
    · exact Bool.false_ne_true (hba.symm.trans hless)
    · exact Bool.false_ne_true (hab.symm.trans hless)
  exact List.Perm.eq_of_pairwise hantisymm (pairwise_ranking h _)
    ((pairwise_ranking h l).filter p)
    ((List.mergeSort_perm _ _).trans ((List.mergeSort_perm l _).symm.filter p))

/-- **What is not taken can be left out**: nothing else is taken then. -/
theorem best_filter (h : Ranks less) {p : α → Bool} (hall : ∀ a ∈ best less k l, p a = true) :
    best less k (l.filter p) = best less k l := by
  rw [best, mergeSort_filter h, best]
  unfold best at hall
  generalize (l.mergeSort fun a b => !less b a) = ranking at hall ⊢
  conv_lhs => rw [← List.take_append_drop k ranking, List.filter_append,
    List.filter_eq_self.mpr hall]
  by_cases hk : k ≤ ranking.length
  · rw [List.take_append_of_le_length (by rw [List.length_take, Nat.min_eq_left hk]),
      List.take_take, Nat.min_self]
  · rw [List.drop_of_length_le (not_le.mp hk).le, List.filter_nil, List.append_nil,
      List.take_take, Nat.min_self]

/-- All are taken. -/
theorem mem_best_of_length_le (hk : l.length ≤ k) {a : α} : a ∈ best less k l ↔ a ∈ l := by
  rw [best, List.take_of_length_le (by rw [List.length_mergeSort]; exact hk),
    List.mem_mergeSort]

/-- A stricter filter leaves the same best exactly if it lets them pass. -/
theorem same_best_iff_of_imp (h : Ranks less) {p q : α → Bool}
    (hqp : ∀ a, q a = true → p a = true) :
    (∀ a, a ∈ best less k (l.filter p) ↔ a ∈ best less k (l.filter q)) ↔
      ∀ a ∈ best less k (l.filter p), q a = true := by
  constructor
  · intro hsame a ha
    exact (List.mem_filter.mp (subset_of_best ((hsame a).mp ha))).2
  · intro hall a
    have hfilter : (l.filter p).filter q = l.filter q := by
      rw [List.filter_filter]
      refine List.filter_congr fun a _ => ?_
      cases hq : q a with
      | true => rw [hqp a hq, Bool.and_true]
      | false => rfl
    rw [← hfilter, best_filter h hall]

/-- **Two filters, one within the other**, leave the same best exactly if both let the best
of all pass. -/
theorem same_best_iff (h : Ranks less) {p q : α → Bool}
    (hnested : (∀ a, q a = true → p a = true) ∨ ∀ a, p a = true → q a = true) :
    (∀ a, a ∈ best less k (l.filter p) ↔ a ∈ best less k (l.filter q)) ↔
      ∀ a ∈ best less k (l.filter fun a => p a || q a), p a = true ∧ q a = true := by
  have hpass : ∀ {r : α → Bool} {a : α}, a ∈ best less k (l.filter r) → r a = true := fun ha =>
    (List.mem_filter.mp (subset_of_best ha)).2
  rcases hnested with hqp | hpq
  · have hor : (fun a => p a || q a) = p := by
      funext a
      cases hq : q a with
      | true => rw [hqp a hq, Bool.or_true]
      | false => rw [Bool.or_false]
    rw [hor, same_best_iff_of_imp h hqp]
    exact forall₂_congr fun a ha => (and_iff_right (hpass ha)).symm
  · have hor : (fun a => p a || q a) = q := by
      funext a
      cases hp : p a with
      | true => rw [hpq a hp, Bool.true_or]
      | false => rw [Bool.false_or]
    rw [hor, forall_congr' fun a => Iff.comm, same_best_iff_of_imp h hpq]
    exact forall₂_congr fun a ha => (and_iff_left (hpass ha)).symm

end Selection
