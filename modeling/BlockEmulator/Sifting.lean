import Mathlib.Data.List.Basic
import Mathlib.Data.List.Nodup
import Mathlib.Data.List.Perm.Basic

/-!
# Sifting a list in passes

Several passes go over a list, one after another. Each takes some elements out and leaves
the others to the next.

* `passes_eq` — **each pass takes what no earlier one would**, in the order of the list.
* `passes_perm` — nothing is lost or doubled.
-/

namespace Sifting

variable {ι α : Type*} (takes : ι → α → Bool)

/-- What each pass takes, and what is left at the end. -/
def passes : List ι → List α → List (ι × List α) × List α
  | [], xs => ([], xs)
  | i :: is, xs =>
    let r := passes is (xs.filter fun x => !takes i x)
    ((i, xs.filter (takes i)) :: r.1, r.2)

/-- The first pass that would take an element. -/
def takenBy (is : List ι) (x : α) : Option ι := is.find? fun i => takes i x

variable {takes} {is : List ι} {xs : List α} {x : α} {i : ι}

theorem takenBy_cons_of_pos (h : takes i x = true) : takenBy takes (i :: is) x = some i :=
  List.find?_cons_of_pos h

theorem takenBy_cons_of_neg (h : takes i x = false) :
    takenBy takes (i :: is) x = takenBy takes is x :=
  List.find?_cons_of_neg (Bool.eq_false_iff.mp h)

theorem mem_of_takenBy (h : takenBy takes is x = some i) : i ∈ is ∧ takes i x = true :=
  ⟨List.mem_of_find?_eq_some h, List.find?_some (p := fun i => takes i x) h⟩

/-- No pass takes what is left. -/
theorem takenBy_eq_none_iff : takenBy takes is x = none ↔ ∀ i ∈ is, takes i x = false := by
  rw [takenBy, List.find?_eq_none]
  exact forall₂_congr fun i _ => Bool.eq_false_iff.symm

/-- Where one pass at most would take an element, the order of the passes is no matter. -/
theorem takenBy_eq_some_iff (h : ∀ i j, takes i x = true → takes j x = true → i = j) :
    takenBy takes is x = some i ↔ i ∈ is ∧ takes i x = true := by
  refine ⟨mem_of_takenBy, fun hi => ?_⟩
  cases htaken : takenBy takes is x with
  | none => exact absurd hi.2 (by simp [takenBy_eq_none_iff.mp htaken i hi.1])
  | some j => rw [h j i (mem_of_takenBy htaken).2 hi.2]

/-- **What each pass takes**: of the whole list, what no earlier one would. -/
theorem passes_eq [DecidableEq ι] (his : is.Nodup) (xs : List α) :
    passes takes is xs = (is.map fun i => (i, xs.filter fun x => takenBy takes is x = some i),
      xs.filter fun x => takenBy takes is x = none) := by
  induction is generalizing xs with
  | nil => simp [passes, takenBy]
  | cons i is ih =>
    obtain ⟨hi, his⟩ := List.nodup_cons.mp his
    rw [passes, ih his, List.map_cons]
    refine Prod.ext (congrArg₂ List.cons ?_ (List.map_congr_left fun j hj => ?_)) ?_
    · -- the first pass
      refine congrArg (Prod.mk i) (List.filter_congr fun x _ => ?_)
      cases hx : takes i x with
      | true => simp [takenBy_cons_of_pos hx]
      | false =>
        rw [takenBy_cons_of_neg hx]
        exact (decide_eq_false fun h => hi (mem_of_takenBy h).1).symm
    · refine congrArg (Prod.mk j) ?_
      rw [List.filter_filter]
      refine List.filter_congr fun x _ => ?_
      cases hx : takes i x with
      | true =>
        have hne : i ≠ j := fun h => hi (h ▸ hj)
        simp [takenBy_cons_of_pos hx, hne]
      | false => simp [takenBy_cons_of_neg hx]
    · rw [List.filter_filter]
      refine List.filter_congr fun x _ => ?_
      cases hx : takes i x with
      | true => simp [takenBy_cons_of_pos hx]
      | false => simp [takenBy_cons_of_neg hx]

/-- What is left goes to no pass. -/
theorem snd_passes [DecidableEq ι] (his : is.Nodup) (xs : List α) :
    (passes takes is xs).2 = xs.filter fun x => ∀ i ∈ is, takes i x = false := by
  rw [passes_eq his]
  exact List.filter_congr fun x _ => decide_eq_decide.mpr takenBy_eq_none_iff

/-- Where one pass at most would take an element, each takes all it would. -/
theorem fst_passes_of_unique [DecidableEq ι] (his : is.Nodup)
    (h : ∀ x i j, takes i x = true → takes j x = true → i = j) (xs : List α) :
    (passes takes is xs).1 = is.map fun i => (i, xs.filter (takes i)) := by
  rw [passes_eq his]
  refine List.map_congr_left fun i hi => congrArg (Prod.mk i) (List.filter_congr fun x _ => ?_)
  rw [Bool.eq_iff_iff, decide_eq_true_iff, takenBy_eq_some_iff (h x)]
  exact and_iff_right hi

/-- **Nothing is lost or doubled.** -/
theorem passes_perm (is : List ι) (xs : List α) :
    ((passes takes is xs).2 ++ (passes takes is xs).1.flatMap (·.2)).Perm xs := by
  induction is generalizing xs with
  | nil => simp [passes]
  | cons i is ih =>
    rw [passes, List.flatMap_cons]
    refine List.perm_append_comm_assoc _ _ _ |>.trans ?_
    exact ((ih _).append_left _).trans (List.filter_append_perm (takes i) xs)

end Sifting
