import BlockEmulator.KeyedSort
import Mathlib.Data.List.Flatten

/-!
# Merging sorted lists

The next element of a merge is a least one among the first elements of the lists.

* `mem_fronts` — the first elements.
* `front_le` — a least first element is a least one of all.
* `sortOn_flatten` — **it is the first one of all in order, and the others follow**.
-/

namespace KWayMerge

open KeyedSort

variable {α κ : Type*}

/-- The first elements of the lists. -/
def fronts (sources : List (List α)) : List α := sources.filterMap List.head?

variable {sources pre post : List (List α)} {x : α} {t : List α}

@[simp] theorem fronts_append (l l' : List (List α)) : fronts (l ++ l') = fronts l ++ fronts l' :=
  List.filterMap_append

@[simp] theorem fronts_singleton (s : List α) : fronts [s] = s.head?.toList := by
  cases s <;> rfl

theorem fronts_split (s : List α) :
    (fronts (pre ++ s :: post)).Perm (s.head?.toList ++ fronts (pre ++ post)) := by
  rw [← List.singleton_append, fronts_append, fronts_append, fronts_append, fronts_singleton,
    ← List.append_assoc, ← List.append_assoc]
  exact List.perm_append_comm.append_right _

theorem mem_fronts : x ∈ fronts sources ↔ ∃ t, x :: t ∈ sources := by
  rw [fronts, List.mem_filterMap]
  constructor
  · rintro ⟨s, hs, hx⟩
    obtain ⟨t, rfl⟩ := List.head?_eq_some_iff.mp hx
    exact ⟨t, hs⟩
  · rintro ⟨t, ht⟩
    exact ⟨x :: t, ht, rfl⟩

/-- Where a first element comes from. -/
theorem exists_split (hx : x ∈ fronts sources) : ∃ pre t post, sources = pre ++ (x :: t) :: post := by
  obtain ⟨t, ht⟩ := mem_fronts.mp hx
  obtain ⟨pre, post, rfl⟩ := List.append_of_mem ht
  exact ⟨pre, t, post, rfl⟩

/-- Without first elements there are none. -/
theorem flatten_eq_nil (h : fronts sources = []) : sources.flatten = [] := by
  refine List.flatten_eq_nil_iff.mpr fun s hs => ?_
  cases s with
  | nil => rfl
  | cons x t =>
    have hx : x ∈ fronts sources := mem_fronts.mpr ⟨t, hs⟩
    rw [h] at hx
    cases hx

theorem flatten_perm :
    (pre ++ (x :: t) :: post).flatten.Perm (x :: (pre ++ t :: post).flatten) := by
  simp only [List.flatten_append, List.flatten_cons, List.cons_append]
  exact List.perm_middle

variable [LinearOrder κ] {key : α → κ}

/-- **A least first element is a least one of all.** -/
theorem front_le (hsorted : ∀ s ∈ sources, s.Pairwise fun a b => key a ≤ key b)
    (hleast : ∀ y ∈ fronts sources, key x ≤ key y) {y : α} (hy : y ∈ sources.flatten) :
    key x ≤ key y := by
  obtain ⟨s, hs, hy⟩ := List.mem_flatten.mp hy
  cases s with
  | nil => cases hy
  | cons first others =>
    have hfirst := hleast first (mem_fronts.mpr ⟨others, hs⟩)
    rcases List.mem_cons.mp hy with rfl | hy
    · exact hfirst
    · exact hfirst.trans (List.rel_of_pairwise_cons (hsorted _ hs) hy)

/-- **The merge takes the first element in order; the others follow.** -/
theorem sortOn_flatten (hkeys : ((pre ++ (x :: t) :: post).flatten.map key).Nodup)
    (hsorted : ∀ s ∈ pre ++ (x :: t) :: post, s.Pairwise fun a b => key a ≤ key b)
    (hleast : ∀ y ∈ fronts (pre ++ (x :: t) :: post), key x ≤ key y) :
    sortOn key (pre ++ (x :: t) :: post).flatten = x :: sortOn key (pre ++ t :: post).flatten := by
  have hperm : (pre ++ (x :: t) :: post).flatten.Perm (x :: (pre ++ t :: post).flatten) :=
    flatten_perm
  refine sortOn_cons hkeys hperm fun y hy => front_le hsorted hleast ?_
  exact hperm.mem_iff.mpr (List.mem_cons_of_mem _ hy)

end KWayMerge
