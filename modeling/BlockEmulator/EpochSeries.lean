import Mathlib.Algebra.BigOperators.Group.List.Basic
import Mathlib.Data.List.Induction
import Mathlib.Data.Nat.Basic
import Mathlib.Logic.Function.Basic
import Mathlib.Order.MinMax

/-!
# Slices with one entry for each epoch

A slice grows when something of a later epoch comes, with fresh entries for the epochs
between, and the entry of the epoch is changed.

* `record_upTo` — one change.
* `run_eq` — **the entry of an epoch is made by what came of this epoch**.
* `map_record` — a change of a part of the entries.
* `lt_top_iff` — how far the slice goes.
* `sum_run` — what all epochs add up to.
-/

namespace EpochSeries

variable {ε β : Type*}

/-- The entry of an epoch is changed, after the slice is extended up to it. -/
def record (fresh : ε) (epoch : ℕ) (f : ε → ε) (series : List ε) : List ε :=
  (series ++ List.replicate (epoch + 1 - series.length) fresh).modify epoch f

/-- The first entries of an infinite series. -/
def upTo (n : ℕ) (g : ℕ → ε) : List ε := (List.range n).map g

/-- How far the slice goes. -/
def top (epochOf : β → ℕ) (l : List β) : ℕ := l.foldl (fun n b => max n (epochOf b + 1)) 0

@[simp] theorem length_upTo (n : ℕ) (g : ℕ → ε) : (upTo n g).length = n := by simp [upTo]

theorem getElem?_upTo (n : ℕ) (g : ℕ → ε) (e : ℕ) :
    (upTo n g)[e]? = if e < n then some (g e) else none := by
  rw [upTo, List.getElem?_map]
  split
  · next h => rw [List.getElem?_range h, Option.map_some]
  · next h => rw [List.getElem?_eq_none (by simpa using h), Option.map_none]

theorem mem_upTo {n : ℕ} {g : ℕ → ε} {x : ε} : x ∈ upTo n g ↔ ∃ e < n, g e = x := by
  simp [upTo]

/-- Two series are one slice when they go equally far and agree there. -/
theorem upTo_inj {n : ℕ} {g g' : ℕ → ε} : upTo n g = upTo n g' ↔ ∀ e < n, g e = g' e := by
  simp [upTo, List.map_inj_left]

/-- **One change.** -/
theorem record_upTo {fresh : ε} {n : ℕ} {g : ℕ → ε} (hg : ∀ e, n ≤ e → g e = fresh) (epoch : ℕ)
    (f : ε → ε) : record fresh epoch f (upTo n g) =
      upTo (max n (epoch + 1)) (Function.update g epoch (f (g epoch))) := by
  have hextend : upTo n g ++ List.replicate (epoch + 1 - n) fresh = upTo (max n (epoch + 1)) g := by
    refine List.ext_getElem? fun e => ?_
    rw [List.getElem?_append, getElem?_upTo, getElem?_upTo, length_upTo, List.getElem?_replicate]
    by_cases hlt : e < n
    · rw [if_pos hlt, if_pos hlt, if_pos (by omega)]
    · rw [if_neg hlt, hg e (by omega)]
      exact if_congr (by omega) rfl rfl
  rw [record, length_upTo, hextend]
  refine List.ext_getElem? fun e => ?_
  rw [List.getElem?_modify, getElem?_upTo, getElem?_upTo]
  by_cases hlt : e < max n (epoch + 1)
  · rw [if_pos hlt, if_pos hlt]
    by_cases he : epoch = e
    · subst he
      simp
    · simp [he, Function.update_of_ne (Ne.symm he)]
  · rw [if_neg hlt, if_neg hlt]
    rfl

/-- A part of the entries that the change is determined on. -/
theorem map_record {δ : Type*} {part : ε → δ} {f : ε → ε} {f' : δ → δ}
    (hpart : ∀ x, part (f x) = f' (part x)) (fresh : ε) (epoch : ℕ) (series : List ε) :
    (record fresh epoch f series).map part = record (part fresh) epoch f' (series.map part) := by
  have hmodify : ∀ l : List ε, (l.modify epoch f).map part = (l.map part).modify epoch f' := by
    intro l
    refine List.ext_getElem? fun i => ?_
    rw [List.getElem?_map, List.getElem?_modify, List.getElem?_modify, List.getElem?_map]
    cases l[i]? with
    | none => rfl
    | some x => by_cases hi : epoch = i <;> simp [hi, hpart]
  rw [record, record, hmodify, List.map_append, List.map_replicate, List.length_map]

section Run

variable (epochOf : β → ℕ) (step : β → ε → ε) (fresh : ε)

/-- What came, one after another. -/
def run (l : List β) : List ε :=
  l.foldl (fun series b => record fresh (epochOf b) (step b) series) []

/-- The entry of an epoch. -/
def entry (l : List β) (e : ℕ) : ε :=
  (l.filter fun b => epochOf b = e).foldl (fun x b => step b x) fresh

variable {epochOf step fresh} {l : List β}

theorem top_concat (l : List β) (b : β) :
    top epochOf (l ++ [b]) = max (top epochOf l) (epochOf b + 1) := by
  rw [top, List.foldl_append]
  rfl

/-- **How far the slice goes.** -/
theorem lt_top_iff {e : ℕ} : e < top epochOf l ↔ ∃ b ∈ l, e ≤ epochOf b := by
  induction l using List.reverseRecOn with
  | nil => simp [top]
  | append_singleton l b ih =>
    rw [top_concat, lt_max_iff, ih, Nat.lt_succ_iff]
    simp [or_and_right, exists_or]

theorem top_eq_of_perm {l' : List β} (h : l'.Perm l) : top epochOf l' = top epochOf l := by
  refine eq_of_forall_lt_iff fun e => ?_
  rw [lt_top_iff, lt_top_iff]
  exact exists_congr fun b => and_congr_left fun _ => h.mem_iff

theorem upTo_top_eq_nil {g : ℕ → ε} : upTo (top epochOf l) g = [] ↔ l = [] := by
  rw [← List.length_eq_zero_iff, length_upTo]
  refine ⟨fun h => List.eq_nil_iff_forall_not_mem.mpr fun b hb => ?_, fun h => by rw [h]; rfl⟩
  have hlt : 0 < top epochOf l := lt_top_iff.mpr ⟨b, hb, Nat.zero_le _⟩
  omega

theorem filter_eq_nil_of_top_le {e : ℕ} (h : top epochOf l ≤ e) :
    l.filter (fun b => epochOf b = e) = [] := by
  refine List.filter_eq_nil_iff.mpr fun b hb heq => absurd h (Nat.not_le.mpr ?_)
  exact lt_top_iff.mpr ⟨b, hb, (of_decide_eq_true heq).symm.le⟩

/-- **The entry of an epoch is made by what came of this epoch.** By induction on what came. -/
theorem run_eq (l : List β) :
    run epochOf step fresh l = upTo (top epochOf l) (entry epochOf step fresh l) := by
  induction l using List.reverseRecOn with
  | nil => rfl
  | append_singleton l b ih =>
    have hrun : run epochOf step fresh (l ++ [b]) =
        record fresh (epochOf b) (step b) (run epochOf step fresh l) := by
      rw [run, List.foldl_append]
      rfl
    have hfresh : ∀ e, top epochOf l ≤ e → entry epochOf step fresh l e = fresh := by
      intro e he
      rw [entry, filter_eq_nil_of_top_le he]
      rfl
    rw [hrun, ih, record_upTo hfresh, top_concat]
    have hentry : ∀ e, entry epochOf step fresh (l ++ [b]) e =
        ([b].filter fun b => epochOf b = e).foldl (fun x b => step b x)
          (entry epochOf step fresh l e) := fun e => by
      rw [entry, List.filter_append, List.foldl_append]
      rfl
    refine upTo_inj.mpr fun e _ => ?_
    rw [hentry]
    by_cases he : epochOf b = e
    · subst he
      simp
    · simp [he, Function.update_of_ne (Ne.symm he)]

end Run

section Sum

variable {δ : Type*} [AddCommMonoid δ]

/-- One entry grows. -/
theorem sum_modify_add (c : δ) {l : List δ} {i : ℕ} (hi : i < l.length) :
    (l.modify i (· + c)).sum = l.sum + c := by
  induction l generalizing i with
  | nil => cases hi
  | cons x l ih =>
    cases i with
    | zero => rw [List.modify_zero_cons, List.sum_cons, List.sum_cons, add_right_comm]
    | succ i =>
      rw [List.modify_succ_cons, List.sum_cons, List.sum_cons, ih (Nat.lt_of_succ_lt_succ hi),
        add_assoc]

/-- **What all epochs add up to**, where a change adds something to a part that is 0 at
first. -/
theorem sum_run {epochOf : β → ℕ} {step : β → ε → ε} {fresh : ε} (part : ε → δ)
    {contrib : β → δ} (hfresh : part fresh = 0)
    (hstep : ∀ b x, part (step b x) = part x + contrib b) (l : List β) :
    ((run epochOf step fresh l).map part).sum = (l.map contrib).sum := by
  induction l using List.reverseRecOn with
  | nil => rfl
  | append_singleton l b ih =>
    have hrun : run epochOf step fresh (l ++ [b]) =
        record fresh (epochOf b) (step b) (run epochOf step fresh l) := by
      rw [run, List.foldl_append]
      rfl
    have hmap : (record fresh (epochOf b) (step b) (run epochOf step fresh l)).map part =
        record (part fresh) (epochOf b) (· + contrib b) ((run epochOf step fresh l).map part) :=
      map_record (hstep b) ..
    rw [hrun, hmap, record, hfresh, sum_modify_add, List.sum_append, ih, List.sum_replicate,
      nsmul_zero, add_zero, List.map_append, List.sum_append, List.map_singleton,
      List.sum_singleton]
    rw [List.length_append, List.length_replicate]
    omega

end Sum

end EpochSeries
