import BlockEmulator.Fallible
import Mathlib.Data.List.TakeDrop

/-!
# Windows of checked rows

A loader reads rows one by one, checks each, skips the first ones and converts the next ones,
until it has as many as it was asked for. What it has read then is a window of the rows.

* `scan_eq_window` — **the loader returns the window**.
* `window_eq_some_iff` — what a window is, row by row.
* `exists_window` — where there is one.
-/

namespace Windowing

open Fallible

variable {α β : Type*}

/-- The rows of a window, converted, if all rows up to its end pass the check. -/
def window (check : ℕ → α → Bool) (emit : ℕ → α → Option β) (start size : ℕ) (rows : List α) :
    Option (List β) :=
  if start + size ≤ rows.length ∧
      ∀ e ∈ (rows.take (start + size)).zipIdx, check e.2 e.1 = true then
    ((rows.drop start).take size).zipIdx.mapM fun e => emit e.2 e.1
  else none

/-- The loader, behind some rows: the number of the next row, and what is converted so far. -/
def scan (check : ℕ → α → Bool) (emit : ℕ → α → Option β) (start size : ℕ) :
    List α → ℕ → List β → Option (List β)
  | [], _, _ => none
  | row :: rows, index, loaded =>
    if check index row = false then none
    else if index < start then scan check emit start size rows (index + 1) loaded
    else
      (emit loaded.length row).bind fun b =>
        if size ≤ loaded.length + 1 then some (loaded ++ [b])
        else scan check emit start size rows (index + 1) (loaded ++ [b])

variable {check : ℕ → α → Bool} {emit : ℕ → α → Option β} {start size : ℕ}

/-- What the loader returns, behind some rows: it is induced on the rows, and the rows that
are still missing are counted by what is to be skipped and what is to be loaded. -/
theorem scan_eq (rows : List α) (index : ℕ) (loaded : List β) (hloaded : loaded.length < size) :
    scan check emit start size rows index loaded =
      if start - index + (size - loaded.length) ≤ rows.length ∧
          ∀ e ∈ (rows.take (start - index + (size - loaded.length))).zipIdx index,
            check e.2 e.1 = true then
        ((((rows.drop (start - index)).take (size - loaded.length)).zipIdx loaded.length).mapM
          fun e => emit e.2 e.1).map (loaded ++ ·)
      else none := by
  induction rows generalizing index loaded with
  | nil =>
    have hshort : ¬ start - index + (size - loaded.length) ≤ 0 := by omega
    rw [scan, List.length_nil, if_neg fun h => hshort h.1]
  | cons row rows ih =>
    rw [scan]
    by_cases hcheck : check index row = true
    swap
    · -- the first row fails, and it is read in any case
      obtain ⟨m, hm⟩ : ∃ m, start - index + (size - loaded.length) = m + 1 :=
        ⟨start - index + (size - loaded.length) - 1, by omega⟩
      have hfail : ¬ ∀ e ∈ ((row :: rows).take (m + 1)).zipIdx index, check e.2 e.1 = true := by
        rw [List.take_succ_cons, List.zipIdx_cons]
        exact fun h => hcheck (h _ List.mem_cons_self)
      rw [if_pos (Bool.not_eq_true _ ▸ hcheck), hm, if_neg fun h => hfail h.2]
    rw [if_neg fun h => Bool.false_ne_true (h.symm.trans hcheck)]
    by_cases hskip : index < start
    · obtain ⟨s, hs, hs'⟩ : ∃ s, start - index = s + 1 ∧ start - (index + 1) = s :=
        ⟨start - index - 1, by omega, by omega⟩
      rw [if_pos hskip, ih (index + 1) loaded hloaded, hs, hs', List.drop_succ_cons,
        Nat.add_right_comm, List.take_succ_cons, List.length_cons]
      simp only [List.zipIdx_cons, List.forall_mem_cons, Nat.add_le_add_iff_right, hcheck, true_and]
    · obtain ⟨m, hm⟩ : ∃ m, size - loaded.length = m + 1 :=
        ⟨size - loaded.length - 1, by omega⟩
      have hzero : start - index = 0 := by omega
      have hzero' : start - (index + 1) = 0 := by omega
      rw [if_neg hskip, hzero, List.drop_zero, Nat.zero_add, hm, List.take_succ_cons,
        List.length_cons]
      simp only [List.zipIdx_cons, List.forall_mem_cons, Nat.add_le_add_iff_right, hcheck, true_and,
        List.mapM_cons]
      cases hemit : emit loaded.length row with
      | none => simp
      | some b =>
        rw [Option.bind_some, Option.bind_eq_bind, Option.bind_some]
        by_cases hlast : size ≤ loaded.length + 1
        · have hm' : m = 0 := by omega
          rw [if_pos hlast, hm', List.take_zero, List.zipIdx_nil, List.zipIdx_nil]
          simp
        · have hlen : (loaded ++ [b]).length = loaded.length + 1 := List.length_append
          have hm' : size - (loaded.length + 1) = m := by omega
          rw [if_neg hlast, ih (index + 1) (loaded ++ [b]) (by omega), hzero', hlen, hm',
            List.drop_zero, Nat.zero_add]
          congr 1
          cases ((rows.take m).zipIdx (loaded.length + 1)).mapM fun e => emit e.2 e.1 with
          | none => rfl
          | some out => simp

/-- **The loader returns the window.** -/
theorem scan_eq_window (hsize : 0 < size) (rows : List α) :
    scan check emit start size rows 0 [] = window check emit start size rows := by
  rw [scan_eq rows 0 [] hsize, window, List.length_nil, Nat.sub_zero, Nat.sub_zero]
  refine if_congr Iff.rfl ?_ rfl
  exact (congrArg (Option.map · _) (funext List.nil_append)).trans Option.map_id'

/-- The checks, row by row. -/
theorem forall_zipIdx_iff {rows : List α} {n : ℕ} :
    (∀ e ∈ (rows.take n).zipIdx, check e.2 e.1 = true) ↔
      ∀ j < n, ∀ row, rows[j]? = some row → check j row = true := by
  simp only [Prod.forall, List.mem_zipIdx_iff_getElem?, List.getElem?_take]
  constructor
  · intro h j hj row hrow
    exact h row j (by rw [if_pos hj, hrow])
  · intro h row j hrow
    obtain ⟨hj, hrow⟩ := Option.ite_none_right_eq_some.mp hrow
    exact h j hj row hrow

/-- **What a window is**, row by row. -/
theorem window_eq_some_iff {rows : List α} {out : List β} :
    window check emit start size rows = some out ↔
      start + size ≤ rows.length ∧
      (∀ j < start + size, ∀ row, rows[j]? = some row → check j row = true) ∧
      out.length = size ∧
      ∀ k < size, ∀ row, rows[start + k]? = some row → emit k row = out[k]? := by
  rw [window, Option.ite_none_right_eq_some, forall_zipIdx_iff, and_assoc]
  refine and_congr_right fun hlen => and_congr_right fun _ => ?_
  have hsize : ((rows.drop start).take size).zipIdx.length = size := by
    rw [List.length_zipIdx, List.length_take, List.length_drop]
    omega
  rw [mapM_eq_some_iff, hsize]
  refine and_congr_right fun _ => forall_congr' fun k => ?_
  simp only [Prod.forall, List.getElem?_zipIdx, List.getElem?_take, List.getElem?_drop]
  constructor
  · intro h hk row hrow
    refine h row k ?_
    rw [if_pos hk, hrow]
    simp
  · intro h row n hrow
    obtain ⟨row', hrow', heq⟩ := Option.map_eq_some_iff.mp hrow
    obtain ⟨hk, hrow'⟩ := Option.ite_none_right_eq_some.mp hrow'
    obtain ⟨rfl, rfl⟩ := Prod.mk.inj heq
    rw [Nat.zero_add]
    exact h hk _ hrow'

/-- **Where there is a window.** -/
theorem exists_window {rows : List α} (hlen : start + size ≤ rows.length)
    (hcheck : ∀ j < start + size, ∀ row, rows[j]? = some row → check j row = true)
    (hemit : ∀ k < size, ∀ row, rows[start + k]? = some row → (emit k row).isSome = true) :
    ∃ out, window check emit start size rows = some out := by
  rw [window, if_pos ⟨hlen, forall_zipIdx_iff.mpr hcheck⟩]
  refine exists_mapM_eq_some fun e he => ?_
  obtain ⟨row, k⟩ := e
  have hget := List.mem_zipIdx_iff_getElem?.mp he
  rw [List.getElem?_take] at hget
  obtain ⟨hk, hget⟩ := Option.ite_none_right_eq_some.mp hget
  rw [List.getElem?_drop] at hget
  exact hemit k hk row hget

end Windowing
