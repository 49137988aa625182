import BlockEmulator.SidecarWindow
import Mathlib.Data.List.GetD

/-!
# The rows of real accounts in Python (`iot_v2.py`)

Python reads the transactions and the scenes together, row by row: the scene names its place,
and the accounts of its transaction. What is measured is checked later, where a scene is used.

* `loadRows_eq` — **what is read**: a window of the pairs of rows.
* `checkChainRow_eq_some_iff` — which transactions are read.
* `sceneForLegacyFeatures_isSome_iff` — which scenes can be used.
-/

namespace BlockEmulator

open Windowing

/-! ## Files -/

/-- Python opens both files as `utf-8-sig`, without a byte order mark; Go takes the mark for
a character. -/
def withoutMark (rows : List Row) : List Row :=
  rows.modifyHead fun row => row.modifyHead fun cell =>
    String.ofList (trimPrefix cell.toList [Char.ofNat 0xFEFF])

theorem length_withoutMark (rows : List Row) : (withoutMark rows).length = rows.length :=
  List.length_modifyHead

/-- `check_chain_row`: the accounts; `none` is a `ValueError`. The patterns are those of Go. -/
def checkChainRow (row : Row) : Option (String × String) :=
  if row.length ≠ 18 then none
  else if (row.drop 6).take 2 ≠ ["0", "0"] then none
  else if ¬ springRealAddress (row.getD 3 "") ∨ ¬ springRealAddress (row.getD 4 "") then none
  else if row.getD 3 "" = row.getD 4 "" ∨ ¬ springRealAmount (row.getD 8 "") then none
  else some (row.getD 3 "", row.getD 4 "")

section

variable (decimal : Char → Option ℕ) (limit : ℕ)

/-- `int(x)` of a value of the metadata; `none` is an exception. -/
def pyJsonInt : JsonValue → Option ℤ
  | .bool b => some (if b then 1 else 0)
  | .int n => some n
  | .float x => x.finite?.map truncate
  | .str text => pyInt10 decimal limit text.toList
  | _ => none

/-- `int(row[name])`; `none` is an exception. -/
def pyCellInt (header : List String) (record : Row) (name : String) : Option ℤ :=
  (cellOf header record name).bind fun cell => pyInt10 decimal limit cell.toList

/-- The check of a pair of rows in `load_rows`. -/
def pyRowOk (header : List String) (offset : ℤ) (index : ℕ) (pair : Row × Row) : Bool :=
  match checkChainRow pair.1 with
  | none => false
  | some (a, b) =>
    pyCellInt decimal limit header pair.2 "tx_index" = some (offset + index) ∧
      pyCellInt decimal limit header pair.2 "source_row" = some (index + 1 : ℤ) ∧
      cellOf header pair.2 "from_address" = some a ∧ cellOf header pair.2 "to_address" = some b

/-- The loop of `load_rows`: the rows of the two files, and how many pairs are loaded. -/
def loadRowsLoop (header : List String) (offset : ℤ) (startTx maxTxs : ℕ) :
    List Row → ℕ → List Row → ℕ → Option (List (Row × Row))
  | [], _, companion, loaded =>
    if companion ≠ [] then none
    else if maxTxs ≠ 0 ∧ loaded ≠ maxTxs then none
    else some []
  | _ :: _, _, [], _ => none
  | raw :: chain, index, record :: companion, loaded =>
    if pyRowOk decimal limit header offset index (raw, record) = false then none
    else if index < startTx then
      loadRowsLoop header offset startTx maxTxs chain (index + 1) companion loaded
    else if maxTxs ≠ 0 ∧ loaded + 1 ≥ maxTxs then some [(raw, record)]
    else
      (loadRowsLoop header offset startTx maxTxs chain (index + 1) companion (loaded + 1)).map
        ((raw, record) :: ·)

/-- `load_rows`, all its pairs; `none` is an exception. -/
def loadRows (chain scene : List Row) (indexOffset : Option JsonValue) (startTx maxTxs : ℤ) :
    Option (List (Row × Row)) :=
  if startTx < 0 ∨ maxTxs < 0 then none
  else
    (indexOffset.bind (pyJsonInt decimal limit)).bind fun offset =>
      if offset < 0 then none
      else
        loadRowsLoop decimal limit ((withoutMark scene).headD []) offset startTx.toNat maxTxs.toNat
          (withoutMark chain) 0 (withoutMark scene).tail 0

/-! ## Scenes -/

/-- The check of a field in `scene_for_legacy_features`. -/
def pyFieldOk (row : String → Option String) (name : String) : Bool :=
  match (row name).bind fun cell => pyFloat decimal cell.toList with
  | some (some value) => FitsField name value
  | _ => false

/-- `scene_for_legacy_features`; `none` is an exception. -/
def sceneForLegacyFeatures (row : String → Option String) (reverse : Bool) :
    Option (String → Option String) :=
  if ¬ measuredFields.all (pyFieldOk decimal row) then none
  else if row "from_actor_type" ≠ some "device" ∨ row "to_actor_type" ≠ some "device" then none
  else
    some fun name =>
      if name = "anchor_count" ∨ name = "anchor_weights" then some "1"
      else if name = "distance" then row "distance_m"
      else if name = "link_quality" then
        row (if reverse then "link_quality_reverse" else "link_quality_forward")
      else if name = "anchor_types" then
        row (if reverse then "from_actor_type" else "to_actor_type")
      else row name

/-- What `load_iot_transactions` takes from a pair of rows, on real accounts, before its
features: the transaction, and the two scenes; `none` is an exception. -/
def v2Tx (header : List String) (pair : Row × Row) :
    Option (RowTx × (String → Option String) × (String → Option String)) := do
  let forward ← sceneForLegacyFeatures decimal (cellOf header pair.2) false
  let reverse ← sceneForLegacyFeatures decimal (cellOf header pair.2) true
  let value ← pyInt10 decimal limit (pair.1.getD 8 "").toList
  return (⟨String.ofList (normalizeAddress (pair.1.getD 3 "").toList),
    String.ofList (normalizeAddress (pair.1.getD 4 "").toList), value⟩, forward, reverse)

end

/-! ## What is read -/

section

variable {decimal : Char → Option ℕ} {limit : ℕ} {header : List String}

/-- The loop is that of a loader of windows. -/
theorem loadRowsLoop_eq_scan {offset : ℤ} {startTx maxTxs : ℕ} (chain companion : List Row)
    (index : ℕ) (loaded : List (Row × Row)) (hloaded : loaded.length < maxTxs) :
    (loadRowsLoop decimal limit header offset startTx maxTxs chain index companion
        loaded.length).map (loaded ++ ·) =
      scan (pyRowOk decimal limit header offset) (fun _ pair => some pair) startTx maxTxs
        (chain.zip companion) index loaded := by
  induction chain generalizing companion index loaded with
  | nil =>
    rw [List.zip_nil_left, scan, loadRowsLoop]
    split
    · rfl
    · rw [if_pos ⟨by omega, hloaded.ne⟩]
      rfl
  | cons raw chain ih =>
    cases companion with
    | nil =>
      rw [List.zip_nil_right, scan, loadRowsLoop]
      rfl
    | cons record companion =>
      rw [List.zip_cons_cons, scan, loadRowsLoop]
      split
      · rfl
      · split
        · exact ih companion (index + 1) loaded hloaded
        · rw [Option.bind_some]
          have hlen : (loaded ++ [(raw, record)]).length = loaded.length + 1 := List.length_append
          by_cases hlast : maxTxs ≤ loaded.length + 1
          · rw [if_pos ⟨by omega, hlast⟩, if_pos hlast]
            rfl
          · rw [if_neg fun h => hlast h.2, if_neg hlast, ← ih companion (index + 1) _ (by omega), hlen,
              Option.map_map]
            refine congrArg (Option.map · _) (funext fun out => ?_)
            rw [Function.comp_apply, List.append_assoc, List.singleton_append]

/-- **What is read**: a window of the pairs of rows. -/
theorem loadRows_eq {chain scene : List Row} {offset : ℤ} {startTx maxTxs : ℤ} (hstart : 0 ≤ startTx)
    (hmax : 0 < maxTxs) (hoffset : 0 ≤ offset) :
    loadRows decimal limit chain scene (some (.int offset)) startTx maxTxs =
      window (pyRowOk decimal limit ((withoutMark scene).headD []) offset) (fun _ pair => some pair)
        startTx.toNat maxTxs.toNat ((withoutMark chain).zip (withoutMark scene).tail) := by
  have hnat : 0 < maxTxs.toNat := by omega
  rw [loadRows, if_neg (by omega), Option.bind_some, pyJsonInt, Option.bind_some,
    if_neg (not_lt.mpr hoffset), ← scan_eq_window hnat,
    ← loadRowsLoop_eq_scan (withoutMark chain) (withoutMark scene).tail 0 [] hnat]
  exact (Option.map_id' ..).symm

/-- **Which transactions are read.** -/
theorem checkChainRow_eq_some_iff {row : Row} {a b : String} :
    checkChainRow row = some (a, b) ↔
      (row.length = 18 ∧ row.getD 6 "" = "0" ∧ row.getD 7 "" = "0") ∧
      (springRealAddress (row.getD 3 "") = true ∧ springRealAddress (row.getD 4 "") = true) ∧
      (row.getD 3 "" ≠ row.getD 4 "" ∧ springRealAmount (row.getD 8 "") = true) ∧
      row.getD 3 "" = a ∧ row.getD 4 "" = b := by
  have hflags : row.length = 18 →
      ((row.drop 6).take 2 = ["0", "0"] ↔ row.getD 6 "" = "0" ∧ row.getD 7 "" = "0") := by
    intro hlen
    have h6 : 6 < row.length := by omega
    have h7 : 7 < row.length := by omega
    rw [List.drop_eq_getElem_cons h6, List.take_succ_cons, List.drop_eq_getElem_cons h7,
      List.take_succ_cons, List.take_zero, List.getD_eq_getElem _ _ h6, List.getD_eq_getElem _ _ h7,
      List.cons.injEq, List.cons.injEq, and_iff_left rfl]
  unfold checkChainRow
  split
  next hlen => exact iff_of_false nofun fun h => hlen h.1.1
  next hlen =>
    have hlen := not_not.mp hlen
    rw [and_iff_right hlen, ← hflags hlen]
    split
    next h => exact iff_of_false nofun fun hall => h hall.1
    next h =>
      rw [and_iff_right (not_not.mp h)]
      split
      next h => exact iff_of_false nofun fun hall => h.elim (· hall.1.1) (· hall.1.2)
      next h =>
        rw [not_or, not_not, not_not] at h
        rw [and_iff_right h]
        split
        next h => exact iff_of_false nofun fun hall => h.elim hall.1.1 (· hall.1.2)
        next h =>
          rw [not_or, not_not] at h
          rw [and_iff_right h, Option.some.injEq, Prod.mk.injEq]

/-- **Which scenes can be used.** -/
theorem sceneForLegacyFeatures_isSome_iff {row : String → Option String} {reverse : Bool} :
    (sceneForLegacyFeatures decimal row reverse).isSome = true ↔
      (∀ name ∈ measuredFields, pyFieldOk decimal row name = true) ∧
      row "from_actor_type" = some "device" ∧ row "to_actor_type" = some "device" := by
  unfold sceneForLegacyFeatures
  split
  next h => exact iff_of_false Bool.false_ne_true fun hall => h (List.all_eq_true.mpr hall.1)
  next hfields =>
    rw [and_iff_right (List.all_eq_true.mp (not_not.mp hfields))]
    split
    next h => exact iff_of_false Bool.false_ne_true fun hall => h.elim (· hall.1) (· hall.2)
    next hactors =>
      rw [not_or, not_not, not_not] at hactors
      exact iff_of_true rfl hactors

end

end BlockEmulator
