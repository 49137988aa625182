import BlockEmulator.JsonValue
import BlockEmulator.MsgSending
import BlockEmulator.SidecarRow
import BlockEmulator.Windowing

/-!
# The window of the sidecar file (`springLoadIOTSidecarWindow`)

The supervisor loads the rows of its window before a run: each row has its place in the file,
and gives a feature; the features are numbered anew from zero on. On real accounts the row
has its own checks, and the feature is that of a row with one anchor.

* `springRealFeatureFromRow_isSome_iff` — which rows have a feature on real accounts.
* `springLoadIOTSidecarWindow_window` — **what is loaded**: a window of the rows.
-/

namespace BlockEmulator

open Windowing

/-! ## Rows -/

/-- A cell of a record by its name; of two columns of that name, the last. -/
def cellOf (header : List String) (record : Row) (name : String) : Option String :=
  (header.zip record).reverse.lookup name

/-- `row`, the map of a record. -/
def sidecarRow (header : List String) (record : Row) : SidecarRow := fun name =>
  ((cellOf header record name).getD "").toList

/-- `springV2IndexOffset`, from the value of `index_offset` in the summary of the directory,
if there is one; `none` is an error. `json.Unmarshal` leaves a number alone at `null`. -/
def springV2IndexOffset : Option JsonValue → Option ℕ
  | some (.int n) => if 0 ≤ n ∧ n < 2 ^ 64 then some n.toNat else none
  | some .null => some 0
  | _ => none

/-- The fields that `springRealFeatureFromRow` reads as numbers. -/
def measuredFields : List String :=
  ["distance_m", "link_quality_forward", "link_quality_reverse", "flowDuration",
    "srcNumPackets", "dstNumPackets", "srcPayloadSize", "dstPayloadSize"]

/-- A field that holds a probability. -/
def isLinkQuality (name : String) : Bool := "link_quality".toList.isPrefixOf name.toList

/-- A number that a field can have. -/
def FitsField (name : String) (value : ℚ) : Prop :=
  0 ≤ value ∧ ¬ (isLinkQuality name = true ∧ value > 1)

instance (name : String) (value : ℚ) : Decidable (FitsField name value) :=
  inferInstanceAs (Decidable (_ ∧ _))

/-- The check of a field in `springRealFeatureFromRow`. -/
def goFieldOk (row : SidecarRow) (name : String) : Bool :=
  match parseFloat (row name) with
  | some (some value) => FitsField name value
  | _ => false

/-- `adapt` in `springRealFeatureFromRow`: the row with one anchor, at the other end. -/
def adaptRow (row : SidecarRow) (reverse : Bool) : SidecarRow := fun name =>
  if name = "anchor_count" ∨ name = "anchor_weights" then ['1']
  else if name = "distance" then row "distance_m"
  else if name = "link_quality" then
    row (if reverse then "link_quality_reverse" else "link_quality_forward")
  else if name = "anchor_types" then row (if reverse then "from_actor_type" else "to_actor_type")
  else row name

/-- `SpringIOTTxFeature{}`. -/
def SpringIOTTxFeature.zero : SpringIOTTxFeature := ⟨"", "", [], [], [], 0, false, [], 0⟩

section

variable (fromRow : SidecarRow → Option SpringIOTTxFeature)

/-- `springRealFeatureFromRow`, for some `springIOTFeatureFromRow`, which returns the zero
feature where it fails; `none` is an error. The numbers that are checked are those of the two
rows with one anchor, so it does not fail where there is no other list of numbers. -/
def springRealFeatureFromRow (row : SidecarRow) : Option SpringIOTTxFeature :=
  if ¬ springRealAddress (String.ofList (row "from_address")) ∨
      ¬ springRealAddress (String.ofList (row "to_address")) ∨
      row "from_address" = row "to_address" then none
  else if ¬ measuredFields.all (goFieldOk row) then none
  else if row "from_actor_type" ≠ "device".toList ∨ row "to_actor_type" ≠ "device".toList then none
  else
    let forward := (fromRow (adaptRow row false)).getD .zero
    let reverse := (fromRow (adaptRow row true)).getD .zero
    let anchor := String.ofList (trimPrefix (row "to_address") ['0', 'x'])
    some { forward with
      realAccounts := true
      stateObject := String.ofList (trimPrefix (row "from_address") ['0', 'x'])
      anchorObject := anchor
      anchorObjects := [anchor]
      anchorWeights := [1]
      recipientFeatures := reverse.features
      recipientCommunicationCostWeight := reverse.communicationCostWeight }

/-! ## The loader -/

/-- The place of a row, where its cells agree with it; `none` is an error. -/
def sourceTxIndex (real : Bool) (globalOffset rowIndex : ℕ) (row : SidecarRow) : Option ℕ :=
  let rawTxIndex := trimSpace (row "tx_index")
  if rawTxIndex = [] ∧ real = true then none
  else
    let rawTxIndex := if rawTxIndex = [] then (Nat.repr rowIndex).toList else rawTxIndex
    (parseUint64 (springIOTCleanCell rawTxIndex)).bind fun sourceTxIndex =>
      if sourceTxIndex ≠ (globalOffset + rowIndex) % 2 ^ 64 then none
      else if real = true ∧ parseUint64 (row "source_row") ≠ some (rowIndex + 1) then none
      else some sourceTxIndex

/-- The feature of a row of the window, under its local number. -/
def loadedFeature (real : Bool) (localTxIndex : ℕ) (row : SidecarRow) :
    Option SpringIOTTxFeature :=
  let row := Function.update row "tx_index" (Nat.repr localTxIndex).toList
  if real then springRealFeatureFromRow fromRow row else fromRow row

theorem loadedFeature_real (localTxIndex : ℕ) (row : SidecarRow) :
    loadedFeature fromRow true localTxIndex row = springRealFeatureFromRow fromRow
      (Function.update row "tx_index" (Nat.repr localTxIndex).toList) := by
  rw [loadedFeature, if_pos rfl]

/-- The loop of `springLoadIOTSidecarWindow`. -/
def sidecarLoop (real broken : Bool) (header : List String) (globalOffset windowStart maxTx : ℕ) :
    List Row → ℕ → List SpringIOTTxFeature → Option (List SpringIOTTxFeature)
  | [], _, features => if broken then none else some features
  | record :: records, rowIndex, features =>
    let row := sidecarRow header record
    (sourceTxIndex real globalOffset rowIndex row).bind fun sourceTxIndex =>
      if (sourceTxIndex + 2 ^ 64 - globalOffset) % 2 ^ 64 < windowStart then
        sidecarLoop real broken header globalOffset windowStart maxTx records (rowIndex + 1) features
      else if 0 < maxTx ∧ maxTx ≤ features.length then some features
      else
        (loadedFeature fromRow real features.length row).bind fun feature =>
          let features := features ++ [feature]
          if 0 < maxTx ∧ maxTx ≤ features.length then some features
          else
            sidecarLoop real broken header globalOffset windowStart maxTx records (rowIndex + 1)
              features

/-- `springLoadIOTSidecarWindow`, on a file that could be opened; `none` is an error. The
feature of number `n` is the `n`-th of the list. -/
def springLoadIOTSidecarWindow (real : Bool) (file : DataFile) (indexOffset : Option JsonValue)
    (startTx maxTx : ℤ) : Option (List SpringIOTTxFeature) :=
  if startTx < 0 ∨ maxTx < 0 then none
  else
    match file.rows with
    | [] => none
    | header :: records =>
      if decide ("template_id" ∈ header) ≠ real then none
      else
        (if real then springV2IndexOffset indexOffset else some 0).bind fun globalOffset =>
          (sidecarLoop fromRow real file.broken header globalOffset startTx.toNat maxTx.toNat
            records 0 []).bind fun features =>
            if maxTx > 0 ∧ (features.length : ℤ) ≠ maxTx then none else some features

end

/-! ## What is loaded -/

section

variable {fromRow : SidecarRow → Option SpringIOTTxFeature} {row : SidecarRow}
  {header : List String} {globalOffset rowIndex sourceIndex : ℕ}

/-- **Which rows have a feature**, on real accounts. -/
theorem springRealFeatureFromRow_isSome_iff :
    (springRealFeatureFromRow fromRow row).isSome = true ↔
      (springRealAddress (String.ofList (row "from_address")) = true ∧
        springRealAddress (String.ofList (row "to_address")) = true ∧
        row "from_address" ≠ row "to_address") ∧
      (∀ name ∈ measuredFields, goFieldOk row name = true) ∧
      row "from_actor_type" = "device".toList ∧ row "to_actor_type" = "device".toList := by
  unfold springRealFeatureFromRow
  split
  next h =>
    refine iff_of_false Bool.false_ne_true fun hall => ?_
    obtain ⟨hfrom, hto, hne⟩ := hall.1
    exact h.elim (· hfrom) fun h => h.elim (· hto) hne
  next haddress =>
    rw [not_or, not_or, not_not, not_not] at haddress
    rw [and_iff_right haddress]
    split
    next h =>
      refine iff_of_false Bool.false_ne_true fun hall => h (List.all_eq_true.mpr hall.1)
    next hfields =>
      rw [and_iff_right (List.all_eq_true.mp (not_not.mp hfields))]
      split
      next h => exact iff_of_false Bool.false_ne_true fun hall => h.elim (· hall.1) (· hall.2)
      next hactors =>
        rw [not_or, not_not, not_not] at hactors
        exact iff_of_true rfl hactors

/-- On real accounts a place fits, and its cells are those of the row. -/
theorem sourceTxIndex_real (h : sourceTxIndex true globalOffset rowIndex row = some sourceIndex) :
    sourceIndex = (globalOffset + rowIndex) % 2 ^ 64 ∧
      parseUint64 (row "source_row") = some (rowIndex + 1) := by
  unfold sourceTxIndex at h
  obtain ⟨-, h⟩ := Option.ite_none_left_eq_some.mp h
  obtain ⟨source, -, h⟩ := Option.bind_eq_some_iff.mp h
  obtain ⟨hplace, h⟩ := Option.ite_none_left_eq_some.mp h
  obtain ⟨hrow, h⟩ := Option.ite_none_left_eq_some.mp h
  obtain rfl := Option.some.inj h
  exact ⟨not_not.mp hplace, not_not.mp fun hne => hrow ⟨rfl, hne⟩⟩

/-- What `ParseUint` reads fits. -/
theorem parseUint64_lt {text : List Char} {n : ℕ} (h : parseUint64 text = some n) : n < 2 ^ 64 := by
  unfold parseUint64 at h
  obtain ⟨-, h⟩ := Option.ite_none_left_eq_some.mp h
  obtain ⟨m, -, h⟩ := Option.bind_eq_some_iff.mp h
  obtain ⟨hlt, h⟩ := Option.ite_none_right_eq_some.mp h
  obtain rfl := Option.some.inj h
  exact hlt

/-- The offset fits. -/
theorem springV2IndexOffset_lt {indexOffset : Option JsonValue}
    (h : springV2IndexOffset indexOffset = some globalOffset) : globalOffset < 2 ^ 64 := by
  unfold springV2IndexOffset at h
  split at h
  · obtain ⟨hfits, h⟩ := Option.ite_none_right_eq_some.mp h
    obtain rfl := Option.some.inj h
    omega
  · obtain rfl := Option.some.inj h
    decide
  · cases h

/-- The place, less the offset, is the number of the row. -/
theorem sourceTxIndex_local (hoffset : globalOffset < 2 ^ 64)
    (h : sourceTxIndex true globalOffset rowIndex row = some sourceIndex) :
    (sourceIndex + 2 ^ 64 - globalOffset) % 2 ^ 64 = rowIndex := by
  obtain ⟨rfl, hrow⟩ := sourceTxIndex_real h
  have hlt := parseUint64_lt hrow
  by_cases hwrap : globalOffset + rowIndex < 2 ^ 64
  · rw [Nat.mod_eq_of_lt hwrap]
    omega
  · have hmod : (globalOffset + rowIndex) % 2 ^ 64 = globalOffset + rowIndex - 2 ^ 64 := by
      rw [Nat.mod_eq_sub_mod (not_lt.mp hwrap), Nat.mod_eq_of_lt (by omega)]
    rw [hmod]
    omega

/-- The check of a row, on real accounts. -/
def goRowOk (header : List String) (globalOffset rowIndex : ℕ) (record : Row) : Bool :=
  (sourceTxIndex true globalOffset rowIndex (sidecarRow header record)).isSome

/-- Without an offset the place is the number of the row, below the range of the counter. -/
theorem sourceTxIndex_zero (hrow : rowIndex < 2 ^ 64)
    (h : sourceTxIndex false 0 rowIndex row = some sourceIndex) : sourceIndex = rowIndex := by
  unfold sourceTxIndex at h
  obtain ⟨-, h⟩ := Option.ite_none_left_eq_some.mp h
  obtain ⟨source, -, h⟩ := Option.bind_eq_some_iff.mp h
  obtain ⟨hplace, h⟩ := Option.ite_none_left_eq_some.mp h
  obtain ⟨-, h⟩ := Option.ite_none_left_eq_some.mp h
  obtain rfl := Option.some.inj h
  rw [not_not.mp hplace, Nat.zero_add, Nat.mod_eq_of_lt hrow]

/-- The check of a row. -/
def sidecarRowOk (real : Bool) (header : List String) (globalOffset rowIndex : ℕ)
    (record : Row) : Bool :=
  (sourceTxIndex real globalOffset rowIndex (sidecarRow header record)).isSome

/-- The loop is that of a loader of windows, where a place tells the number of the row. It
reads no row behind the window. -/
theorem sidecarLoop_eq_scan {real broken : Bool} {windowStart maxTx : ℕ} (hmax : 0 < maxTx)
    (hplace : ∀ rowIndex < windowStart + maxTx, ∀ row source,
      sourceTxIndex real globalOffset rowIndex row = some source →
      (source + 2 ^ 64 - globalOffset) % 2 ^ 64 = rowIndex)
    (records : List Row) (rowIndex : ℕ) (features : List SpringIOTTxFeature)
    (hfeatures : features.length < maxTx) (hindex : rowIndex ≤ windowStart + features.length) :
    ((sidecarLoop fromRow real broken header globalOffset windowStart maxTx records rowIndex
        features).bind fun out => if out.length ≠ maxTx then none else some out) =
      scan (sidecarRowOk real header globalOffset)
        (fun localTxIndex record =>
          loadedFeature fromRow real localTxIndex (sidecarRow header record))
        windowStart maxTx records rowIndex features := by
  induction records generalizing rowIndex features with
  | nil =>
    rw [sidecarLoop, scan]
    split
    · rfl
    · rw [Option.bind_some, if_pos hfeatures.ne]
  | cons record records ih =>
    rw [sidecarLoop, scan, sidecarRowOk]
    dsimp only
    cases hsource : sourceTxIndex real globalOffset rowIndex (sidecarRow header record) with
    | none => rfl
    | some sourceIndex =>
      have hroom : ¬ (0 < maxTx ∧ maxTx ≤ features.length) := fun h => absurd h.2 hfeatures.not_ge
      rw [Option.bind_some, hplace rowIndex (by omega) _ _ hsource, Option.isSome_some,
        if_neg Bool.true_eq_false.mp, if_neg hroom]
      by_cases hskip : rowIndex < windowStart
      · rw [if_pos hskip, if_pos hskip]
        exact ih (rowIndex + 1) features hfeatures (by omega)
      · rw [if_neg hskip, if_neg hskip]
        cases loadedFeature fromRow real features.length (sidecarRow header record) with
        | none => rfl
        | some feature =>
          have hlen : (features ++ [feature]).length = features.length + 1 := List.length_append
          rw [Option.bind_some, Option.bind_some, hlen]
          by_cases hlast : maxTx ≤ features.length + 1
          · rw [if_pos ⟨hmax, hlast⟩, if_pos hlast, Option.bind_some, hlen, if_neg (by omega)]
          · rw [if_neg fun h => hlast h.2, if_neg hlast]
            exact ih (rowIndex + 1) (features ++ [feature]) (by omega) (by omega)

/-- The offset of the file, `none` where it cannot be read. -/
def globalOffsetOf (real : Bool) (indexOffset : Option JsonValue) : Option ℕ :=
  if real then springV2IndexOffset indexOffset else some 0

/-- The number in the file is found again from the place that is written. -/
theorem sourceTxIndex_place {real : Bool} {indexOffset : Option JsonValue} {rowIndex source : ℕ}
    {row : SidecarRow} (hoffset : globalOffsetOf real indexOffset = some globalOffset)
    (hint : real = false → rowIndex < 2 ^ 64)
    (hsource : sourceTxIndex real globalOffset rowIndex row = some source) :
    (source + 2 ^ 64 - globalOffset) % 2 ^ 64 = rowIndex := by
  cases real with
  | true =>
    have hfits : globalOffset < 2 ^ 64 := by
      rw [globalOffsetOf, if_pos rfl] at hoffset
      exact springV2IndexOffset_lt hoffset
    exact sourceTxIndex_local hfits hsource
  | false =>
    have hlt := hint rfl
    have hzero : globalOffset = 0 := by
      rw [globalOffsetOf, if_neg Bool.false_ne_true] at hoffset
      exact (Option.some.inj hoffset).symm
    rw [hzero] at hsource ⊢
    rw [sourceTxIndex_zero hlt hsource, Nat.sub_zero, Nat.add_mod_right, Nat.mod_eq_of_lt hlt]

/-- **What is loaded**: a window of the rows. `startTx` and `maxTx` are of type `int`. -/
theorem springLoadIOTSidecarWindow_window {real : Bool} {records : List Row} {broken : Bool}
    {indexOffset : Option JsonValue} {startTx maxTx : ℤ}
    (hheader : decide ("template_id" ∈ header) = real)
    (hoffset : globalOffsetOf real indexOffset = some globalOffset) (hstart : 0 ≤ startTx)
    (hmax : 0 < maxTx) (hint : real = false → startTx + maxTx < 2 ^ 64) :
    springLoadIOTSidecarWindow fromRow real ⟨header :: records, broken⟩ indexOffset startTx maxTx =
      window (sidecarRowOk real header globalOffset)
        (fun localTxIndex record =>
          loadedFeature fromRow real localTxIndex (sidecarRow header record))
        startTx.toNat maxTx.toNat records := by
  have hnat : 0 < maxTx.toNat := by omega
  have hcount : ∀ out : List SpringIOTTxFeature,
      (maxTx > 0 ∧ (out.length : ℤ) ≠ maxTx) ↔ out.length ≠ maxTx.toNat := by
    intro out
    omega
  have hplace : ∀ rowIndex < startTx.toNat + maxTx.toNat, ∀ row source,
      sourceTxIndex real globalOffset rowIndex row = some source →
      (source + 2 ^ 64 - globalOffset) % 2 ^ 64 = rowIndex := by
    intro rowIndex hrow row source hsource
    refine sourceTxIndex_place hoffset (fun hreal => ?_) hsource
    have hend := hint hreal
    omega
  rw [globalOffsetOf] at hoffset
  rw [springLoadIOTSidecarWindow, if_neg (by omega)]
  dsimp only
  rw [if_neg (not_not.mpr hheader), hoffset, Option.bind_some]
  simp only [hcount]
  rw [sidecarLoop_eq_scan hnat hplace records 0 [] hnat (Nat.zero_le _), scan_eq_window hnat]

/-- **What is loaded** on real accounts. -/
theorem springLoadIOTSidecarWindow_eq {records : List Row} {broken : Bool} {offset startTx maxTx : ℤ}
    (hheader : "template_id" ∈ header) (hoffset : 0 ≤ offset ∧ offset < 2 ^ 64)
    (hstart : 0 ≤ startTx) (hmax : 0 < maxTx) :
    springLoadIOTSidecarWindow fromRow true ⟨header :: records, broken⟩ (some (.int offset)) startTx
        maxTx =
      window (goRowOk header offset.toNat)
        (fun localTxIndex record =>
          loadedFeature fromRow true localTxIndex (sidecarRow header record))
        startTx.toNat maxTx.toNat records :=
  springLoadIOTSidecarWindow_window (decide_eq_true hheader) (if_pos hoffset) hstart hmax
    fun h => nomatch h

end

end BlockEmulator
