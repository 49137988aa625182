import BlockEmulator.SidecarWindow

/-!
# Windows of one file (`load_transactions`, `skipValidTransactions`, `springLoadIOTSidecarWindow`)

A run uses a window of the valid transactions of a file and the same window of the rows of
the sidecar. Python reads up to the window and skips the transactions before it; Go skips
them first and numbers what follows from zero on.

* `loadTransactionsOf_eq` — what Python loads.
* `validTxs_skip` — what Go reads behind a skip.
* `windows_compose` — **two windows that meet make one, and the sidecar row of a local
  number is that of the transaction**.
-/

namespace BlockEmulator

open Windowing

/-! ## Python -/

section Python

variable (decimal : Char → Option ℕ) (limit : ℕ)

/-- The loop of `load_transactions`, on a file with a row that cannot be read or without. -/
def loadFileLoop (maxTxs startTx : ℤ) (broken : Bool) :
    List Row → ℕ → List RowTx → Option (List RowTx)
  | [], _, txs => if broken then none else some txs
  | row :: rows, validIndex, txs =>
    match parseTxRow decimal limit row with
    | none => loadFileLoop maxTxs startTx broken rows validIndex txs
    | some tx =>
      if (validIndex : ℤ) < startTx then
        loadFileLoop maxTxs startTx broken rows (validIndex + 1) txs
      else if 0 < maxTxs ∧ maxTxs ≤ (txs ++ [tx]).length then some (txs ++ [tx])
      else loadFileLoop maxTxs startTx broken rows (validIndex + 1) (txs ++ [tx])

/-- `load_transactions`; `none` is an exception. -/
def loadTransactionsOf (file : DataFile) (maxTxs startTx : ℤ) : Option (List RowTx) :=
  if startTx < 0 ∨ maxTxs < 0 then none
  else loadFileLoop decimal limit maxTxs startTx file.broken file.rows 0 []

/-- The valid transactions of a file. -/
def validRowTxs (rows : List Row) : List RowTx := rows.filterMap (parseTxRow decimal limit)

variable {decimal limit}

/-- The loop, behind some rows: what is to be skipped yet and what is to be loaded yet. -/
theorem loadFileLoop_eq {maxTxs startTx : ℕ} {broken : Bool} {rows : List Row} {validIndex : ℕ}
    {txs : List RowTx} (h : txs.length < maxTxs) (hindex : txs = [] ∨ startTx ≤ validIndex) :
    loadFileLoop decimal limit maxTxs startTx broken rows validIndex txs =
      if broken = true ∧ (validRowTxs decimal limit rows).length <
          startTx - validIndex + (maxTxs - txs.length) then none
      else some (txs ++ ((validRowTxs decimal limit rows).drop (startTx - validIndex)).take
        (maxTxs - txs.length)) := by
  induction rows generalizing validIndex txs with
  | nil =>
    have hleft : 0 < startTx - validIndex + (maxTxs - txs.length) := by omega
    rw [loadFileLoop, validRowTxs, List.filterMap_nil]
    cases broken with
    | true => rw [if_pos rfl, if_pos ⟨rfl, hleft⟩]
    | false => simp
  | cons row rows ih =>
    rw [loadFileLoop]
    cases hrow : parseTxRow decimal limit row with
    | none =>
      have hvalid : validRowTxs decimal limit (row :: rows) = validRowTxs decimal limit rows :=
        List.filterMap_cons_none hrow
      rw [hvalid]
      exact ih h hindex
    | some tx =>
      have hvalid : validRowTxs decimal limit (row :: rows) =
          tx :: validRowTxs decimal limit rows := List.filterMap_cons_some hrow
      rw [hvalid]
      dsimp only
      by_cases hskip : validIndex < startTx
      · obtain rfl : txs = [] := hindex.resolve_right (by omega)
        have hsucc : startTx - validIndex = startTx - (validIndex + 1) + 1 := by omega
        rw [if_pos (Int.ofNat_lt.mpr hskip), ih h (.inl rfl), hsucc, List.drop_succ_cons,
          List.length_cons]
        refine if_congr (and_congr_right fun _ => ?_) rfl rfl
        omega
      · have hzero : startTx - validIndex = 0 := by omega
        have hsucc : maxTxs - txs.length = maxTxs - (txs.length + 1) + 1 := by omega
        have hlen : (txs ++ [tx]).length = txs.length + 1 := List.length_append
        rw [if_neg fun hlt => hskip (Int.ofNat_lt.mp hlt), hzero, List.drop_zero, hsucc,
          List.take_succ_cons, List.append_cons txs tx (List.take _ _), List.length_cons, hlen]
        by_cases hfull : maxTxs ≤ txs.length + 1
        · have hz : maxTxs - (txs.length + 1) = 0 := by omega
          rw [if_pos ⟨by omega, by omega⟩, hz, List.take_zero, List.append_nil,
            if_neg fun hshort => by omega]
        · have hz : startTx - (validIndex + 1) = 0 := by omega
          rw [if_neg fun hend => by omega, ih (by omega) (.inr (by omega)), hlen, hz,
            List.drop_zero]
          refine if_congr (and_congr_right fun _ => ?_) rfl rfl
          omega

/-- **What Python loads**: it fails where it meets a row that cannot be read before it has
as many transactions as it was asked for. -/
theorem loadTransactionsOf_eq (file : DataFile) {maxTxs startTx : ℤ} (hmax : 0 < maxTxs)
    (hstart : 0 ≤ startTx) :
    loadTransactionsOf decimal limit file maxTxs startTx =
      if file.broken = true ∧
          ((validRowTxs decimal limit file.rows).length : ℤ) < startTx + maxTxs then none
      else some (((validRowTxs decimal limit file.rows).drop startTx.toNat).take
        maxTxs.toNat) := by
  obtain ⟨m, rfl⟩ := Int.eq_ofNat_of_zero_le hmax.le
  obtain ⟨s, rfl⟩ := Int.eq_ofNat_of_zero_le hstart
  have hm : ([] : List RowTx).length < m := Int.ofNat_lt.mp hmax
  rw [loadTransactionsOf, if_neg (by omega), loadFileLoop_eq hm (.inl rfl)]
  refine if_congr (and_congr_right fun _ => ?_) rfl rfl
  simp only [List.length_nil]
  omega

/-- **Two windows that meet make one.** -/
theorem loadTransactionsOf_append {file : DataFile} {a b : ℤ} (ha : 0 < a) (hab : a < b)
    {txs : List RowTx} (h : loadTransactionsOf decimal limit file b 0 = some txs) :
    ∃ first later, loadTransactionsOf decimal limit file a 0 = some first ∧
      loadTransactionsOf decimal limit file (b - a) a = some later ∧ first ++ later = txs := by
  rw [loadTransactionsOf_eq file (by omega) (Int.le_refl 0)] at h
  obtain ⟨hread, h⟩ := Option.ite_none_left_eq_some.mp h
  obtain rfl := Option.some.inj h
  refine ⟨_, _, (loadTransactionsOf_eq file ha (Int.le_refl 0)).trans (if_neg fun hshort =>
    hread ⟨hshort.1, by omega⟩), (loadTransactionsOf_eq file (by omega) ha.le).trans
    (if_neg fun hshort => hread ⟨hshort.1, by omega⟩), ?_⟩
  have hsum : b.toNat = a.toNat + (b - a).toNat := by omega
  rw [hsum, List.take_add, Int.toNat_zero, List.drop_zero]

end Python

/-! ## Go -/

/-- The rows of valid transactions. -/
def validRows (real : Bool) (rows : List Row) : List Row :=
  rows.filter fun data => (data2txOf real data 0 []).isSome

/-- A skip leaves the valid rows behind it. -/
theorem validRows_skip {real : Bool} {rows rest : List Row} {count : ℕ}
    (h : skipValidTransactionsOf real rows count = some rest) :
    validRows real rest = (validRows real rows).drop count := by
  induction rows generalizing count with
  | nil =>
    cases count with
    | zero => rw [← Option.some.inj h, List.drop_zero]
    | succ count => cases h
  | cons data rows ih =>
    cases count with
    | zero => rw [← Option.some.inj h, List.drop_zero]
    | succ count =>
      rw [skipValidTransactionsOf] at h
      cases hdata : data2txOf real data 0 [] with
      | none =>
        rw [hdata] at h
        obtain ⟨-, h⟩ := Option.ite_none_left_eq_some.mp h
        rw [ih h, validRows, validRows, List.filter_cons_of_neg (by simp [hdata])]
      | some tx =>
        rw [hdata] at h
        rw [ih h, validRows, validRows, List.filter_cons_of_pos (by simp [hdata]),
          List.drop_succ_cons]

/-- Skips compose. -/
theorem skipValidTransactionsOf_add (real : Bool) (rows : List Row) (a b : ℕ) :
    skipValidTransactionsOf real rows (a + b) =
      (skipValidTransactionsOf real rows a).bind (skipValidTransactionsOf real · b) := by
  induction rows generalizing a with
  | nil =>
    cases a with
    | zero => rw [Nat.zero_add, skipValidTransactionsOf, Option.bind_some]
    | succ a =>
      rw [Nat.succ_add]
      rfl
  | cons data rows ih =>
    cases a with
    | zero => rw [Nat.zero_add, skipValidTransactionsOf, Option.bind_some]
    | succ a =>
      rw [Nat.succ_add, skipValidTransactionsOf, skipValidTransactionsOf]
      cases data2txOf real data 0 [] with
      | some tx => exact ih a
      | none =>
        cases real with
        | true => rfl
        | false =>
          have hnext := ih (a + 1)
          rw [Nat.succ_add] at hnext
          exact hnext

variable (cfg : SendingConfig)

/-- The transaction of a number is that of the valid row. -/
theorem validTxs_getElem? (rows : List Row) (n i : ℕ) :
    (cfg.validTxs rows n)[i]? =
      ((validRows cfg.real rows)[i]?).bind fun data => cfg.data2tx data (n + i) := by
  induction rows generalizing n i with
  | nil => rfl
  | cons data rows ih =>
    have hvalid : cfg.data2tx data n = none ↔ data2txOf cfg.real data 0 [] = none :=
      SendingConfig.data2txOf_eq_none_iff
    rw [SendingConfig.validTxs]
    cases hrow : cfg.data2tx data n with
    | none =>
      have hrows : validRows cfg.real (data :: rows) = validRows cfg.real rows :=
        List.filter_cons_of_neg (by simp [hvalid.mp hrow])
      rw [hrows]
      exact ih n i
    | some tx =>
      have hsome : (data2txOf cfg.real data 0 []).isSome = true := by
        rw [Option.isSome_iff_ne_none]
        exact fun hnone => by simp [hvalid.mpr hnone] at hrow
      have hrows : validRows cfg.real (data :: rows) = data :: validRows cfg.real rows :=
        List.filter_cons_of_pos hsome
      rw [hrows]
      cases i with
      | zero => exact hrow.symm
      | succ i =>
        rw [List.getElem?_cons_succ, List.getElem?_cons_succ, ih (n + 1) i]
        have hnumber : n + 1 + i = n + (i + 1) := by omega
        rw [hnumber]

/-- **What Go reads behind a skip**: the transaction of a local number is made of the valid
row with as many before it as were skipped, and that number. -/
theorem validTxs_skip {rows rest : List Row} {startTx : ℕ}
    (h : skipValidTransactionsOf cfg.real rows startTx = some rest) (i : ℕ) :
    (cfg.validTxs rest 0)[i]? =
      ((validRows cfg.real rows)[startTx + i]?).bind fun data => cfg.data2tx data i := by
  rw [validTxs_getElem?, validRows_skip h, List.getElem?_drop, Nat.zero_add]

/-! ## The windows -/

/-- What the loader of the sidecar holds: as many features as were asked for, and under each
local number that of the row whose place is so far behind the start of the window. -/
structure HoldsWindow (fromRow : SidecarRow → Option SpringIOTTxFeature) (real : Bool)
    (header : List String) (records : List Row) (globalOffset startTx maxTx : ℕ)
    (features : List SpringIOTTxFeature) : Prop where
  length : features.length = maxTx
  row : ∀ i < maxTx, ∃ record, records[startTx + i]? = some record ∧
    sourceTxIndex real globalOffset (startTx + i) (sidecarRow header record) =
      some ((globalOffset + (startTx + i)) % 2 ^ 64) ∧
    features[i]? = loadedFeature fromRow real i (sidecarRow header record) ∧
    (loadedFeature fromRow real i (sidecarRow header record)).isSome = true

theorem sourceTxIndex_eq_some {real : Bool} {globalOffset rowIndex source : ℕ} {row : SidecarRow}
    (h : sourceTxIndex real globalOffset rowIndex row = some source) :
    source = (globalOffset + rowIndex) % 2 ^ 64 := by
  unfold sourceTxIndex at h
  obtain ⟨-, h⟩ := Option.ite_none_left_eq_some.mp h
  obtain ⟨source', -, h⟩ := Option.bind_eq_some_iff.mp h
  obtain ⟨hplace, h⟩ := Option.ite_none_left_eq_some.mp h
  obtain ⟨-, h⟩ := Option.ite_none_left_eq_some.mp h
  obtain rfl := Option.some.inj h
  exact not_not.mp hplace

/-- A load that succeeds has read a header, and an offset if there is to be one. -/
theorem springLoadIOTSidecarWindow_some {fromRow : SidecarRow → Option SpringIOTTxFeature}
    {real : Bool} {file : DataFile} {indexOffset : Option JsonValue} {startTx maxTx : ℤ}
    {features : List SpringIOTTxFeature}
    (h : springLoadIOTSidecarWindow fromRow real file indexOffset startTx maxTx = some features) :
    0 ≤ startTx ∧ ∃ header records globalOffset, file.rows = header :: records ∧
      decide ("template_id" ∈ header) = real ∧
      globalOffsetOf real indexOffset = some globalOffset := by
  rw [springLoadIOTSidecarWindow] at h
  obtain ⟨hsign, h⟩ := Option.ite_none_left_eq_some.mp h
  refine ⟨by omega, ?_⟩
  cases hrows : file.rows with
  | nil =>
    rw [hrows] at h
    cases h
  | cons header records =>
    rw [hrows] at h
    obtain ⟨hheader, h⟩ := Option.ite_none_left_eq_some.mp h
    obtain ⟨globalOffset, hoffset, -⟩ := Option.bind_eq_some_iff.mp h
    exact ⟨header, records, globalOffset, rfl, not_not.mp hheader, hoffset⟩

theorem holdsWindow_of_load {fromRow : SidecarRow → Option SpringIOTTxFeature} {real : Bool}
    {file : DataFile} {indexOffset : Option JsonValue} {startTx maxTx : ℤ}
    {features : List SpringIOTTxFeature} (hmax : 0 < maxTx)
    (hint : startTx < 2 ^ 63 ∧ maxTx < 2 ^ 63)
    (h : springLoadIOTSidecarWindow fromRow real file indexOffset startTx maxTx = some features) :
    ∃ header records globalOffset, file.rows = header :: records ∧
      globalOffsetOf real indexOffset = some globalOffset ∧
      HoldsWindow fromRow real header records globalOffset startTx.toNat maxTx.toNat features := by
  obtain ⟨hstart, header, records, globalOffset, hrows, hheader, hoffset⟩ :=
    springLoadIOTSidecarWindow_some h
  refine ⟨header, records, globalOffset, hrows, hoffset, ?_⟩
  have hfile : file = ⟨header :: records, file.broken⟩ := by rw [← hrows]
  rw [hfile, springLoadIOTSidecarWindow_window hheader hoffset hstart hmax fun _ => by omega] at h
  obtain ⟨hlen, hcheck, hlength, hemit⟩ := window_eq_some_iff.mp h
  refine ⟨hlength, fun i hi => ?_⟩
  have hin : startTx.toNat + i < records.length := by omega
  have hrecord := List.getElem?_eq_getElem hin
  have hok := hcheck _ (by omega) _ hrecord
  obtain ⟨source, hsource⟩ := Option.isSome_iff_exists.mp hok
  have hfeature := hemit i hi _ hrecord
  refine ⟨_, hrecord, ?_, hfeature.symm, ?_⟩
  · rw [hsource, sourceTxIndex_eq_some hsource]
  · rw [hfeature, List.getElem?_eq_getElem (by omega)]
    rfl

/-- **Windows compose**: what Python loads up to `a` and from there up to `b` is what it
loads up to `b`; behind a skip in Go, the local number `i` is that of valid transaction
`startTx + i`, and the sidecar loader has under it the row of that place, as many rows as
were asked for. -/
theorem windows_compose (decimal : Char → Option ℕ) (limit : ℕ)
    (fromRow : SidecarRow → Option SpringIOTTxFeature) :
    (∀ (file : DataFile) (a b : ℤ), 0 < a → a < b →
      ∀ txs, loadTransactionsOf decimal limit file b 0 = some txs →
        ∃ first later, loadTransactionsOf decimal limit file a 0 = some first ∧
          loadTransactionsOf decimal limit file (b - a) a = some later ∧ first ++ later = txs) ∧
      (∀ (cfg : SendingConfig) (rows rest : List Row) (startTx : ℕ),
        skipValidTransactionsOf cfg.real rows startTx = some rest →
        ∀ i, (cfg.validTxs rest 0)[i]? =
          ((validRows cfg.real rows)[startTx + i]?).bind fun data => cfg.data2tx data i) ∧
      ∀ (real : Bool) (file : DataFile) (indexOffset : Option JsonValue) (startTx maxTx : ℤ),
        0 < maxTx → startTx < 2 ^ 63 ∧ maxTx < 2 ^ 63 →
        ∀ features,
          springLoadIOTSidecarWindow fromRow real file indexOffset startTx maxTx = some features →
          ∃ header records globalOffset, file.rows = header :: records ∧
            globalOffsetOf real indexOffset = some globalOffset ∧
            HoldsWindow fromRow real header records globalOffset startTx.toNat maxTx.toNat
              features :=
  ⟨fun _ _ _ ha hab _ h => loadTransactionsOf_append ha hab h,
    fun cfg _ _ _ h => validTxs_skip cfg h,
    fun _ _ _ _ _ hmax hint _ h => holdsWindow_of_load hmax hint h⟩

/-- A sidecar of three rows. -/
def threeScenes : DataFile := ⟨[["tx_index"], ["0"], ["1"], ["2"]], false⟩

/-- One transaction and two make three, and the last two rows of the sidecar are loaded. -/
theorem windows_compose_three :
    (∃ first later, loadTransactionsOf (fun _ => none) 0 threeRows 1 0 = some first ∧
      loadTransactionsOf (fun _ => none) 0 threeRows 2 1 = some later ∧
      (first ++ later).length = 3) ∧
      ∃ features, springLoadIOTSidecarWindow (fun _ => some .zero) false threeScenes none 1 2 =
        some features ∧ features.length = 2 := by
  obtain ⟨hpython, -, hsidecar⟩ := windows_compose (fun _ => none) 0 fun _ => some .zero
  constructor
  · have hloaded : ((loadTransactionsOf (fun _ => none) 0 threeRows 3 0).any
        fun txs => decide (txs.length = 3)) = true := by
      decide +kernel
    obtain ⟨txs, htxs, hlen⟩ := (Option.any_eq_true _ _).mp hloaded
    obtain ⟨first, later, hfirst, hlater, hall⟩ := hpython threeRows 1 3 (by decide) (by decide)
      txs htxs
    exact ⟨first, later, hfirst, hlater, by rw [hall]; exact of_decide_eq_true hlen⟩
  · obtain ⟨features, hfeatures⟩ := Option.isSome_iff_exists.mp (by decide +kernel :
      (springLoadIOTSidecarWindow (fun _ => some .zero) false threeScenes none 1 2).isSome = true)
    obtain ⟨_, _, _, -, -, hholds⟩ := hsidecar false threeScenes none 1 2 (by decide) (by decide)
      features hfeatures
    exact ⟨features, hfeatures, hholds.length⟩

end BlockEmulator
