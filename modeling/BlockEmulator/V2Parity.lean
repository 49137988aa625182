import BlockEmulator.FeatureParity
import BlockEmulator.V2Rows

/-!
# The two loaders of real accounts

Python checks the rows as it reads them and the scenes where it uses them, Go checks both as it
loads its window; so Go refuses scenes that `load_rows` lets through. What Python also uses, Go
loads, in the same order and with the same accounts and amounts.

* `data2txOf_of_checkChainRow` — a transaction that Python reads is read by Go, as the same.
* `goRowOk_of_pyRowOk` — a place that Python accepts is accepted by Go.
* `springRealFeatureFromRow_of_scene` — a scene that Python uses has a feature.
* `relay_hands_window` — a window of valid rows is handed on, under the accounts of its scenes.
* `v2_loaders_agree` — **the two loaders agree**, on what Python uses.
* `gateway_scene_refused` — not so on all that it reads.
-/

namespace BlockEmulator

open Windowing Fallible

/-! ## Numbers in base ten -/

/-- The number of a text of digits. -/
def decValue (text : List Char) : ℕ :=
  (text.foldlM (fun (n : ℕ) c => (decDigit c).map (10 * n + ·)) 0).getD 0

section

variable {text : List Char} {decimal : Char → Option ℕ} {limit : ℕ}

theorem foldlM_digits (h : ∀ c ∈ text, '0' ≤ c ∧ c ≤ '9') (n : ℕ) :
    (text.foldlM (fun (n : ℕ) c => (decDigit c).map (10 * n + ·)) n).isSome = true := by
  induction text generalizing n with
  | nil => rfl
  | cons c cs ih =>
    rw [List.foldlM_cons, decDigit, if_pos (h c List.mem_cons_self)]
    exact ih (fun c hc => h c (List.mem_cons_of_mem _ hc)) _

theorem foldlM_eq_decValue (h : ∀ c ∈ text, '0' ≤ c ∧ c ≤ '9') :
    text.foldlM (fun (n : ℕ) c => (decDigit c).map (10 * n + ·)) 0 = some (decValue text) := by
  obtain ⟨n, hn⟩ := Option.isSome_iff_exists.mp (foldlM_digits h 0)
  rw [decValue, hn, Option.getD_some]

/-- Without underscores the digits are those that `ParseUint` reads. -/
theorem pyDigits10_eq (h : ∀ c ∈ text, '0' ≤ c ∧ c ≤ '9') (n : ℕ) (digit : Bool)
    (hne : digit = true ∨ text ≠ []) :
    pyDigits10 n digit text =
      text.foldlM (fun (n : ℕ) c => (decDigit c).map (10 * n + ·)) n := by
  induction text generalizing n digit with
  | nil =>
    obtain rfl := hne.resolve_right (not_not.mpr rfl)
    rfl
  | cons c cs ih =>
    have hc := h c List.mem_cons_self
    rw [pyDigits10, List.foldlM_cons, decDigit, if_pos hc]
    exact ih (fun c hc => h c (List.mem_cons_of_mem _ hc)) _ true (.inl rfl)

/-- The digits are no sign. -/
theorem pySign_digits (h : ∀ c ∈ text, '0' ≤ c ∧ c ≤ '9') : pySign text = (false, text) := by
  unfold pySign
  split
  next => exact absurd (h '+' List.mem_cons_self).1 (by decide)
  next => exact absurd (h '-' List.mem_cons_self).1 (by decide)
  next => rfl

/-- A property that no digit has, no character of a text of digits has. -/
theorem eq_false_of_digits {p : Char → Bool}
    (hp : ∀ c : Char, 48 ≤ c.toNat → c.toNat ≤ 57 → p c = false)
    (h : ∀ c ∈ text, '0' ≤ c ∧ c ≤ '9') : ∀ c ∈ text, p c = false := fun c hc =>
  hp c (h c hc).1 (h c hc).2

theorem trimSpace_digits (h : ∀ c ∈ text, '0' ≤ c ∧ c ≤ '9') : trimSpace text = text := by
  refine strip_eq_self (eq_false_of_digits (fun c hlow hhigh => ?_) h)
  rw [isSpace]
  exact decide_eq_false (by omega)

theorem cleanCell_digits (h : ∀ c ∈ text, '0' ≤ c ∧ c ≤ '9') : springIOTCleanCell text = text := by
  rw [springIOTCleanCell, trimSpace_digits h]
  refine strip_eq_self (eq_false_of_digits (fun c hlow hhigh => ?_) h)
  refine beq_eq_false_iff_ne.mpr ?_
  rintro rfl
  exact absurd hlow (by decide)

/-- `int` on digits, unless they are too many. -/
theorem pyInt10_digits (h : ∀ c ∈ text, '0' ≤ c ∧ c ≤ '9') (hne : text ≠ []) {z : ℤ}
    (hz : pyInt10 decimal limit text = some z) : z = decValue text := by
  have hascii : (text.all fun c => c.toNat < 128) = true := by
    refine List.all_eq_true.mpr fun c hc => decide_eq_true ?_
    have hhigh : c.toNat ≤ 57 := (h c hc).2
    omega
  have hstrip : ((text.dropWhile pyIsAsciiSpace).reverse.dropWhile pyIsAsciiSpace).reverse = text := by
    refine strip_eq_self (eq_false_of_digits (fun c hlow hhigh => ?_) h)
    rw [pyIsAsciiSpace]
    exact decide_eq_false (by omega)
  rw [pyInt10, transformDecimalAndSpace, if_pos hascii, pyLongFromString10, hstrip] at hz
  obtain ⟨-, hz⟩ := Option.ite_none_left_eq_some.mp hz
  rw [pySign_digits h, pyDigits10_eq h 0 false (.inr hne), foldlM_eq_decValue h] at hz
  have hvalue : some (decValue text : ℤ) = some z := hz
  exact (Option.some.inj hvalue).symm

/-- `ParseUint` on digits. -/
theorem parseUint64_digits (h : ∀ c ∈ text, '0' ≤ c ∧ c ≤ '9') (hne : text ≠ [])
    (hlt : decValue text < 2 ^ 64) : parseUint64 text = some (decValue text) := by
  rw [parseUint64, if_neg hne, foldlM_eq_decValue h, Option.bind_some, if_pos hlt]

/-- `SetString` on digits. -/
theorem setString10_digits (h : ∀ c ∈ text, '0' ≤ c ∧ c ≤ '9') (hne : text ≠ []) :
    setString10 text = some (decValue text : ℤ) := by
  rw [setString10, pySign_digits h, if_neg hne, foldlM_eq_decValue h]
  rfl

/-- The pattern of an amount. -/
theorem springRealAmount_iff {cell : String} :
    springRealAmount cell = true ↔
      cell.toList ≠ [] ∧ ∀ c ∈ cell.toList, '0' ≤ c ∧ c ≤ '9' := by
  simp [springRealAmount]

end

/-! ## Accounts -/

section

variable {cell : String}

/-- A real account's cell: the prefix, and what is left of it. -/
theorem springRealAddress_iff :
    springRealAddress cell = true ↔ ∃ rest : List Char,
      cell.toList = '0' :: 'x' :: rest ∧ rest.length = 40 ∧ rest.all isLowerHex = true := by
  rw [springRealAddress, decide_eq_true_iff]
  constructor
  · rintro ⟨htake, hlen, hall⟩
    refine ⟨cell.toList.drop 2, ?_, by rw [List.length_drop, hlen], hall⟩
    rw [← List.take_append_drop 2 cell.toList, htake]
    rfl
  · rintro ⟨rest, hcell, hlen, hall⟩
    rw [hcell]
    exact ⟨rfl, by rw [List.length_cons, List.length_cons, hlen], hall⟩

/-- No character of it is a space. -/
theorem realAddress_chars {rest : List Char} (hall : rest.all isLowerHex = true) :
    ∀ c ∈ '0' :: 'x' :: rest, 48 ≤ c.toNat ∧ c.toNat ≤ 122 := by
  intro c hc
  rcases List.mem_cons.mp hc with rfl | hc
  · decide
  rcases List.mem_cons.mp hc with rfl | hc
  · decide
  have hhex := of_decide_eq_true (List.all_eq_true.mp hall c hc)
  rcases hhex with ⟨hlow, hhigh⟩ | ⟨hlow, hhigh⟩
  · have hlow : 48 ≤ c.toNat := hlow
    have hhigh : c.toNat ≤ 57 := hhigh
    omega
  · have hlow : 97 ≤ c.toNat := hlow
    have hhigh : c.toNat ≤ 102 := hhigh
    omega

/-- Both sides take the prefix off, and nothing else. -/
theorem realAddress_clean {rest : List Char} (hcell : cell.toList = '0' :: 'x' :: rest)
    (hall : rest.all isLowerHex = true) :
    clean cell = String.ofList rest ∧ normalizeAddress cell.toList = rest ∧
      trimPrefix cell.toList ['0', 'x'] = rest := by
  have hchars := realAddress_chars hall
  have htrim : trimSpace cell.toList = cell.toList := by
    rw [hcell]
    refine strip_eq_self fun c hc => ?_
    obtain ⟨hlow, hhigh⟩ := hchars c hc
    rw [isSpace]
    exact decide_eq_false (by omega)
  have hstrip : pyStrip cell.toList = cell.toList := by
    rw [hcell]
    refine strip_eq_self fun c hc => ?_
    obtain ⟨hlow, hhigh⟩ := hchars c hc
    rw [pyIsSpace]
    exact decide_eq_false (by omega)
  have hprefix : trimPrefix cell.toList ['0', 'x'] = rest := by
    rw [hcell]
    rfl
  -- a second prefix would have a capital letter
  have hsecond : trimPrefix rest ['0', 'X'] = rest := by
    rw [trimPrefix, if_neg]
    intro htake
    have hmem : 'X' ∈ rest := List.mem_of_mem_take (htake ▸ List.mem_cons_of_mem _ List.mem_cons_self)
    exact absurd (List.all_eq_true.mp hall 'X' hmem) (by decide)
  refine ⟨by rw [clean, htrim, hprefix, hsecond], ?_, hprefix⟩
  rw [normalizeAddress, hstrip, hcell, withoutPrefix]
  exact if_pos (.inl rfl)

end

/-! ## Transactions -/

section

variable {row : Row} {a b : String}

/-- **A transaction that Python reads is read by Go**, as the same. -/
theorem data2txOf_of_checkChainRow (h : checkChainRow row = some (a, b)) (nonce : ℕ)
    (txHash : Bytes) :
    ∃ tx, data2txOf true row nonce txHash = some tx ∧ tx.nonce = nonce ∧
      tx.sender = String.ofList (normalizeAddress a.toList) ∧
      tx.recipient = String.ofList (normalizeAddress b.toList) ∧
      tx.value = some (decValue (row.getD 8 "").toList : ℤ) := by
  obtain ⟨⟨hlen, h6, h7⟩, ⟨h3, h4⟩, ⟨hne, hamount⟩, rfl, rfl⟩ := checkChainRow_eq_some_iff.mp h
  obtain ⟨from', hfrom, hfromLen, hfromHex⟩ := springRealAddress_iff.mp h3
  obtain ⟨to', hto, htoLen, htoHex⟩ := springRealAddress_iff.mp h4
  obtain ⟨hcleanFrom, hnormalFrom, -⟩ := realAddress_clean hfrom hfromHex
  obtain ⟨hcleanTo, hnormalTo, -⟩ := realAddress_clean hto htoHex
  obtain ⟨hnil, hdigits⟩ := springRealAmount_iff.mp hamount
  have hlong : ∀ {cell : String} {rest : List Char}, cell.toList = '0' :: 'x' :: rest →
      rest.length = 40 → 16 < cell.utf8ByteSize := by
    intro cell rest hcell hrest
    have hle := length_toList_le cell
    rw [hcell, List.length_cons, List.length_cons, hrest] at hle
    omega
  have hchecks : ¬ (true = true ∧ (row.length ≠ 18 ∨ ¬ springRealAddress (row.getD 3 "") ∨
      ¬ springRealAddress (row.getD 4 "") ∨ ¬ springRealAmount (row.getD 8 ""))) := by
    rintro ⟨-, h | h | h | h⟩
    · exact h hlen
    · exact h h3
    · exact h h4
    · exact h hamount
  have hframe : 9 ≤ row.length ∧ row.getD 6 "" = "0" ∧ row.getD 7 "" = "0" ∧
      16 < (row.getD 3 "").utf8ByteSize ∧ 16 < (row.getD 4 "").utf8ByteSize ∧
      row.getD 3 "" ≠ row.getD 4 "" :=
    ⟨by omega, h6, h7, hlong hfrom hfromLen, hlong hto htoLen, hne⟩
  have hvalue : ¬ (decValue (row.getD 8 "").toList : ℤ) < 0 := not_lt.mpr (Int.natCast_nonneg _)
  refine ⟨newTransaction (clean (row.getD 3 "")) (clean (row.getD 4 ""))
    (decValue (row.getD 8 "").toList) nonce txHash, ?_, rfl, ?_, ?_, rfl⟩
  · rw [data2txOf, if_neg hchecks, data2tx, if_pos hframe, setString10_digits hdigits hnil,
      Option.bind_some, if_neg hvalue]
  · rw [hnormalFrom]
    exact hcleanFrom
  · rw [hnormalTo]
    exact hcleanTo

/-- Neither side reads the first cell of a transaction, where a mark would be. -/
theorem getElem?_withoutMark {rows : List Row} {j : ℕ} (h : (withoutMark rows)[j]? = some row) :
    ∃ row', rows[j]? = some row' ∧ checkChainRow row = checkChainRow row' ∧
      ∀ i, row.getD (i + 1) "" = row'.getD (i + 1) "" := by
  cases rows with
  | nil => cases h
  | cons first rows =>
    cases j with
    | zero =>
      obtain rfl := Option.some.inj h
      refine ⟨first, rfl, ?_⟩
      cases first with
      | nil => exact ⟨rfl, fun _ => rfl⟩
      | cons cell cells => exact ⟨rfl, fun _ => rfl⟩
    | succ j => exact ⟨row, h, rfl, fun _ => rfl⟩

end

/-! ## Scenes -/

/-- Whole numbers without a sign in the cells of the places, decimal numbers in those that are
measured. -/
def CanonicalCells (header : List String) (records : List Row) : Prop :=
  ∀ record ∈ records,
    (∀ name ∈ ["tx_index", "source_row"], ∀ cell ∈ cellOf header record name,
      springRealAmount cell = true) ∧
    ∀ name ∈ measuredFields, ∀ cell ∈ cellOf header record name, cell.toList ⊆ plainChars

instance (header : List String) (records : List Row) : Decidable (CanonicalCells header records) :=
  inferInstanceAs (Decidable (∀ _ ∈ _, _))

section

variable {decimal : Char → Option ℕ} {limit : ℕ} {header : List String} {record : Row}

theorem sidecarRow_of_cell {name cell : String} (h : cellOf header record name = some cell) :
    sidecarRow header record name = cell.toList := by
  rw [sidecarRow, h, Option.getD_some]

/-- A place that Python reads is a number of digits. -/
theorem decValue_of_pyCellInt {name : String}
    (hcell : ∀ cell, cellOf header record name = some cell → springRealAmount cell = true) {z : ℤ}
    (h : pyCellInt decimal limit header record name = some z) :
    (sidecarRow header record name ≠ [] ∧
        ∀ c ∈ sidecarRow header record name, '0' ≤ c ∧ c ≤ '9') ∧
      z = decValue (sidecarRow header record name) := by
  obtain ⟨cell, hlookup, hz⟩ := Option.bind_eq_some_iff.mp h
  obtain ⟨hne, hdigits⟩ := springRealAmount_iff.mp (hcell cell hlookup)
  rw [sidecarRow_of_cell hlookup]
  exact ⟨⟨hne, hdigits⟩, pyInt10_digits hdigits hne hz⟩

/-- A pair of rows that Python accepts. -/
theorem pyRowOk_iff {offset : ℤ} {index : ℕ} {raw : Row} :
    pyRowOk decimal limit header offset index (raw, record) = true ↔
      ∃ a b, checkChainRow raw = some (a, b) ∧
        pyCellInt decimal limit header record "tx_index" = some (offset + index) ∧
        pyCellInt decimal limit header record "source_row" = some (index + 1 : ℤ) ∧
        cellOf header record "from_address" = some a ∧ cellOf header record "to_address" = some b := by
  rw [pyRowOk]
  dsimp only
  cases checkChainRow raw with
  | none => simp
  | some ends =>
    obtain ⟨a, b⟩ := ends
    simp only [decide_eq_true_iff, Option.some.injEq, Prod.mk.injEq]
    constructor
    · exact fun h => ⟨a, b, ⟨rfl, rfl⟩, h⟩
    · rintro ⟨a', b', ⟨rfl, rfl⟩, h⟩
      exact h

/-- **A place that Python accepts is accepted by Go.** -/
theorem goRowOk_of_pyRowOk {offset : ℤ} {index : ℕ} {raw : Row} {records : List Row}
    (hcells : CanonicalCells header records) (hrecord : record ∈ records) (hoffset : 0 ≤ offset)
    (hfits : offset + index + 1 < 2 ^ 64)
    (h : pyRowOk decimal limit header offset index (raw, record) = true) :
    goRowOk header offset.toNat index record = true := by
  obtain ⟨a, b, -, hindex, hsource, -, -⟩ := pyRowOk_iff.mp h
  obtain ⟨hplaces, -⟩ := hcells record hrecord
  obtain ⟨⟨hne, hdigits⟩, hvalue⟩ := decValue_of_pyCellInt (hplaces _ (by simp)) hindex
  obtain ⟨⟨hne', hdigits'⟩, hvalue'⟩ := decValue_of_pyCellInt (hplaces _ (by simp)) hsource
  have hplace : decValue (sidecarRow header record "tx_index") = offset.toNat + index := by omega
  have hrow : decValue (sidecarRow header record "source_row") = index + 1 := by omega
  have hparse := parseUint64_digits hdigits hne (by omega)
  have hparse' := parseUint64_digits hdigits' hne' (by omega)
  rw [goRowOk, sourceTxIndex]
  dsimp only
  rw [trimSpace_digits hdigits, if_neg fun h => hne h.1, if_neg hne, cleanCell_digits hdigits, hparse,
    Option.bind_some, hplace, hparse', hrow, Nat.mod_eq_of_lt (by omega), if_neg (not_not.mpr rfl),
    if_neg fun h => h.2 rfl]
  rfl

/-- `ParseFloat` on a plain number that `float` reads. -/
theorem parseFloat_of_plain {text : List Char} (hplain : text ⊆ plainChars) {q : ℚ}
    (h : pyFloat decimal text = some (some q)) : parseFloat text = some (some q) := by
  have hbody : (pySign text).2 ⊆ plainChars := fun c hc => hplain (pySign_subset _ hc)
  have hspecial : ¬((pySign text).2.map Char.toLower ∈ infinityNames ∨
      text.map Char.toLower = nanName) := by
    rintro (h | h)
    · exact not_special_of_plain hbody (.inl h)
    · exact not_special_of_plain hplain (.inr h)
  rw [pyFloat_of_plain hplain] at h
  obtain ⟨r, hread, hr⟩ := Option.map_eq_some_iff.mp h
  obtain ⟨hlimit, hr⟩ := Option.ite_none_left_eq_some.mp hr
  rw [parseFloat]
  simp only [if_neg hspecial, if_neg (not_hexadecimal_of_plain hbody)]
  rw [hread, Option.bind_some, if_neg hlimit]
  exact congrArg some hr

/-- A field that Python accepts is accepted by Go. -/
theorem goFieldOk_of_pyFieldOk {name : String}
    (hplain : ∀ cell, cellOf header record name = some cell → cell.toList ⊆ plainChars)
    (h : pyFieldOk decimal (cellOf header record) name = true) :
    goFieldOk (sidecarRow header record) name = true := by
  unfold pyFieldOk at h
  split at h
  next value hvalue =>
    obtain ⟨cell, hcell, hread⟩ := Option.bind_eq_some_iff.mp hvalue
    rw [goFieldOk, sidecarRow_of_cell hcell, parseFloat_of_plain (hplain cell hcell) hread]
    exact h
  next => exact absurd h Bool.false_ne_true

variable {fromRow : SidecarRow → Option SpringIOTTxFeature}

/-- **A scene that Python uses has a feature**, under any number. -/
theorem loadedFeature_of_scene {offset : ℤ} {index : ℕ} {raw : Row} {records : List Row}
    (hcells : CanonicalCells header records) (hrecord : record ∈ records)
    (hpair : pyRowOk decimal limit header offset index (raw, record) = true) {reverse : Bool}
    (hscene : (sceneForLegacyFeatures decimal (cellOf header record) reverse).isSome = true)
    (localTxIndex : ℕ) :
    (loadedFeature fromRow true localTxIndex (sidecarRow header record)).isSome = true := by
  obtain ⟨a, b, hraw, -, -, hfrom, hto⟩ := pyRowOk_iff.mp hpair
  obtain ⟨-, ⟨ha, hb⟩, ⟨hne, -⟩, rfl, rfl⟩ := checkChainRow_eq_some_iff.mp hraw
  obtain ⟨hfields, hsender, hrecipient⟩ := sceneForLegacyFeatures_isSome_iff.mp hscene
  obtain ⟨-, hmeasured⟩ := hcells record hrecord
  -- the number of the row is in none of the cells that are checked
  have hother : ∀ name, name ≠ "tx_index" →
      Function.update (sidecarRow header record) "tx_index" (Nat.repr localTxIndex).toList name =
        sidecarRow header record name := fun name hname => Function.update_of_ne hname _ _
  have hfield : ∀ name ∈ measuredFields, name ≠ "tx_index" := by decide
  rw [loadedFeature_real, springRealFeatureFromRow_isSome_iff, hother _ (by decide),
    hother _ (by decide), hother _ (by decide), hother _ (by decide), sidecarRow_of_cell hfrom,
    sidecarRow_of_cell hto, sidecarRow_of_cell hsender, sidecarRow_of_cell hrecipient,
    String.ofList_toList, String.ofList_toList]
  refine ⟨⟨ha, hb, fun h => hne (String.toList_inj.mp h)⟩, fun name hname => ?_, rfl, rfl⟩
  rw [goFieldOk, hother name (hfield name hname), ← goFieldOk]
  exact goFieldOk_of_pyFieldOk (hmeasured name hname) (hfields name hname)

/-- The accounts of a feature are those of its scene. -/
theorem loadedFeature_accounts {localTxIndex : ℕ} {row : SidecarRow} {feature : SpringIOTTxFeature}
    (h : loadedFeature fromRow true localTxIndex row = some feature) :
    feature.realAccounts = true ∧
      feature.stateObject = String.ofList (trimPrefix (row "from_address") ['0', 'x']) ∧
      feature.anchorObject = String.ofList (trimPrefix (row "to_address") ['0', 'x']) := by
  rw [loadedFeature_real] at h
  unfold springRealFeatureFromRow at h
  obtain ⟨-, h⟩ := Option.ite_none_left_eq_some.mp h
  obtain ⟨-, h⟩ := Option.ite_none_left_eq_some.mp h
  obtain ⟨-, h⟩ := Option.ite_none_left_eq_some.mp h
  obtain rfl := Option.some.inj h
  have hother : ∀ name, name ≠ "tx_index" →
      Function.update row "tx_index" (Nat.repr localTxIndex).toList name = row name :=
    fun name hname => Function.update_of_ne hname _ _
  dsimp only
  rw [hother _ (by decide), hother _ (by decide)]
  exact ⟨rfl, rfl, rfl⟩

end

/-! ## Windows of transactions -/

section

/-- Valid rows are skipped one by one. -/
theorem skipValidTransactionsOf_eq {rows : List Row} {count : ℕ} (hlen : count ≤ rows.length)
    (h : ∀ j < count, ∀ row, rows[j]? = some row → data2txOf true row 0 [] ≠ none) :
    skipValidTransactionsOf true rows count = some (rows.drop count) := by
  induction rows generalizing count with
  | nil =>
    obtain rfl := Nat.le_zero.mp hlen
    rfl
  | cons row rows ih =>
    cases count with
    | zero => rfl
    | succ count =>
      obtain ⟨tx, htx⟩ := Option.ne_none_iff_exists'.mp (h 0 (Nat.succ_pos _) row rfl)
      rw [skipValidTransactionsOf, htx, List.drop_succ_cons]
      exact ih (Nat.le_of_succ_le_succ hlen) fun j hj row hrow =>
        h (j + 1) (Nat.succ_lt_succ hj) row hrow

/-- Valid rows give their transactions one by one. -/
theorem getElem?_validTxs {cfg : SendingConfig} {rows : List Row} (nowDataNum : ℕ) {k : ℕ}
    (h : ∀ j ≤ k, ∀ row, rows[j]? = some row → ∀ nonce, cfg.data2tx row nonce ≠ none) {row : Row}
    (hrow : rows[k]? = some row) :
    (cfg.validTxs rows nowDataNum)[k]? = cfg.data2tx row (nowDataNum + k) := by
  induction rows generalizing nowDataNum k with
  | nil => cases hrow
  | cons first rows ih =>
    obtain ⟨tx, htx⟩ :=
      Option.ne_none_iff_exists'.mp (h 0 (Nat.zero_le k) first rfl nowDataNum)
    rw [SendingConfig.validTxs, htx]
    cases k with
    | zero =>
      obtain rfl := Option.some.inj hrow
      exact htx.symm
    | succ k =>
      have hnext := ih (nowDataNum + 1) (fun j hj => h (j + 1) (Nat.succ_le_succ hj)) hrow
      rw [Nat.add_assoc, Nat.add_comm 1] at hnext
      exact hnext

end

/-! ## Both loaders -/

section

variable {log1p : ℚ → ℚ} {T : TextTables} {decimal : Char → Option ℕ}
  {limit : ℕ} {chain scene : DataFile} {header : List String} {records : List Row}
  {offset startTx maxTxs : ℤ} {pairs : List (Row × Row)}
  {txs : List (RowTx × (String → Option String) × (String → Option String))}

/-- What Python makes of a pair of rows. -/
theorem v2Tx_spec {raw record : Row}
    {tx : RowTx × (String → Option String) × (String → Option String)}
    (h : v2Tx decimal limit header (raw, record) = some tx) :
    sceneForLegacyFeatures decimal (cellOf header record) false = some tx.2.1 ∧
      sceneForLegacyFeatures decimal (cellOf header record) true = some tx.2.2 ∧
      ∃ value, pyInt10 decimal limit (raw.getD 8 "").toList = some value ∧
        tx.1 = ⟨String.ofList (normalizeAddress (raw.getD 3 "").toList),
          String.ofList (normalizeAddress (raw.getD 4 "").toList), value⟩ := by
  obtain ⟨forward, hforward, h⟩ := Option.bind_eq_some_iff.mp h
  obtain ⟨reverse, hreverse, h⟩ := Option.bind_eq_some_iff.mp h
  obtain ⟨value, hvalue, h⟩ := Option.bind_eq_some_iff.mp h
  obtain rfl := Option.some.inj h
  exact ⟨hforward, hreverse, value, hvalue, rfl⟩

/-- A pair of rows that Python reads: where it stands, and what it is. -/
theorem loadRows_pair (hscene : scene.rows = header :: records)
    (hmark : withoutMark scene.rows = scene.rows) (hstart : 0 ≤ startTx) (hmax : 0 < maxTxs)
    (hload : loadRows decimal limit chain.rows scene.rows (some (.int offset)) startTx maxTxs =
      some pairs) :
    0 ≤ offset ∧ pairs.length = maxTxs.toNat ∧
      startTx.toNat + maxTxs.toNat ≤ chain.rows.length ∧
      startTx.toNat + maxTxs.toNat ≤ records.length ∧
      (∀ j < startTx.toNat + maxTxs.toNat, ∀ raw record, chain.rows[j]? = some raw →
        records[j]? = some record → pyRowOk decimal limit header offset j (raw, record) = true) ∧
      ∀ k raw record, pairs[k]? = some (raw, record) →
        records[startTx.toNat + k]? = some record ∧ ∃ raw', chain.rows[startTx.toNat + k]? = some raw' ∧
          ∀ i, raw.getD (i + 1) "" = raw'.getD (i + 1) "" := by
  have hoffset : 0 ≤ offset := by
    unfold loadRows at hload
    obtain ⟨-, hload⟩ := Option.ite_none_left_eq_some.mp hload
    obtain ⟨offset', hint, hload⟩ := Option.bind_eq_some_iff.mp hload
    obtain rfl := Option.some.inj hint
    exact not_lt.mp (Option.ite_none_left_eq_some.mp hload).1
  rw [loadRows_eq hstart hmax hoffset, hmark, hscene, List.headD_cons, List.tail_cons,
    window_eq_some_iff] at hload
  obtain ⟨hlen, hcheck, hsize, hemit⟩ := hload
  rw [List.length_zip, length_withoutMark] at hlen
  refine ⟨hoffset, hsize, by omega, by omega, fun j hj raw record hraw hrecord => ?_,
    fun k raw record hpair => ?_⟩
  · have hj' : j < (withoutMark chain.rows).length := by
      rw [length_withoutMark]
      omega
    obtain ⟨raw', hraw', hsame, -⟩ :=
      getElem?_withoutMark (List.getElem?_eq_getElem hj')
    obtain rfl := Option.some.inj (hraw.symm.trans hraw')
    have hzip : ((withoutMark chain.rows).zip records)[j]? =
        some ((withoutMark chain.rows)[j], record) :=
      List.getElem?_zip_eq_some.mpr ⟨List.getElem?_eq_getElem hj', hrecord⟩
    have hok := hcheck j hj _ hzip
    rw [pyRowOk_iff] at hok ⊢
    rwa [hsame] at hok
  · have hk : k < maxTxs.toNat := hsize ▸ (List.getElem?_eq_some_iff.mp hpair).1
    have hzip : startTx.toNat + k < ((withoutMark chain.rows).zip records).length := by
      rw [List.length_zip, length_withoutMark]
      omega
    have hat := List.getElem?_eq_getElem hzip
    have hpair' := (hemit k hk _ hat).trans hpair
    rw [Option.some.inj hpair'] at hat
    obtain ⟨hraw, hrecord⟩ := List.getElem?_zip_eq_some.mp hat
    obtain ⟨raw', hraw', -, hcells⟩ := getElem?_withoutMark hraw
    exact ⟨hrecord, raw', hraw', hcells⟩

/-- The scenes that Python uses are loaded by Go, in the same order. -/
theorem sidecar_loaded (log1p : ℚ → ℚ) (T : TextTables) (hscene : scene.rows = header :: records)
    (hmark : withoutMark scene.rows = scene.rows) (hheader : "template_id" ∈ header)
    (hcells : CanonicalCells header records) (hstart : 0 ≤ startTx) (hmax : 0 < maxTxs)
    (hfits : offset + startTx + maxTxs < 2 ^ 64)
    (hload : loadRows decimal limit chain.rows scene.rows (some (.int offset)) startTx maxTxs =
      some pairs)
    (htxs : pairs.mapM (v2Tx decimal limit header) = some txs) :
    ∃ features, springLoadIOTSidecarWindow (springIOTFeatureFromRow log1p T) true scene
        (some (.int offset)) startTx maxTxs = some features ∧
      features.length = pairs.length ∧
      ∀ k raw record, pairs[k]? = some (raw, record) →
        loadedFeature (springIOTFeatureFromRow log1p T) true k (sidecarRow header record) =
          features[k]? := by
  obtain ⟨hoffset, hsize, hchain, hrecords, hcheck, hpairs⟩ :=
    loadRows_pair hscene hmark hstart hmax hload
  obtain ⟨htxsLen, htxsAt⟩ := mapM_eq_some_iff.mp htxs
  let emit := fun k record => loadedFeature (springIOTFeatureFromRow log1p T) true k
    (sidecarRow header record)
  have hexists : ∃ features, window (goRowOk header offset.toNat) emit startTx.toNat maxTxs.toNat
      records = some features := by
    refine exists_window hrecords (fun j hj record hrecord => ?_) fun k hk record hrecord => ?_
    · have hraw := List.getElem?_eq_getElem (hj.trans_le hchain)
      exact goRowOk_of_pyRowOk hcells (List.mem_of_getElem? hrecord) hoffset (by omega)
        (hcheck j hj _ record hraw hrecord)
    · have hraw := List.getElem?_eq_getElem ((Nat.add_lt_add_left hk _).trans_le hchain)
      obtain ⟨⟨raw, record'⟩, hpair⟩ : ∃ pair, pairs[k]? = some pair :=
        ⟨_, List.getElem?_eq_getElem (hsize ▸ hk)⟩
      have htx := List.getElem?_eq_getElem (htxsLen ▸ hsize ▸ hk)
      obtain ⟨hrecord', -⟩ := hpairs k raw record' hpair
      obtain rfl := Option.some.inj (hrecord.symm.trans hrecord')
      have hforward := (v2Tx_spec ((htxsAt k _ hpair).trans htx)).1
      exact loadedFeature_of_scene hcells (List.mem_of_getElem? hrecord)
        (hcheck _ (Nat.add_lt_add_left hk _) _ _ hraw hrecord)
        (Option.isSome_iff_exists.mpr ⟨_, hforward⟩) k
  obtain ⟨features, hfeatures⟩ := hexists
  obtain ⟨-, -, hlen, hat⟩ := window_eq_some_iff.mp hfeatures
  obtain ⟨rows, broken⟩ := scene
  obtain rfl : rows = header :: records := hscene
  refine ⟨features, ?_, hlen.trans hsize.symm, fun k raw record hpair => ?_⟩
  · rw [springLoadIOTSidecarWindow_eq hheader ⟨hoffset, by omega⟩ hstart hmax]
    exact hfeatures
  · have hk : k < maxTxs.toNat := hsize ▸ (List.getElem?_eq_some_iff.mp hpair).1
    exact hat k hk record (hpairs k raw record hpair).1

/-- A pair of rows in Go: its transaction, which is that of Python and has the accounts of its
feature. -/
theorem relay_pair {features : List SpringIOTTxFeature} {cfg : SendingConfig} {k : ℕ}
    {raw raw' record : Row} {index : ℕ} (hreal : cfg.real = true)
    (hrows : cfg.springIOTByTxIndex = fun n => features[n]?)
    (hcheck : pyRowOk decimal limit header offset index (raw', record) = true)
    (hsame : ∀ i, raw.getD (i + 1) "" = raw'.getD (i + 1) "")
    {tx : RowTx × (String → Option String) × (String → Option String)}
    (htx : v2Tx decimal limit header (raw, record) = some tx) {feature : SpringIOTTxFeature}
    (hfeature : loadedFeature (springIOTFeatureFromRow log1p T) true k (sidecarRow header record) =
      some feature) (hat : features[k]? = some feature) :
    ∃ goTx, cfg.data2tx raw' k = some goTx ∧ cfg.springApplyIOTTxIdentity goTx = some goTx ∧
      goTx.rowTx = tx.1 := by
  obtain ⟨a, b, hraw, -, -, hfrom, hto⟩ := pyRowOk_iff.mp hcheck
  obtain ⟨goTx, hgo, hnonce, hsender, hrecipient, hvalue⟩ :=
    data2txOf_of_checkChainRow hraw k (cfg.hashes k)
  obtain ⟨-, -, value, hint, htx⟩ := v2Tx_spec htx
  obtain ⟨haccounts, hstate, hanchor⟩ := loadedFeature_accounts hfeature
  obtain ⟨-, ⟨ha, hb⟩, ⟨-, hamount⟩, rfl, rfl⟩ := checkChainRow_eq_some_iff.mp hraw
  obtain ⟨hnil, hdigits⟩ := springRealAmount_iff.mp hamount
  obtain ⟨from', hfromCell, hfromLen, hfromHex⟩ := springRealAddress_iff.mp ha
  obtain ⟨to', htoCell, htoLen, htoHex⟩ := springRealAddress_iff.mp hb
  obtain ⟨-, hnormalFrom, hprefixFrom⟩ := realAddress_clean hfromCell hfromHex
  obtain ⟨-, hnormalTo, hprefixTo⟩ := realAddress_clean htoCell htoHex
  rw [sidecarRow_of_cell hfrom, hprefixFrom] at hstate
  rw [sidecarRow_of_cell hto, hprefixTo] at hanchor
  rw [hnormalFrom] at hsender
  rw [hnormalTo] at hrecipient
  have hnonempty : ∀ rest : List Char, rest.length = 40 → String.ofList rest ≠ "" := by
    intro rest hlen h
    have hnil : rest = [] := String.ofList_injective h
    rw [hnil] at hlen
    cases hlen
  refine ⟨goTx, ?_, ?_, ?_⟩
  · rw [SendingConfig.data2tx, hreal]
    exact hgo
  · have hlookup : cfg.springIOTByTxIndex goTx.nonce = some feature := by
      rw [hrows, hnonce]
      exact hat
    rw [SendingConfig.springApplyIOTTxIdentity, hlookup, Option.bind_some, hstate, hanchor,
      if_neg (not_or.mpr ⟨hnonempty _ hfromLen, hnonempty _ htoLen⟩), if_pos haccounts,
      if_pos ⟨hsender, hrecipient⟩]
  · rw [hsame 7] at hint
    rw [htx, hsame 2, hsame 3, hnormalFrom, hnormalTo, Transaction.rowTx, hsender, hrecipient, hvalue,
      Option.getD_some, pyInt10_digits hdigits hnil hint]

/-- **A window is handed on** where its rows are valid and their accounts are those of the
scenes. -/
theorem relay_hands_window {cfg : SendingConfig} {start total : ℕ} {loaded : List RowTx}
    (hreal : cfg.real = true) (htotal : cfg.dataTotalNum = total)
    (hwindow : cfg.datasetStartTx = start) (hpos : 0 < total) (hbatch : 0 < cfg.batchDataNum)
    (hlong : start + total ≤ chain.rows.length)
    (hvalid : ∀ j < start + total, ∀ raw, chain.rows[j]? = some raw →
      ∀ nonce txHash, data2txOf true raw nonce txHash ≠ none)
    (hlen : loaded.length = total)
    (hat : ∀ k < total, ∀ raw, chain.rows[start + k]? = some raw → ∃ tx,
      cfg.data2tx raw k = some tx ∧ cfg.springApplyIOTTxIdentity tx = some tx ∧
        loaded[k]? = some tx.rowTx) :
    (cfg.relayMsgSendingControl chain).ended = true ∧
      (cfg.relayMsgSendingControl chain).handed.map Transaction.rowTx = loaded := by
  let rows := chain.rows.drop start
  have hrow : ∀ {k : ℕ} {raw : Row}, rows[k]? = some raw → chain.rows[start + k]? = some raw :=
    fun hraw => by rwa [List.getElem?_drop] at hraw
  have hskip : skipValidTransactionsOf true chain.rows start = some rows :=
    skipValidTransactionsOf_eq (by omega) fun j hj raw hraw => hvalid j (by omega) raw hraw 0 []
  -- the valid transactions are those at the places of the window
  have htxs : ∀ k < total, ∃ tx, (cfg.validTxs rows 0)[k]? = some tx ∧
      cfg.springApplyIOTTxIdentity tx = some tx ∧ loaded[k]? = some tx.rowTx := by
    intro k hk
    have hraw : rows[k]? = some _ := List.getElem?_drop.trans
      (List.getElem?_eq_getElem ((Nat.add_lt_add_left hk start).trans_le hlong))
    obtain ⟨tx, htx, hidentity, hloaded⟩ := hat k hk _ (hrow hraw)
    refine ⟨tx, ?_, hidentity, hloaded⟩
    rw [getElem?_validTxs 0 (fun j hj row hrow' nonce => ?_) hraw, Nat.zero_add, htx]
    rw [SendingConfig.data2tx, hreal]
    exact hvalid _ (by omega) row (hrow hrow') nonce _
  have hread : cfg.Readable chain.broken rows 0 cfg.dataTotalNum := by
    rw [htotal]
    refine ⟨fun _ tx htx => ?_, ?_⟩
    · obtain ⟨k, hk⟩ := List.mem_iff_getElem?.mp htx
      rw [List.getElem?_take] at hk
      obtain ⟨hlt, hk⟩ := Option.ite_none_right_eq_some.mp hk
      obtain ⟨tx', htx', hidentity, -⟩ := htxs k hlt
      obtain rfl := Option.some.inj (hk.symm.trans htx')
      rw [hidentity]
      exact Option.some_ne_none _
    · rw [if_pos hreal, hreal]
      refine ⟨by rw [List.length_drop]; omega, fun raw hraw => ?_⟩
      obtain ⟨k, hk⟩ := List.mem_iff_getElem?.mp hraw
      rw [List.getElem?_take] at hk
      obtain ⟨hlt, hk⟩ := Option.ite_none_right_eq_some.mp hk
      exact hvalid _ (by omega) raw (hrow hk) 0 []
  obtain ⟨hended, hhanded⟩ :=
    (SendingConfig.relayLoop_hands_iff (htotal ▸ hpos) hbatch).mpr hread
  have hcontrol : cfg.relayMsgSendingControl chain = cfg.relayLoop chain.broken rows 0 [] := by
    rw [SendingConfig.relayMsgSendingControl, hreal, hwindow, hskip]
  rw [hcontrol]
  refine ⟨hended, ?_⟩
  rw [hhanded, htotal, List.map_map]
  apply List.ext_getElem?
  intro k
  rw [List.getElem?_map, List.getElem?_take]
  split
  next hk =>
    obtain ⟨tx, htx, hidentity, hloaded⟩ := htxs k hk
    have hsent : cfg.withIdentity tx = tx := by
      rw [SendingConfig.withIdentity, hidentity, Option.getD_some, ite_self]
    rw [htx, hloaded, Option.map_some, Function.comp_apply, hsent]
  next hk =>
    rw [Option.map_none, List.getElem?_eq_none (by omega)]

/-- **The two loaders agree**, on what Python uses: the same senders, recipients and amounts, in
the same order, and the features of the same scenes. -/
theorem v2_loaders_agree (log1p : ℚ → ℚ) (T : TextTables)
    (hscene : scene.rows = header :: records) (hmark : withoutMark scene.rows = scene.rows)
    (hheader : "template_id" ∈ header)
    (hcells : CanonicalCells header records) (hstart : 0 ≤ startTx) (hmax : 0 < maxTxs)
    (hfits : offset + startTx + maxTxs < 2 ^ 64)
    (hload : loadRows decimal limit chain.rows scene.rows (some (.int offset)) startTx maxTxs =
      some pairs)
    (htxs : pairs.mapM (v2Tx decimal limit header) = some txs) :
    ∃ features, springLoadIOTSidecarWindow (springIOTFeatureFromRow log1p T) true scene
        (some (.int offset)) startTx maxTxs = some features ∧
      features.length = pairs.length ∧
      (∀ k raw record, pairs[k]? = some (raw, record) →
        springRealFeatureFromRow (springIOTFeatureFromRow log1p T)
            (Function.update (sidecarRow header record) "tx_index" (Nat.repr k).toList) =
          features[k]?) ∧
      ∀ cfg : SendingConfig, cfg.real = true → cfg.dataTotalNum = maxTxs.toNat →
        cfg.datasetStartTx = startTx.toNat → cfg.springIOTByTxIndex = (fun n => features[n]?) →
        0 < cfg.batchDataNum →
        (cfg.relayMsgSendingControl chain).ended = true ∧
          (cfg.relayMsgSendingControl chain).handed.map Transaction.rowTx = txs.map Prod.fst := by
  obtain ⟨hoffset, hsize, hchain, hrecords, hcheck, hpairs⟩ :=
    loadRows_pair hscene hmark hstart hmax hload
  obtain ⟨features, hfeatures, hlen, hat⟩ :=
    sidecar_loaded log1p T hscene hmark hheader hcells hstart hmax hfits hload htxs
  refine ⟨features, hfeatures, hlen, fun k raw record hpair => ?_,
    fun cfg hreal htotal hwindow hrows hbatch => ?_⟩
  · rw [← loadedFeature_real]
    exact hat k raw record hpair
  obtain ⟨htxsLen, htxsAt⟩ := mapM_eq_some_iff.mp htxs
  -- every transaction up to the end of the window is valid
  have hvalid : ∀ j < startTx.toNat + maxTxs.toNat, ∀ raw, chain.rows[j]? = some raw →
      ∀ nonce txHash, data2txOf true raw nonce txHash ≠ none := by
    intro j hj raw hraw nonce txHash
    have hrecord := List.getElem?_eq_getElem (hj.trans_le hrecords)
    obtain ⟨a, b, hends, -⟩ := pyRowOk_iff.mp (hcheck j hj raw _ hraw hrecord)
    obtain ⟨tx, htx, -⟩ := data2txOf_of_checkChainRow hends nonce txHash
    exact Option.ne_none_iff_exists'.mpr ⟨tx, htx⟩
  refine relay_hands_window hreal htotal hwindow (by omega) hbatch hchain hvalid
    (by rw [List.length_map, htxsLen, hsize]) fun k hk raw' hraw' => ?_
  obtain ⟨⟨raw, record⟩, hpair⟩ : ∃ pair, pairs[k]? = some pair :=
    ⟨_, List.getElem?_eq_getElem (hsize ▸ hk)⟩
  obtain ⟨hrecord, raw'', hraw'', hsame⟩ := hpairs k raw record hpair
  obtain rfl := Option.some.inj (hraw'.symm.trans hraw'')
  have htx := List.getElem?_eq_getElem (htxsLen ▸ hsize ▸ hk)
  have hfeature := List.getElem?_eq_getElem (hlen ▸ hsize ▸ hk)
  obtain ⟨goTx, hgo, hidentity, heq⟩ := relay_pair hreal hrows
    (hcheck _ (Nat.add_lt_add_left hk _) raw' record hraw' hrecord) hsame
    ((htxsAt k _ hpair).trans htx) ((hat k raw record hpair).trans hfeature) hfeature
  refine ⟨goTx, hgo, hidentity, ?_⟩
  rw [List.getElem?_map, htx, Option.map_some, heq]

end

/-! ## One transaction -/

/-- `SCENE_FIELDS`. -/
def sceneFields : List String :=
  ["tx_index", "source_row", "from_address", "to_address", "from_profile_id", "to_profile_id",
    "from_site_id", "to_site_id", "from_actor_type", "to_actor_type", "template_id", "protocol",
    "srcNumPackets", "dstNumPackets", "srcPayloadSize", "dstPayloadSize", "flowDuration",
    "is_control_protocol", "distance_m", "link_quality_forward", "link_quality_reverse",
    "link_quality_rule"]

/-- A file with one transaction. -/
def oneChainRow : DataFile :=
  ⟨[["100", "0", "0xcd", "0x00000000000000000000000000000000000000a0",
    "0x00000000000000000000000000000000000000b1", "None", "0", "0", "5", "21000", "1", "21000", "None",
    "None", "None", "None", "0", "None"]], false⟩

/-- Its scene, at some place and from an account of some type. -/
def oneScene (txIndex actorType : String) : Row :=
  [txIndex, "1", "0x00000000000000000000000000000000000000a0",
    "0x00000000000000000000000000000000000000b1", "profile_00", "profile_01", "1", "2", actorType,
    "device", "profile_00:1", "tcp", "1", "2", "30", "40", "0.5", "0", "12.5", "0.9", "0.7",
    "measured_directed"]

/-- The supervisor that reads it, with the features of its scenes. -/
def oneRowConfig (features : List SpringIOTTxFeature) : SendingConfig where
  p := { SpringConfig.default 2 with springIOTIdentityMode := 2 }
  dataTotalNum := 1
  batchDataNum := 1
  datasetStartTx := 0
  springIOTByTxIndex n := features[n]?
  hashes _ := []
  due _ := false

/-- A scene between devices: both sides load one transaction. -/
theorem device_scene_loaded :
    ∃ features, springLoadIOTSidecarWindow (springIOTFeatureFromRow id asciiTables) true
        ⟨[sceneFields, oneScene "0" "device"], false⟩ (some (.int 0)) 0 1 = some features ∧
      ((oneRowConfig features).relayMsgSendingControl oneChainRow).handed.map Transaction.rowTx =
        [⟨"00000000000000000000000000000000000000a0",
          "00000000000000000000000000000000000000b1", 5⟩] := by
  have hread : ((loadRows (fun _ => none) 4300 oneChainRow.rows [sceneFields, oneScene "0" "device"]
      (some (.int 0)) 0 1).bind fun pairs =>
        (pairs.mapM (v2Tx (fun _ => none) 4300 sceneFields)).map fun txs => txs.map Prod.fst) =
      some [⟨"00000000000000000000000000000000000000a0",
        "00000000000000000000000000000000000000b1", 5⟩] := by
    decide +kernel
  obtain ⟨pairs, hload, hpairs⟩ := Option.bind_eq_some_iff.mp hread
  obtain ⟨txs, htxs, hvalues⟩ := Option.map_eq_some_iff.mp hpairs
  let scene : DataFile := ⟨[sceneFields, oneScene "0" "device"], false⟩
  have hscene : scene.rows = [sceneFields, oneScene "0" "device"] := rfl
  obtain ⟨features, hfeatures, -, -, hrun⟩ := v2_loaders_agree id asciiTables hscene
    (by decide +kernel) (by decide) (by decide +kernel) le_rfl Int.one_pos (by decide) hload htxs
  refine ⟨features, hfeatures, ?_⟩
  rw [← hvalues]
  exact (hrun (oneRowConfig features) rfl rfl rfl rfl Nat.one_pos).2

/-- **A scene of a gateway** is read by Python and refused by Go. -/
theorem gateway_scene_refused :
    ¬ ∀ (chain scene : DataFile) (header : List String) (records : List Row)
      (offset startTx maxTxs : ℤ) (pairs : List (Row × Row)), scene.rows = header :: records →
        (∀ record ∈ records, record.length = header.length) → CanonicalCells header records →
        0 ≤ startTx → 0 < maxTxs →
        loadRows (fun _ => none) 4300 chain.rows scene.rows (some (.int offset)) startTx maxTxs =
          some pairs →
        ∃ features, springLoadIOTSidecarWindow (springIOTFeatureFromRow id asciiTables) true scene
          (some (.int offset)) startTx maxTxs = some features := by
  intro h
  have hread : (loadRows (fun _ => none) 4300 oneChainRow.rows [sceneFields, oneScene "0" "gateway"]
      (some (.int 0)) 0 1).isSome = true := by decide +kernel
  have hrefused : springLoadIOTSidecarWindow (springIOTFeatureFromRow id asciiTables) true
      ⟨[sceneFields, oneScene "0" "gateway"], false⟩ (some (.int 0)) 0 1 = none := by
    decide +kernel
  obtain ⟨pairs, hpairs⟩ := Option.isSome_iff_exists.mp hread
  obtain ⟨features, hfeatures⟩ := h oneChainRow ⟨[sceneFields, oneScene "0" "gateway"], false⟩
    sceneFields [oneScene "0" "gateway"] 0 0 1 pairs rfl (by decide) (by decide +kernel) le_rfl
    Int.one_pos hpairs
  rw [hrefused] at hfeatures
  cases hfeatures

/-- Python reads a file from its offset on, and Go refuses it. -/
def OnlyPython (header : List String) (record : Row) (offset : ℤ) : Prop :=
  (loadRows (fun _ => none) 4300 oneChainRow.rows [header, record] (some (.int offset)) 0 1).isSome =
      true ∧
    springLoadIOTSidecarWindow (springIOTFeatureFromRow id asciiTables) true ⟨[header, record], false⟩
      (some (.int offset)) 0 1 = none

/-- So it is without the column of the templates, behind a byte order mark, and with a place
that is none of a `uint64`. -/
theorem only_python_reads :
    OnlyPython (sceneFields.set 10 "template") (oneScene "0" "device") 0 ∧
      OnlyPython (sceneFields.modifyHead (String.singleton (Char.ofNat 0xFEFF) ++ ·))
        (oneScene "0" "device") 0 ∧
      OnlyPython sceneFields (oneScene "18446744073709551616" "device") (2 ^ 64) := by
  unfold OnlyPython
  decide +kernel

end BlockEmulator
