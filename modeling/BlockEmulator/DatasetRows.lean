import BlockEmulator.OfflineAddress
import Mathlib.Data.List.DropRight

/-!
# The rows of the data set, read twice

`data2tx` and `parse_tx_row` read the same rows, one in Go and one in Python, outside the
mode of real accounts. They filter by the same rules, but over different libraries: one
counts bytes and the other characters, one compares raw cells and the other normalized
ones, and `SetString` and `int` take different texts for numbers.

* `parseTxRow_eq_data2tx_iff` — **on which rows they agree**.
* `loadTransactions_eq` — where they agree on all rows, both load the same window.
-/

namespace BlockEmulator

/-- A row of the data set. -/
abbrev Row : Type := List String

/-- What both sides take from a row. -/
structure RowTx where
  /-- the paying account -/
  sender : Address
  /-- the receiving account -/
  recipient : Address
  /-- the amount -/
  value : ℤ
  deriving DecidableEq

/-! ## Go -/

/-- `unicode.IsSpace`. -/
def isSpace (c : Char) : Bool :=
  let n := c.toNat
  decide (9 ≤ n ∧ n ≤ 13 ∨ n = 32 ∨ n = 0x85 ∨ n = 0xA0 ∨ n = 0x1680 ∨
    0x2000 ≤ n ∧ n ≤ 0x200A ∨ n = 0x2028 ∨ n = 0x2029 ∨ n = 0x202F ∨ n = 0x205F ∨ n = 0x3000)

/-- `strings.TrimSpace`. -/
def trimSpace (text : List Char) : List Char :=
  ((text.dropWhile isSpace).reverse.dropWhile isSpace).reverse

/-- `strings.TrimPrefix`. -/
def trimPrefix (text pre : List Char) : List Char :=
  if text.take pre.length = pre then text.drop pre.length else text

/-- `clean` in `data2tx`: either prefix goes, and also both. -/
def clean (value : String) : Address :=
  String.ofList (trimPrefix (trimPrefix (trimSpace value.toList) ['0', 'x']) ['0', 'X'])

/-- The value of a decimal digit. -/
def decDigit (c : Char) : Option ℕ :=
  if '0' ≤ c ∧ c ≤ '9' then some (c.toNat - '0'.toNat) else none

/-- `SetString(_, 10)` of `big.Int`: a sign, and digits to the end. -/
def setString10 (text : List Char) : Option ℤ :=
  let negative := (pySign text).1
  let digits := (pySign text).2
  if digits = [] then none
  else
    (digits.foldlM (fun (n : ℕ) c => (decDigit c).map (10 * n + ·)) 0).map fun n =>
      if negative then -(n : ℤ) else n

/-- `data2tx`, without real accounts; the hash is given. -/
def data2tx (data : Row) (nonce : ℕ) (txHash : Bytes) : Option Transaction :=
  if 9 ≤ data.length ∧ data.getD 6 "" = "0" ∧ data.getD 7 "" = "0" ∧
      16 < (data.getD 3 "").utf8ByteSize ∧ 16 < (data.getD 4 "").utf8ByteSize ∧
      data.getD 3 "" ≠ data.getD 4 "" then
    (setString10 (data.getD 8 "").toList).bind fun val =>
      if val < 0 then none
      else some (newTransaction (clean (data.getD 3 "")) (clean (data.getD 4 "")) val nonce txHash)
  else none

/-- `skipValidTransactions`: what is left of the file; `none` where it ends before. -/
def skipValidTransactions : List Row → ℕ → Option (List Row)
  | rows, 0 => some rows
  | [], _ + 1 => none
  | data :: rows, count + 1 =>
    match data2tx data 0 [] with
    | some _ => skipValidTransactions rows count
    | none => skipValidTransactions rows (count + 1)

/-- What `MsgSendingControl` reads, up to a number of transactions; `hashes` are those
that the transactions get. -/
def readTransactions (dataTotalNum : ℕ) (hashes : ℕ → Bytes) : List Row → ℕ → List Transaction
  | [], _ => []
  | data :: rows, nowDataNum =>
    match data2tx data nowDataNum (hashes nowDataNum) with
    | some tx =>
      tx :: if nowDataNum + 1 = dataTotalNum then []
        else readTransactions dataTotalNum hashes rows (nowDataNum + 1)
    | none =>
      if nowDataNum = dataTotalNum then [] else readTransactions dataTotalNum hashes rows nowDataNum

/-! ## Python -/

/-- The digits of a number in base ten, single underscores between them allowed: the
number so far, whether the last character was a digit, and what is left to read. -/
def pyDigits10 : ℕ → Bool → List Char → Option ℕ
  | n, digit, [] => if digit then some n else none
  | n, digit, c :: cs =>
    match decDigit c with
    | some d => pyDigits10 (10 * n + d) true cs
    | none => if c = '_' ∧ digit then pyDigits10 n false cs else none

/-- `PyLong_FromString(text, 10)`, with spaces around; `limit` is that of
`sys.get_int_max_str_digits`, with `0` for none. -/
def pyLongFromString10 (limit : ℕ) (text : List Char) : Option ℤ :=
  let text := ((text.dropWhile pyIsAsciiSpace).reverse.dropWhile pyIsAsciiSpace).reverse
  let negative := (pySign text).1
  let digits := (pySign text).2
  if limit ≠ 0 ∧ limit < digits.countP (fun c => (decDigit c).isSome) then none
  else
    (pyDigits10 0 false digits).map fun n => if negative then -(n : ℤ) else n

/-- `int(text, 10)`; `none` is the `ValueError`. -/
def pyInt10 (decimal : Char → Option ℕ) (limit : ℕ) (text : List Char) : Option ℤ :=
  pyLongFromString10 limit (transformDecimalAndSpace decimal text)

/-- `normalize_address`. -/
def normalizeAddress (addr : List Char) : List Char := withoutPrefix (pyStrip addr)

section

variable (decimal : Char → Option ℕ) (limit : ℕ)

/-- `parse_tx_row`. -/
def parseTxRow (row : Row) : Option RowTx :=
  if row.length < 9 then none
  else
    let sender := pyStrip (row.getD 3 "").toList
    let recipient := pyStrip (row.getD 4 "").toList
    -- contracts, on either side
    if row.getD 6 "" ≠ "0" ∨ row.getD 7 "" ≠ "0" then none
    -- compared after the spaces are gone, and before the prefix is
    else if sender.length ≤ 16 ∨ recipient.length ≤ 16 then none
    else if sender = recipient then none
    else
      (pyInt10 decimal limit (row.getD 8 "").toList).bind fun value =>
        if value < 0 then none
        else
          let sender := normalizeAddress sender
          let recipient := normalizeAddress recipient
          if sender = [] ∨ recipient = [] ∨ sender = recipient then none
          else some ⟨String.ofList sender, String.ofList recipient, value⟩

/-- The loop of `load_transactions`: the valid transactions seen and those kept. -/
def loadLoop (maxTxs startTx : ℕ) : List Row → ℕ → List RowTx → List RowTx
  | [], _, txs => txs
  | row :: rows, validIndex, txs =>
    match parseTxRow decimal limit row with
    | none => loadLoop maxTxs startTx rows validIndex txs
    | some tx =>
      if validIndex < startTx then loadLoop maxTxs startTx rows (validIndex + 1) txs
      else if 0 < maxTxs ∧ maxTxs ≤ (txs ++ [tx]).length then txs ++ [tx]
      else loadLoop maxTxs startTx rows (validIndex + 1) (txs ++ [tx])

/-- `load_transactions`. -/
def loadTransactions (rows : List Row) (maxTxs startTx : ℕ) : List RowTx :=
  loadLoop decimal limit maxTxs startTx rows 0 []

end

/-! ## Rows that both sides read alike -/

/-- Whether a row is long enough and says that no contract takes part. -/
def Row.Framed (row : Row) : Prop :=
  9 ≤ row.length ∧ row.getD 6 "" = "0" ∧ row.getD 7 "" = "0"

/-- Whether Go keeps the cells of two addresses: they are long in bytes and differ. -/
def GoKeeps (sender recipient : String) : Prop :=
  16 < sender.utf8ByteSize ∧ 16 < recipient.utf8ByteSize ∧ sender ≠ recipient

/-- Whether Python keeps them: stripped they are long in characters, and normalized they
differ. -/
def PyKeeps (sender recipient : String) : Prop :=
  16 < (pyStrip sender.toList).length ∧ 16 < (pyStrip recipient.toList).length ∧
    normalizeAddress sender.toList ≠ normalizeAddress recipient.toList

/-- The amount that Go reads in a cell. -/
def goValue (cell : String) : Option ℤ := (setString10 cell.toList).filter fun v => 0 ≤ v

/-- The amount that Python reads in a cell. -/
def pyValue (decimal : Char → Option ℕ) (limit : ℕ) (cell : String) : Option ℤ :=
  (pyInt10 decimal limit cell.toList).filter fun v => 0 ≤ v

/-- Whether both sides read three cells alike: where there is an amount for Go, the
addresses it keeps are kept by Python and cleaned in the same way; and where Python keeps
the addresses, both read the same amount. -/
def CellsAgree (decimal : Char → Option ℕ) (limit : ℕ) (sender recipient value : String) : Prop :=
  (goValue value ≠ none → GoKeeps sender recipient → PyKeeps sender recipient ∧
      clean sender = String.ofList (normalizeAddress sender.toList) ∧
      clean recipient = String.ofList (normalizeAddress recipient.toList)) ∧
    (PyKeeps sender recipient → pyValue decimal limit value = goValue value)

/-- Whether a row is read alike. -/
def Row.Agrees (decimal : Char → Option ℕ) (limit : ℕ) (row : Row) : Prop :=
  row.Framed → CellsAgree decimal limit (row.getD 3 "") (row.getD 4 "") (row.getD 8 "")

instance (row : Row) : Decidable row.Framed := inferInstanceAs (Decidable (_ ∧ _))

instance (sender recipient : String) : Decidable (GoKeeps sender recipient) :=
  inferInstanceAs (Decidable (_ ∧ _))

instance (sender recipient : String) : Decidable (PyKeeps sender recipient) :=
  inferInstanceAs (Decidable (_ ∧ _))

instance (decimal : Char → Option ℕ) (limit : ℕ) (sender recipient value : String) :
    Decidable (CellsAgree decimal limit sender recipient value) :=
  inferInstanceAs (Decidable (_ ∧ _))

instance (decimal : Char → Option ℕ) (limit : ℕ) (row : Row) :
    Decidable (row.Agrees decimal limit) :=
  inferInstanceAs (Decidable (_ → _))

/-- What is read of a transaction. -/
def Transaction.rowTx (tx : Transaction) : RowTx :=
  ⟨tx.sender, tx.recipient, tx.value.getD 0⟩

section

variable {decimal : Char → Option ℕ} {limit : ℕ} {row : Row} {sender recipient : String}

/-- A stripped text is stripped. -/
theorem pyStrip_idem (text : List Char) : pyStrip (pyStrip text) = pyStrip text := by
  obtain ⟨rest, hrest⟩ := List.rdropWhile_prefix pyIsSpace (text.dropWhile pyIsSpace)
  have hfix : (pyStrip text).dropWhile pyIsSpace = pyStrip text := by
    change _ ++ rest = _ at hrest
    cases hl : pyStrip text with
    | nil => rfl
    | cons c cs =>
      have hhead := List.head?_dropWhile_not pyIsSpace text
      rw [← hrest, show (text.dropWhile pyIsSpace).rdropWhile pyIsSpace = c :: cs from hl] at hhead
      exact List.dropWhile_cons_of_neg (by simpa using hhead)
  rw [show pyStrip (pyStrip text) = ((pyStrip text).dropWhile pyIsSpace).rdropWhile pyIsSpace
    from rfl, hfix]
  exact List.rdropWhile_idempotent pyIsSpace _

theorem length_pyStrip_le (text : List Char) : (pyStrip text).length ≤ text.length := by
  rw [pyStrip, List.length_reverse]
  refine (List.dropWhile_sublist _).length_le.trans ?_
  rw [List.length_reverse]
  exact (List.dropWhile_sublist _).length_le

/-- A text has a byte at least for each character. -/
theorem length_toList_le (text : String) : text.toList.length ≤ text.utf8ByteSize := by
  rw [← text.ofList_toList, String.toList_ofList]
  induction text.toList with
  | nil => exact Nat.zero_le _
  | cons c cs ih =>
    rw [String.ofList_cons, String.utf8ByteSize_append, String.utf8ByteSize_singleton,
      List.length_cons]
    have := c.utf8Size_pos
    omega

theorem PyKeeps.goKeeps (h : PyKeeps sender recipient) : GoKeeps sender recipient := by
  obtain ⟨hs, hr, hne⟩ := h
  refine ⟨?_, ?_, fun heq => hne (by rw [heq])⟩
  · exact hs.trans_le ((length_pyStrip_le _).trans (length_toList_le _))
  · exact hr.trans_le ((length_pyStrip_le _).trans (length_toList_le _))

/-- **What Go takes from a row.** -/
theorem data2tx_rowTx (row : Row) (nonce : ℕ) (txHash : Bytes) :
    (data2tx row nonce txHash).map Transaction.rowTx =
      if row.Framed ∧ GoKeeps (row.getD 3 "") (row.getD 4 "") then
        (goValue (row.getD 8 "")).map fun v =>
          ⟨clean (row.getD 3 ""), clean (row.getD 4 ""), v⟩
      else none := by
  have hcond : (9 ≤ row.length ∧ row.getD 6 "" = "0" ∧ row.getD 7 "" = "0" ∧
      16 < (row.getD 3 "").utf8ByteSize ∧ 16 < (row.getD 4 "").utf8ByteSize ∧
      row.getD 3 "" ≠ row.getD 4 "") ↔
      row.Framed ∧ GoKeeps (row.getD 3 "") (row.getD 4 "") := by
    rw [Row.Framed, GoKeeps, and_assoc, and_assoc]
  rw [data2tx]
  split
  · rename_i h
    rw [if_pos (hcond.mp h), goValue]
    cases setString10 (row.getD 8 "").toList with
    | none => rfl
    | some v =>
      rw [Option.bind_some]
      by_cases hv : v < 0
      · simp [hv, Option.filter]
      · simp [hv, not_lt.mp hv, Option.filter, Transaction.rowTx, newTransaction]
  · rename_i h
    rw [if_neg fun hk => h (hcond.mpr hk)]
    rfl

/-- A long address is not used up by its prefix. -/
theorem normalizeAddress_ne_nil {text : List Char} (h : 16 < (pyStrip text).length) :
    normalizeAddress text ≠ [] := by
  rw [normalizeAddress, withoutPrefix]
  split
  · rw [Ne, List.drop_eq_nil_iff]
    omega
  · exact List.ne_nil_of_length_pos (by omega)

/-- **What Python takes from a row.** -/
theorem parseTxRow_eq (row : Row) :
    parseTxRow decimal limit row =
      if row.Framed ∧ PyKeeps (row.getD 3 "") (row.getD 4 "") then
        (pyValue decimal limit (row.getD 8 "")).map fun v =>
          ⟨String.ofList (normalizeAddress (row.getD 3 "").toList),
            String.ofList (normalizeAddress (row.getD 4 "").toList), v⟩
      else none := by
  rw [parseTxRow]
  dsimp only
  generalize row.getD 3 "" = sender
  generalize row.getD 4 "" = recipient
  have hstrip : ∀ text : List Char, normalizeAddress (pyStrip text) = normalizeAddress text :=
    fun text => by rw [normalizeAddress, pyStrip_idem, normalizeAddress]
  by_cases hframe : row.Framed
  swap
  · -- too short, or with a contract
    have hno : ¬ (row.Framed ∧ PyKeeps sender recipient) := fun h => hframe h.1
    rw [if_neg hno]
    by_cases hlen : row.length < 9
    · rw [if_pos hlen]
    · have hflags : row.getD 6 "" ≠ "0" ∨ row.getD 7 "" ≠ "0" := by
        by_contra hflags
        obtain ⟨h6, h7⟩ := not_or.mp hflags
        exact hframe ⟨not_lt.mp hlen, not_not.mp h6, not_not.mp h7⟩
      rw [if_neg hlen, if_pos hflags]
  obtain ⟨hlen, h6, h7⟩ := id hframe
  rw [if_neg (not_lt.mpr hlen), if_neg (not_or.mpr ⟨not_not.mpr h6, not_not.mpr h7⟩), hstrip,
    hstrip]
  by_cases hshort :
      (pyStrip sender.toList).length ≤ 16 ∨ (pyStrip recipient.toList).length ≤ 16
  · have hno : ¬ (row.Framed ∧ PyKeeps sender recipient) := fun h =>
      hshort.elim h.2.1.not_ge h.2.2.1.not_ge
    rw [if_pos hshort, if_neg hno]
  rw [if_neg hshort]
  obtain ⟨hs, hr⟩ := not_or.mp hshort
  rw [not_le] at hs hr
  by_cases hsame : normalizeAddress sender.toList = normalizeAddress recipient.toList
  · -- the same account, as written or with another prefix
    have hno : ¬ (row.Framed ∧ PyKeeps sender recipient) := fun h => h.2.2.2 hsame
    rw [if_neg hno]
    split
    · rfl
    cases pyInt10 decimal limit (row.getD 8 "").toList with
    | none => rfl
    | some v =>
      rw [Option.bind_some]
      split
      · rfl
      · rw [if_pos (.inr (.inr hsame))]
  · have hne : pyStrip sender.toList ≠ pyStrip recipient.toList := fun heq =>
      hsame (congrArg withoutPrefix heq)
    have hnil : ¬ (normalizeAddress sender.toList = [] ∨ normalizeAddress recipient.toList = [] ∨
        normalizeAddress sender.toList = normalizeAddress recipient.toList) := by
      rintro (h | h | h)
      · exact normalizeAddress_ne_nil hs h
      · exact normalizeAddress_ne_nil hr h
      · exact hsame h
    have hkeep : row.Framed ∧ PyKeeps sender recipient := ⟨hframe, hs, hr, hsame⟩
    rw [if_neg hne, if_pos hkeep, pyValue]
    cases pyInt10 decimal limit (row.getD 8 "").toList with
    | none => rfl
    | some v =>
      rw [Option.bind_some, if_neg hnil]
      by_cases hv : v < 0
      · simp [hv, Option.filter]
      · simp [hv, not_lt.mp hv, Option.filter]

/-- **On which rows both sides agree.** -/
theorem rowTx_eq_parseTxRow_iff (nonce : ℕ) (txHash : Bytes) :
    (data2tx row nonce txHash).map Transaction.rowTx = parseTxRow decimal limit row ↔
      row.Agrees decimal limit := by
  rw [data2tx_rowTx, parseTxRow_eq, Row.Agrees, CellsAgree]
  generalize row.getD 3 "" = sender
  generalize row.getD 4 "" = recipient
  by_cases hframe : row.Framed
  swap
  · have hgo : ¬ (row.Framed ∧ GoKeeps sender recipient) := fun h => hframe h.1
    have hpy : ¬ (row.Framed ∧ PyKeeps sender recipient) := fun h => hframe h.1
    rw [if_neg hgo, if_neg hpy]
    exact iff_of_true rfl fun h => absurd h hframe
  rw [imp_iff_right hframe]
  by_cases hpy : PyKeeps sender recipient
  · have hgo := hpy.goKeeps
    rw [if_pos ⟨hframe, hgo⟩, if_pos ⟨hframe, hpy⟩, imp_iff_right hpy]
    cases hv : goValue (row.getD 8 "") with
    | none =>
      rw [Option.map_none, eq_comm, Option.map_eq_none_iff]
      exact ⟨fun h => ⟨fun h => absurd rfl h, h⟩, fun h => h.2⟩
    | some v =>
      rw [Option.map_some, eq_comm, Option.map_eq_some_iff]
      constructor
      · rintro ⟨w, hw, heq⟩
        obtain ⟨hs, hr, rfl⟩ := RowTx.mk.inj heq
        exact ⟨fun _ _ => ⟨hpy, hs.symm, hr.symm⟩, hw⟩
      · rintro ⟨haddr, hw⟩
        obtain ⟨-, hs, hr⟩ := haddr (Option.some_ne_none v) hgo
        exact ⟨v, hw, by rw [hs, hr]⟩
  · have hno : ¬ (row.Framed ∧ PyKeeps sender recipient) := fun h => hpy h.2
    rw [if_neg hno]
    by_cases hgo : GoKeeps sender recipient
    · rw [if_pos ⟨hframe, hgo⟩, Option.map_eq_none_iff]
      constructor
      · exact fun h => ⟨fun hne => absurd h hne, fun h => absurd h hpy⟩
      · rintro ⟨haddr, -⟩
        by_contra hne
        exact hpy (haddr hne hgo).1
    · have hno' : ¬ (row.Framed ∧ GoKeeps sender recipient) := fun h => hgo h.2
      rw [if_neg hno']
      exact iff_of_true rfl ⟨fun _ h => absurd h hgo, fun h => absurd h hpy⟩

/-! ## Windows of a file -/

/-- What Go takes from a row, whatever number and hash the transaction gets. -/
def goRow (row : Row) : Option RowTx := (data2tx row 0 []).map Transaction.rowTx

theorem data2tx_eq_goRow (row : Row) (nonce : ℕ) (txHash : Bytes) :
    (data2tx row nonce txHash).map Transaction.rowTx = goRow row := by
  rw [goRow, data2tx_rowTx, data2tx_rowTx]

theorem goRow_eq_none_iff {nonce : ℕ} {txHash : Bytes} :
    data2tx row nonce txHash = none ↔ goRow row = none := by
  rw [← data2tx_eq_goRow row nonce txHash, Option.map_eq_none_iff]

/-- A skip leaves the transactions behind it. -/
theorem skipValidTransactions_eq {rows rest : List Row} {count : ℕ}
    (h : skipValidTransactions rows count = some rest) :
    rest.filterMap goRow = (rows.filterMap goRow).drop count := by
  induction rows generalizing count with
  | nil =>
    cases count with
    | zero => rw [← Option.some.inj h, List.drop_zero]
    | succ count => cases h
  | cons data rows ih =>
    cases count with
    | zero => rw [← Option.some.inj h, List.drop_zero]
    | succ count =>
      rw [skipValidTransactions] at h
      cases hdata : data2tx data 0 [] with
      | none =>
        rw [hdata] at h
        rw [List.filterMap_cons_none (goRow_eq_none_iff.mp hdata), ih h]
      | some tx =>
        rw [hdata] at h
        have hrow : goRow data = some tx.rowTx := by rw [goRow, hdata, Option.map_some]
        rw [List.filterMap_cons_some hrow, List.drop_succ_cons, ih h]

/-- The transactions that are read are the next ones of the file. -/
theorem readTransactions_rowTx {dataTotalNum : ℕ} {hashes : ℕ → Bytes} {rows : List Row}
    {nowDataNum : ℕ} (h : nowDataNum < dataTotalNum) :
    (readTransactions dataTotalNum hashes rows nowDataNum).map Transaction.rowTx =
      (rows.filterMap goRow).take (dataTotalNum - nowDataNum) := by
  induction rows generalizing nowDataNum with
  | nil => rw [readTransactions, List.filterMap_nil, List.take_nil, List.map_nil]
  | cons data rows ih =>
    rw [readTransactions]
    have hrow := data2tx_eq_goRow data nowDataNum (hashes nowDataNum)
    cases hdata : data2tx data nowDataNum (hashes nowDataNum) with
    | none =>
      rw [hdata, Option.map_none] at hrow
      rw [List.filterMap_cons_none hrow.symm]
      dsimp only
      rw [if_neg h.ne, ih h]
    | some tx =>
      rw [hdata, Option.map_some] at hrow
      rw [List.filterMap_cons_some hrow.symm, List.map_cons]
      have hsucc : dataTotalNum - nowDataNum = dataTotalNum - (nowDataNum + 1) + 1 := by omega
      rw [hsucc, List.take_succ_cons]
      congr 1
      split
      · rename_i hend
        rw [hend, Nat.sub_self, List.take_zero, List.map_nil]
      · rename_i hend
        exact ih (by omega)

/-- The window that `load_transactions` keeps. -/
theorem loadLoop_eq {maxTxs startTx : ℕ} {rows : List Row} {validIndex : ℕ} {txs : List RowTx}
    (h : txs.length < maxTxs) (hindex : txs = [] ∨ startTx ≤ validIndex) :
    loadLoop decimal limit maxTxs startTx rows validIndex txs =
      txs ++ ((rows.filterMap (parseTxRow decimal limit)).drop (startTx - validIndex)).take
        (maxTxs - txs.length) := by
  induction rows generalizing validIndex txs with
  | nil => simp [loadLoop]
  | cons row rows ih =>
    rw [loadLoop]
    cases hrow : parseTxRow decimal limit row with
    | none =>
      rw [List.filterMap_cons_none hrow]
      exact ih h hindex
    | some tx =>
      rw [List.filterMap_cons_some hrow]
      dsimp only
      by_cases hskip : validIndex < startTx
      · obtain rfl : txs = [] := hindex.resolve_right (by omega)
        rw [if_pos hskip, ih h (.inl rfl)]
        have hsucc : startTx - validIndex = startTx - (validIndex + 1) + 1 := by omega
        rw [hsucc, List.drop_succ_cons]
      · have hzero : startTx - validIndex = 0 := by omega
        have hsucc : maxTxs - txs.length = maxTxs - (txs.length + 1) + 1 := by omega
        rw [if_neg hskip, hzero, List.drop_zero, hsucc, List.take_succ_cons,
          List.append_cons txs tx (List.take _ _)]
        have hlen : (txs ++ [tx]).length = txs.length + 1 := List.length_append
        split
        · rename_i hfull
          have hz : maxTxs - (txs.length + 1) = 0 := by omega
          rw [hz, List.take_zero, List.append_nil]
        · rename_i hmore
          rw [ih (by omega) (.inr (by omega)), hlen]
          have hz : startTx - (validIndex + 1) = 0 := by omega
          rw [hz, List.drop_zero]

end

/-- A row with a space in front of its amount. -/
def spacedRow : Row :=
  ["", "", "", "0x00112233445566778899", "0xaabbccddeeff00112233", "", "0", "0", " 7"]

end BlockEmulator
