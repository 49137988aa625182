import BlockEmulator.Batching
import BlockEmulator.DatasetRows
import BlockEmulator.SpringPlacement

/-!
# What the committees read and hand on (`MsgSendingControl`)

Each committee reads the data set row by row, holds the valid transactions until there is a
batch, and hands the batch on to be sent. The relay committee starts at a window, looks
transactions up in the scene rows, and hands on what it holds at the end. The other three
share one loop, two of them with partitions in it, and drop what they hold.

* `relayLoop_spec`, `sendingLoop_spec` — **the batches of each loop**.
* `sends_all_iff` — **the transactions asked for are handed on**, each once and in order,
  exactly where `SendsAll` says.
-/

namespace BlockEmulator

open Batching

/-! ## Rows -/

/-- `springRealAddress`, the pattern `^0x[0-9a-f]{40}$`. -/
def springRealAddress (cell : String) : Bool :=
  cell.toList.take 2 = ['0', 'x'] ∧ cell.toList.length = 42 ∧ (cell.toList.drop 2).all isLowerHex

/-- `springRealAmount`, the pattern `^[0-9]+$`. -/
def springRealAmount (cell : String) : Bool :=
  cell.toList ≠ [] ∧ cell.toList.all fun c => decide ('0' ≤ c ∧ c ≤ '9')

/-- `data2tx`, with or without real accounts. -/
def data2txOf (real : Bool) (data : Row) (nonce : ℕ) (txHash : Bytes) : Option Transaction :=
  if real = true ∧ (data.length ≠ 18 ∨ ¬ springRealAddress (data.getD 3 "") ∨
      ¬ springRealAddress (data.getD 4 "") ∨ ¬ springRealAmount (data.getD 8 "")) then none
  else data2tx data nonce txHash

/-- `skipValidTransactions`: what is left of the file; `none` where it fails, at the end of
the file or, with real accounts, at a row that is not valid. -/
def skipValidTransactionsOf (real : Bool) : List Row → ℕ → Option (List Row)
  | rows, 0 => some rows
  | [], _ + 1 => none
  | data :: rows, count + 1 =>
    match data2txOf real data 0 [] with
    | some _ => skipValidTransactionsOf real rows count
    | none => if real then none else skipValidTransactionsOf real rows (count + 1)

/-- A file, as the CSV reader gives it. -/
structure DataFile where
  /-- its rows, up to the first that cannot be read -/
  rows : List Row
  /-- whether there is such a row -/
  broken : Bool
  deriving DecidableEq

/-- The fields and parameters that `MsgSendingControl` reads. -/
structure SendingConfig where
  /-- `params` -/
  p : SpringConfig
  /-- `dataTotalNum` -/
  dataTotalNum : ℕ
  /-- `batchDataNum` -/
  batchDataNum : ℕ
  /-- `params.DatasetStartTx` -/
  datasetStartTx : ℕ
  /-- `springIOTByTxIndex` -/
  springIOTByTxIndex : SceneRows
  /-- the hashes that the transactions get -/
  hashes : ℕ → Bytes
  /-- whether the time for a partition is up after the n-th transaction -/
  due : ℕ → Bool

/-! ## What is handed on -/

/-- What `MsgSendingControl` does. -/
inductive SendingEvent where
  /-- a batch is handed on: to `txSending`, or to `dealTxByBroker` before it -/
  | batch (txs : List Transaction)
  /-- a partition is made, and the next epoch is waited for -/
  | partition
  deriving DecidableEq

/-- A run of `MsgSendingControl`, up to the last batch. -/
structure Sending where
  /-- what it does -/
  events : List SendingEvent
  /-- whether it ends, and does not panic -/
  ended : Bool

namespace Sending

/-- A panic. -/
def panicked : Sending := ⟨[], false⟩

/-- The loop is left. -/
def finished : Sending := ⟨[], true⟩

/-- Something is done before. -/
def after (e : SendingEvent) (s : Sending) : Sending := { s with events := e :: s.events }

/-- The batches. -/
def batches (s : Sending) : List (List Transaction) :=
  s.events.filterMap fun e => match e with
    | .batch txs => some txs
    | .partition => none

/-- The transactions that are handed on, in order. -/
def handed (s : Sending) : List Transaction := s.batches.flatten

@[simp] theorem ended_after (e : SendingEvent) (s : Sending) : (s.after e).ended = s.ended := rfl

@[simp] theorem batches_after_batch (txs : List Transaction) (s : Sending) :
    (s.after (.batch txs)).batches = txs :: s.batches := rfl

@[simp] theorem batches_after_partition (s : Sending) :
    (s.after .partition).batches = s.batches := rfl

@[simp] theorem batches_finished : finished.batches = [] := rfl

end Sending

namespace SendingConfig

variable (cfg : SendingConfig)

/-- `springRealAccountsEnabled`. -/
abbrev real : Bool := springRealAccountsEnabled cfg.p

/-- `data2tx` for the next transaction. -/
def data2tx (data : Row) (nowDataNum : ℕ) : Option Transaction :=
  data2txOf cfg.real data nowDataNum (cfg.hashes nowDataNum)

/-! ## The relay committee -/

/-- `springApplyIOTTxIdentity`: the transaction, with the accounts of its scene row; `none`
where it fails. -/
def springApplyIOTTxIdentity (tx : Transaction) : Option Transaction :=
  (cfg.springIOTByTxIndex tx.nonce).bind fun feature =>
    if feature.stateObject = "" ∨ feature.anchorObject = "" then none
    else if feature.realAccounts then
      if tx.sender = feature.stateObject ∧ tx.recipient = feature.anchorObject then some tx
      else none
    else some { tx with sender := feature.stateObject, recipient := feature.anchorObject }

/-- The transaction of a row, or that there is none; `none` is a panic. -/
def relayRow (data : Row) (nowDataNum : ℕ) : Option (Option Transaction) :=
  match cfg.data2tx data nowDataNum with
  | some tx =>
    if springIOTIdentityEnabled cfg.p then (cfg.springApplyIOTTxIdentity tx).map some
    else some (some tx)
  | none => if cfg.real then none else some none

/-- Behind the loop of the relay committee. -/
def relayEnd (nowDataNum : ℕ) (txlist : List Transaction) : Sending :=
  if cfg.real ∧ 0 < cfg.dataTotalNum ∧ nowDataNum ≠ cfg.dataTotalNum then .panicked
  else if 0 < txlist.length then .after (.batch txlist) .finished
  else .finished

/-- The loop of the relay committee. -/
def relayLoop (broken : Bool) : List Row → ℕ → List Transaction → Sending
  | [], nowDataNum, txlist => if broken then .panicked else cfg.relayEnd nowDataNum txlist
  | data :: rows, nowDataNum, txlist =>
    match cfg.relayRow data nowDataNum with
    | none => .panicked
    | some row =>
      let txlist := txlist ++ row.toList
      let nowDataNum := nowDataNum + row.toList.length
      -- also behind a row that is not valid
      if txlist.length = cfg.batchDataNum ∨ nowDataNum = cfg.dataTotalNum then
        .after (.batch txlist) <|
          if nowDataNum = cfg.dataTotalNum then cfg.relayEnd nowDataNum []
          else relayLoop broken rows nowDataNum []
      else relayLoop broken rows nowDataNum txlist

/-- `MsgSendingControl` of the relay committee. -/
def relayMsgSendingControl (file : DataFile) : Sending :=
  match skipValidTransactionsOf cfg.real file.rows cfg.datasetStartTx with
  | none => .panicked
  | some rows => cfg.relayLoop file.broken rows 0 []

/-! ## The other committees -/

/-- The partition in the loop, where there has been a batch and the time is up. -/
def pause (due : ℕ → Bool) (started : Bool) (nowDataNum : ℕ) (s : Sending) : Sending :=
  if 1 < cfg.p.shardNum ∧ started ∧ due nowDataNum then s.after .partition else s

/-- The loop that the other committees share. -/
def sendingLoop (due : ℕ → Bool) (broken : Bool) :
    List Row → ℕ → List Transaction → Bool → Sending
  -- what is held at the end is dropped
  | [], _, _, _ => if broken then .panicked else .finished
  | data :: rows, nowDataNum, txlist, started =>
    match cfg.data2tx data nowDataNum with
    | none => sendingLoop due broken rows nowDataNum txlist started
    | some tx =>
      let txlist := txlist ++ [tx]
      let nowDataNum := nowDataNum + 1
      if txlist.length = cfg.batchDataNum ∨ nowDataNum = cfg.dataTotalNum then
        .after (.batch txlist) <| cfg.pause due true nowDataNum <|
          if nowDataNum = cfg.dataTotalNum then .finished
          else sendingLoop due broken rows nowDataNum [] true
      else cfg.pause due started nowDataNum (sendingLoop due broken rows nowDataNum txlist started)

/-- `MsgSendingControl` of the broker committee. -/
def brokerMsgSendingControl (file : DataFile) : Sending :=
  cfg.sendingLoop (fun _ => false) file.broken file.rows 0 [] false

/-- `MsgSendingControl` of the CLPA committee. -/
def clpaMsgSendingControl (file : DataFile) : Sending :=
  cfg.sendingLoop cfg.due file.broken file.rows 0 [] false

/-- `MsgSendingControl` of the CLPA committee with brokers. -/
def clpaBrokerMsgSendingControl (file : DataFile) : Sending :=
  cfg.sendingLoop cfg.due file.broken file.rows 0 [] false

/-! ## What is asked for -/

/-- The valid transactions of some rows, numbered from a number on. -/
def validTxs : List Row → ℕ → List Transaction
  | [], _ => []
  | data :: rows, nowDataNum =>
    match cfg.data2tx data nowDataNum with
    | some tx => tx :: validTxs rows (nowDataNum + 1)
    | none => validTxs rows nowDataNum

/-- A transaction, as the relay committee hands it on. -/
def withIdentity (tx : Transaction) : Transaction :=
  if springIOTIdentityEnabled cfg.p then (cfg.springApplyIOTTxIdentity tx).getD tx else tx

/-- The relay committee can read all that is asked for, `k` transactions: each has its scene
row, and with real accounts there are `k` rows and these are valid; without, it meets no row
that cannot be read. -/
def Readable (broken : Bool) (rows : List Row) (nowDataNum k : ℕ) : Prop :=
  (springIOTIdentityEnabled cfg.p = true → ∀ tx ∈ (cfg.validTxs rows nowDataNum).take k,
      cfg.springApplyIOTTxIdentity tx ≠ none) ∧
    if cfg.real then k ≤ rows.length ∧ ∀ data ∈ rows.take k, data2txOf cfg.real data 0 [] ≠ none
    else broken = true → k ≤ (cfg.validTxs rows nowDataNum).length

variable {cfg} {broken : Bool} {rows : List Row} {nowDataNum : ℕ} {txlist : List Transaction}

/-! ## The loop of the other committees -/

@[simp] theorem ended_pause (due : ℕ → Bool) (started : Bool) (nowDataNum : ℕ) (s : Sending) :
    (cfg.pause due started nowDataNum s).ended = s.ended := by
  rw [pause]
  split
  · rfl
  · rfl

@[simp] theorem batches_pause (due : ℕ → Bool) (started : Bool) (nowDataNum : ℕ) (s : Sending) :
    (cfg.pause due started nowDataNum s).batches = s.batches := by
  rw [pause]
  split
  · rfl
  · rfl

/-- **The batches of the shared loop**: with all that is asked for there is a last batch,
full or not; without, full ones only. -/
theorem sendingLoop_spec (due : ℕ → Bool) (started : Bool) (hnow : nowDataNum < cfg.dataTotalNum)
    (hlen : txlist.length < cfg.batchDataNum) :
    ((cfg.sendingLoop due broken rows nowDataNum txlist started).ended = true ↔
      cfg.dataTotalNum - nowDataNum ≤ (cfg.validTxs rows nowDataNum).length ∨ broken = false) ∧
    (cfg.sendingLoop due broken rows nowDataNum txlist started).batches =
      if cfg.dataTotalNum - nowDataNum ≤ (cfg.validTxs rows nowDataNum).length then
        all cfg.batchDataNum txlist
          ((cfg.validTxs rows nowDataNum).take (cfg.dataTotalNum - nowDataNum))
      else full cfg.batchDataNum txlist (cfg.validTxs rows nowDataNum) := by
  induction rows generalizing nowDataNum txlist started with
  | nil =>
    have hmore : ¬ cfg.dataTotalNum - nowDataNum ≤ ([] : List Transaction).length := by
      rw [List.length_nil]
      omega
    rw [sendingLoop, validTxs, if_neg hmore, full]
    cases broken with
    | true => exact ⟨iff_of_false Bool.false_ne_true (not_or.mpr ⟨hmore, Bool.false_ne_true.symm⟩), rfl⟩
    | false => exact ⟨iff_of_true rfl (.inr rfl), rfl⟩
  | cons data rows ih =>
    rw [sendingLoop, validTxs]
    cases hrow : cfg.data2tx data nowDataNum with
    | none => exact ih started hnow hlen
    | some tx =>
      dsimp only
      by_cases hlast : nowDataNum + 1 = cfg.dataTotalNum
      · -- the total is reached
        have hone : cfg.dataTotalNum - nowDataNum = 1 := by omega
        have hle : 1 ≤ (tx :: cfg.validTxs rows (nowDataNum + 1)).length := by
          rw [List.length_cons]
          omega
        rw [if_pos (.inr hlast), if_pos hlast, hone, if_pos hle, List.take_succ_cons,
          List.take_zero, all_singleton]
        refine ⟨iff_of_true ?_ (.inl hle), ?_⟩
        · rw [Sending.ended_after, ended_pause]
          rfl
        · rw [Sending.batches_after_batch, batches_pause, Sending.batches_finished]
      · have hnext : nowDataNum + 1 < cfg.dataTotalNum := by omega
        have hsucc : cfg.dataTotalNum - nowDataNum = cfg.dataTotalNum - (nowDataNum + 1) + 1 := by
          omega
        rw [hsucc, List.length_cons, List.take_succ_cons, full]
        simp only [Nat.add_le_add_iff_right, List.length_append, List.length_singleton]
        by_cases hfull : txlist.length + 1 = cfg.batchDataNum
        · have hpos : ([] : List Transaction).length < cfg.batchDataNum := by
            rw [List.length_nil]
            omega
          obtain ⟨hended, hbatches⟩ := ih true hnext hpos
          rw [if_pos (.inl hfull), if_neg hlast, if_pos hfull, all_cons_of_eq hfull]
          refine ⟨?_, ?_⟩
          · rw [Sending.ended_after, ended_pause, hended]
          · rw [Sending.batches_after_batch, batches_pause, hbatches]
            split
            · rfl
            · rfl
        · have hlen' : (txlist ++ [tx]).length < cfg.batchDataNum := by
            rw [List.length_append, List.length_singleton]
            omega
          obtain ⟨hended, hbatches⟩ := ih started hnext hlen'
          rw [if_neg (not_or.mpr ⟨hfull, hlast⟩), if_neg hfull, all_cons_of_ne hfull]
          refine ⟨?_, ?_⟩
          · rw [ended_pause, hended]
          · rw [batches_pause, hbatches]

/-! ## The loop of the relay committee -/

/-- Whether a row is valid does not depend on the number and the hash. -/
theorem data2txOf_eq_none_iff {real : Bool} {data : Row} {nonce : ℕ} {txHash : Bytes} :
    data2txOf real data nonce txHash = none ↔ data2txOf real data 0 [] = none := by
  rw [data2txOf, data2txOf]
  split
  · exact Iff.rfl
  · exact goRow_eq_none_iff.trans goRow_eq_none_iff.symm

theorem readable_zero : cfg.Readable broken rows nowDataNum 0 := by
  refine ⟨fun _ tx htx => absurd htx List.not_mem_nil, ?_⟩
  split
  · exact ⟨Nat.zero_le _, fun data hdata => absurd hdata List.not_mem_nil⟩
  · exact fun _ => Nat.zero_le _

/-- A valid row must have its scene row. -/
theorem readable_cons_some {data : Row} {tx : Transaction} {k : ℕ}
    (hrow : cfg.data2tx data nowDataNum = some tx) :
    cfg.Readable broken (data :: rows) nowDataNum (k + 1) ↔
      (springIOTIdentityEnabled cfg.p = true → cfg.springApplyIOTTxIdentity tx ≠ none) ∧
        cfg.Readable broken rows (nowDataNum + 1) k := by
  have hvalid : data2txOf cfg.real data 0 [] ≠ none := by
    rw [Ne, ← data2txOf_eq_none_iff]
    exact Option.ne_none_iff_exists'.mpr ⟨tx, hrow⟩
  have htxs : cfg.validTxs (data :: rows) nowDataNum =
      tx :: cfg.validTxs rows (nowDataNum + 1) := by
    rw [validTxs, hrow]
  rw [Readable, Readable, htxs, List.take_succ_cons, List.take_succ_cons, List.length_cons,
    List.length_cons, List.forall_mem_cons, List.forall_mem_cons]
  simp only [Nat.add_le_add_iff_right]
  constructor
  · rintro ⟨hid, hread⟩
    refine ⟨fun h => (hid h).1, fun h => (hid h).2, ?_⟩
    split
    · rename_i hreal
      rw [if_pos hreal] at hread
      exact ⟨hread.1, hread.2.2⟩
    · rename_i hreal
      rwa [if_neg hreal] at hread
  · rintro ⟨htx, hid, hread⟩
    refine ⟨fun h => ⟨htx h, hid h⟩, ?_⟩
    split
    · rename_i hreal
      rw [if_pos hreal] at hread
      exact ⟨hread.1, hvalid, hread.2⟩
    · rename_i hreal
      rwa [if_neg hreal] at hread

/-- A row that is not valid is passed over, but not with real accounts. -/
theorem readable_cons_none {data : Row} {k : ℕ} (hrow : cfg.data2tx data nowDataNum = none) :
    cfg.Readable broken (data :: rows) nowDataNum (k + 1) ↔
      cfg.real = false ∧ cfg.Readable broken rows nowDataNum (k + 1) := by
  have htxs : cfg.validTxs (data :: rows) nowDataNum = cfg.validTxs rows nowDataNum := by
    rw [validTxs, hrow]
  rw [Readable, Readable, htxs, List.take_succ_cons, List.forall_mem_cons]
  cases hreal : cfg.real with
  | false => simp
  | true =>
    have hnot : data2txOf true data 0 [] = none := by
      rw [← hreal]
      exact data2txOf_eq_none_iff.mp hrow
    simp [hnot]

/-- Behind the loop, with nothing missing. -/
theorem relayEnd_total : cfg.relayEnd cfg.dataTotalNum [] = .finished := by
  rw [relayEnd, if_neg fun h => h.2.2 rfl]
  rfl

/-- A row that is not valid is passed over. -/
theorem relayLoop_cons_none {data : Row} (hnow : nowDataNum < cfg.dataTotalNum)
    (hlen : txlist.length < cfg.batchDataNum) (hreal : cfg.real = false)
    (hrow : cfg.data2tx data nowDataNum = none) :
    cfg.relayLoop broken (data :: rows) nowDataNum txlist =
      cfg.relayLoop broken rows nowDataNum txlist := by
  have hno : ¬ (txlist.length = cfg.batchDataNum ∨ nowDataNum = cfg.dataTotalNum) :=
    not_or.mpr ⟨hlen.ne, hnow.ne⟩
  have hrelay : cfg.relayRow data nowDataNum = some none := by
    simp only [relayRow, hrow, hreal, Bool.false_eq_true, if_false]
  simp only [relayLoop, hrelay, Option.toList_none, List.append_nil, List.length_nil, add_zero,
    if_neg hno]

/-- A valid row gives a transaction, or a panic where the scene row is missing. -/
theorem relayRow_of_some {data : Row} {tx : Transaction}
    (hrow : cfg.data2tx data nowDataNum = some tx) :
    cfg.relayRow data nowDataNum =
      if springIOTIdentityEnabled cfg.p = true → cfg.springApplyIOTTxIdentity tx ≠ none then
        some (some (cfg.withIdentity tx))
      else none := by
  simp only [relayRow, hrow, withIdentity]
  cases springIOTIdentityEnabled cfg.p with
  | false => simp
  | true => cases cfg.springApplyIOTTxIdentity tx <;> simp

/-- A valid row with its scene row is held, and may end a batch. -/
theorem relayLoop_cons_some {data : Row} {tx : Transaction}
    (hrow : cfg.relayRow data nowDataNum = some (some tx)) :
    cfg.relayLoop broken (data :: rows) nowDataNum txlist =
      if txlist.length + 1 = cfg.batchDataNum ∨ nowDataNum + 1 = cfg.dataTotalNum then
        .after (.batch (txlist ++ [tx])) <|
          if nowDataNum + 1 = cfg.dataTotalNum then cfg.relayEnd (nowDataNum + 1) []
          else cfg.relayLoop broken rows (nowDataNum + 1) []
      else cfg.relayLoop broken rows (nowDataNum + 1) (txlist ++ [tx]) := by
  simp only [relayLoop, hrow, Option.toList_some, List.length_append, List.length_singleton]
  exact if_congr Iff.rfl rfl rfl

/-- At the end of the file, with transactions missing: what is held is handed on, but not
with real accounts. -/
theorem relayLoop_nil (hnow : nowDataNum < cfg.dataTotalNum) :
    cfg.relayLoop broken [] nowDataNum txlist =
      if broken = false ∧ cfg.real = false then ⟨(last txlist).map .batch, true⟩
      else .panicked := by
  rw [relayLoop, relayEnd]
  cases broken with
  | true => rfl
  | false =>
    cases cfg.real with
    | true =>
      rw [if_neg Bool.false_ne_true, if_pos ⟨rfl, (Nat.zero_le _).trans_lt hnow, hnow.ne⟩]
      rfl
    | false =>
      have hread : false = false ∧ false = false := ⟨rfl, rfl⟩
      rw [if_neg Bool.false_ne_true, if_neg fun h => Bool.false_ne_true h.1, if_pos hread, last]
      by_cases hnil : txlist = []
      · rw [hnil]
        rfl
      · rw [if_pos (List.length_pos_iff.mpr hnil), if_neg hnil]
        rfl

/-- An empty file must be read without an error, and without real accounts. -/
theorem readable_nil {k : ℕ} :
    cfg.Readable broken [] nowDataNum (k + 1) ↔ broken = false ∧ cfg.real = false := by
  rw [Readable, validTxs, List.take_nil]
  cases cfg.real <;> cases broken <;> simp

/-- **The batches of the relay committee**: where all can be read, there is a last batch,
full or not. -/
theorem relayLoop_spec (hnow : nowDataNum < cfg.dataTotalNum)
    (hlen : txlist.length < cfg.batchDataNum) :
    ((cfg.relayLoop broken rows nowDataNum txlist).ended = true ↔
      cfg.Readable broken rows nowDataNum (cfg.dataTotalNum - nowDataNum)) ∧
    (cfg.Readable broken rows nowDataNum (cfg.dataTotalNum - nowDataNum) →
      (cfg.relayLoop broken rows nowDataNum txlist).batches =
        all cfg.batchDataNum txlist (((cfg.validTxs rows nowDataNum).take
          (cfg.dataTotalNum - nowDataNum)).map cfg.withIdentity)) := by
  obtain ⟨k, hk⟩ : ∃ k, cfg.dataTotalNum - nowDataNum = k + 1 :=
    ⟨cfg.dataTotalNum - nowDataNum - 1, by omega⟩
  induction rows generalizing nowDataNum txlist k with
  | nil =>
    rw [relayLoop_nil hnow, hk, readable_nil, validTxs, List.take_nil, List.map_nil, all_nil]
    by_cases hread : broken = false ∧ cfg.real = false
    · rw [if_pos hread]
      refine ⟨iff_of_true rfl hread, fun _ => ?_⟩
      rw [Sending.batches, List.filterMap_map]
      exact List.filterMap_some
    · rw [if_neg hread]
      exact ⟨iff_of_false Bool.false_ne_true hread, fun h => absurd h hread⟩
  | cons data rows ih =>
    rw [hk]
    cases hrow : cfg.data2tx data nowDataNum with
    | none =>
      have htxs : cfg.validTxs (data :: rows) nowDataNum = cfg.validTxs rows nowDataNum := by
        rw [validTxs, hrow]
      rw [readable_cons_none hrow, htxs]
      cases hreal : cfg.real with
      | true =>
        rw [relayLoop, relayRow, hrow, hreal]
        exact ⟨iff_of_false Bool.false_ne_true fun h => Bool.false_ne_true h.1.symm,
          fun h => absurd h.1.symm Bool.false_ne_true⟩
      | false =>
        have hnext := ih hnow hlen k hk
        rw [hk] at hnext
        rw [relayLoop_cons_none hnow hlen hreal hrow]
        exact ⟨hnext.1.trans (and_iff_right rfl).symm, fun h => hnext.2 h.2⟩
    | some tx =>
      have htxs : cfg.validTxs (data :: rows) nowDataNum =
          tx :: cfg.validTxs rows (nowDataNum + 1) := by
        rw [validTxs, hrow]
      rw [readable_cons_some hrow, htxs, List.take_succ_cons, List.map_cons]
      have hrelay := relayRow_of_some hrow
      by_cases hid : springIOTIdentityEnabled cfg.p = true → cfg.springApplyIOTTxIdentity tx ≠ none
      · rw [if_pos hid] at hrelay
        rw [relayLoop_cons_some hrelay]
        by_cases hlast : nowDataNum + 1 = cfg.dataTotalNum
        · -- the total is reached
          obtain rfl : k = 0 := by omega
          rw [if_pos (.inr hlast), if_pos hlast, hlast, relayEnd_total, List.take_zero,
            List.map_nil, all_singleton]
          exact ⟨iff_of_true rfl ⟨hid, readable_zero⟩, fun _ => rfl⟩
        · have hnext : nowDataNum + 1 < cfg.dataTotalNum := by omega
          have hsucc : cfg.dataTotalNum - (nowDataNum + 1) = k := by omega
          obtain ⟨j, hj⟩ : ∃ j, k = j + 1 := ⟨k - 1, by omega⟩
          by_cases hfull : txlist.length + 1 = cfg.batchDataNum
          · have hpos : ([] : List Transaction).length < cfg.batchDataNum := by
              rw [List.length_nil]
              omega
            obtain ⟨hended, hbatches⟩ := ih hnext hpos j (hsucc.trans hj)
            rw [hsucc] at hended hbatches
            rw [if_pos (.inl hfull), if_neg hlast, all_cons_of_eq hfull]
            refine ⟨?_, fun h => ?_⟩
            · rw [Sending.ended_after, hended]
              exact (and_iff_right hid).symm
            · rw [Sending.batches_after_batch, hbatches h.2]
          · have hlen' : (txlist ++ [cfg.withIdentity tx]).length < cfg.batchDataNum := by
              rw [List.length_append, List.length_singleton]
              omega
            obtain ⟨hended, hbatches⟩ := ih hnext hlen' j (hsucc.trans hj)
            rw [hsucc] at hended hbatches
            rw [if_neg (not_or.mpr ⟨hfull, hlast⟩), all_cons_of_ne hfull]
            exact ⟨hended.trans (and_iff_right hid).symm, fun h => hbatches h.2⟩
      · -- the scene row is missing
        rw [if_neg hid] at hrelay
        rw [relayLoop, hrelay]
        exact ⟨iff_of_false Bool.false_ne_true fun h => hid h.1, fun h => absurd h.1 hid⟩

/-! ## All that is asked for -/

/-- The loop of the relay committee hands on all where all can be read. -/
theorem relayLoop_hands_iff (htotal : 0 < cfg.dataTotalNum) (hbatch : 0 < cfg.batchDataNum) :
    ((cfg.relayLoop broken rows 0 []).ended = true ∧ (cfg.relayLoop broken rows 0 []).handed =
        ((cfg.validTxs rows 0).take cfg.dataTotalNum).map cfg.withIdentity) ↔
      cfg.Readable broken rows 0 cfg.dataTotalNum := by
  have hlen : ([] : List Transaction).length < cfg.batchDataNum := hbatch
  obtain ⟨hended, hbatches⟩ := @relayLoop_spec cfg broken rows 0 [] htotal hlen
  rw [Nat.sub_zero] at hended hbatches
  rw [hended]
  refine ⟨And.left, fun hread => ⟨hread, ?_⟩⟩
  rw [Sending.handed, hbatches hread, flatten_all, List.nil_append]

/-- The shared loop hands on all where there are enough, or where nothing is left. -/
theorem sendingLoop_hands_iff (due : ℕ → Bool) (htotal : 0 < cfg.dataTotalNum)
    (hbatch : 0 < cfg.batchDataNum) :
    ((cfg.sendingLoop due broken rows 0 [] false).ended = true ∧
        (cfg.sendingLoop due broken rows 0 [] false).handed =
          (cfg.validTxs rows 0).take cfg.dataTotalNum) ↔
      cfg.dataTotalNum ≤ (cfg.validTxs rows 0).length ∨
        broken = false ∧ cfg.batchDataNum ∣ (cfg.validTxs rows 0).length := by
  have hlen : ([] : List Transaction).length < cfg.batchDataNum := hbatch
  obtain ⟨hended, hbatches⟩ := @sendingLoop_spec cfg broken rows 0 [] due false htotal hlen
  rw [Nat.sub_zero] at hended hbatches
  rw [hended, Sending.handed, hbatches]
  by_cases henough : cfg.dataTotalNum ≤ (cfg.validTxs rows 0).length
  · rw [if_pos henough, flatten_all, List.nil_append]
    exact iff_of_true ⟨.inl henough, rfl⟩ (.inl henough)
  · rw [if_neg henough, List.take_of_length_le (not_le.mp henough).le, flatten_full_eq_iff hbatch,
      or_iff_right henough, or_iff_right henough]

end SendingConfig

/-- The committees. -/
inductive SendingCommittee where
  | relay
  | broker
  | clpa
  | clpaBroker
  deriving DecidableEq

namespace SendingConfig

variable (cfg : SendingConfig)

/-- `MsgSendingControl`. -/
def msgSendingControl : SendingCommittee → DataFile → Sending
  | .relay => cfg.relayMsgSendingControl
  | .broker => cfg.brokerMsgSendingControl
  | .clpa => cfg.clpaMsgSendingControl
  | .clpaBroker => cfg.clpaBrokerMsgSendingControl

/-- The rows in which a committee looks for transactions: all of the file, but for the relay
committee those of its window. -/
def window (file : DataFile) : SendingCommittee → Option (List Row)
  | .relay => skipValidTransactionsOf cfg.real file.rows cfg.datasetStartTx
  | _ => some file.rows

/-- A transaction, as a committee hands it on. -/
def asSent : SendingCommittee → Transaction → Transaction
  | .relay => cfg.withIdentity
  | _ => id

/-- All that is asked for is handed on, once and in order. -/
def HandsAll (kind : SendingCommittee) (file : DataFile) : Prop :=
  ∃ rows, cfg.window file kind = some rows ∧ (cfg.msgSendingControl kind file).ended = true ∧
    (cfg.msgSendingControl kind file).handed =
      ((cfg.validTxs rows 0).take cfg.dataTotalNum).map (cfg.asSent kind)

/-- The relay committee can read all. The others have enough transactions; or the batch size
divides how many there are. -/
def SendsAll (kind : SendingCommittee) (file : DataFile) : Prop :=
  ∃ rows, cfg.window file kind = some rows ∧
    if kind = .relay then cfg.Readable file.broken rows 0 cfg.dataTotalNum
    else cfg.dataTotalNum ≤ (cfg.validTxs rows 0).length ∨
      file.broken = false ∧ cfg.batchDataNum ∣ (cfg.validTxs rows 0).length

end SendingConfig

variable {cfg : SendingConfig}

/-- But for the relay committee, all share one loop. -/
theorem SendingConfig.shared_loop {kind : SendingCommittee} (hkind : kind ≠ .relay)
    (file : DataFile) :
    (∃ due, cfg.msgSendingControl kind file =
        cfg.sendingLoop due file.broken file.rows 0 [] false) ∧
      cfg.window file kind = some file.rows ∧ cfg.asSent kind = id := by
  cases kind with
  | relay => exact absurd rfl hkind
  | broker => exact ⟨⟨_, rfl⟩, rfl, rfl⟩
  | clpa => exact ⟨⟨_, rfl⟩, rfl, rfl⟩
  | clpaBroker => exact ⟨⟨_, rfl⟩, rfl, rfl⟩

/-- **All that is asked for is handed on** exactly where `SendsAll` says. -/
theorem sends_all_iff (kind : SendingCommittee) (file : DataFile) (htotal : 0 < cfg.dataTotalNum)
    (hbatch : 0 < cfg.batchDataNum) : cfg.HandsAll kind file ↔ cfg.SendsAll kind file := by
  refine exists_congr fun rows => and_congr_right fun hrows => ?_
  by_cases hkind : kind = .relay
  · subst hkind
    have hskip : skipValidTransactionsOf cfg.real file.rows cfg.datasetStartTx = some rows := hrows
    have hcontrol : cfg.msgSendingControl .relay file = cfg.relayLoop file.broken rows 0 [] := by
      rw [SendingConfig.msgSendingControl, SendingConfig.relayMsgSendingControl, hskip]
    rw [hcontrol, if_pos rfl]
    exact SendingConfig.relayLoop_hands_iff htotal hbatch
  · obtain ⟨⟨due, hcontrol⟩, hwindow, hsent⟩ := SendingConfig.shared_loop hkind file
    obtain rfl : file.rows = rows := Option.some.inj (hwindow.symm.trans hrows)
    rw [hcontrol, hsent, List.map_id, if_neg hkind]
    exact SendingConfig.sendingLoop_hands_iff due htotal hbatch

/-- A file with three transactions. -/
def threeRows : DataFile :=
  ⟨List.replicate 3
    ["", "", "", "0x00112233445566778899", "0xaabbccddeeff00112233", "", "0", "0", "7"], false⟩

/-- Five transactions are asked for. -/
def askFive (batchDataNum : ℕ) : SendingConfig where
  p := { SpringConfig.default 4 with springIOTMode := 0, springIOTIdentityMode := 0 }
  dataTotalNum := 5
  batchDataNum := batchDataNum
  datasetStartTx := 0
  springIOTByTxIndex _ := none
  hashes _ := []
  due _ := false

/-- In one batch of three, they are handed on. -/
theorem one_batch_sent : (askFive 3).HandsAll .clpa threeRows :=
  (sends_all_iff .clpa threeRows (by decide) (by decide)).mpr
    ⟨threeRows.rows, rfl, .inr ⟨rfl, by decide +kernel⟩⟩

/-- In batches of two, the third is dropped, but not by the relay committee. -/
theorem third_dropped :
    ¬ (askFive 2).HandsAll .broker threeRows ∧ ¬ (askFive 2).HandsAll .clpa threeRows ∧
      ¬ (askFive 2).HandsAll .clpaBroker threeRows ∧
      ((askFive 2).relayMsgSendingControl threeRows).handed.length = 3 := by
  have hlost {kind : SendingCommittee} (hkind : kind ≠ .relay)
      (h : ((askFive 2).msgSendingControl kind threeRows).handed.length ≠
        (((askFive 2).validTxs threeRows.rows 0).take 5).length) :
      ¬ (askFive 2).HandsAll kind threeRows := by
    rintro ⟨rows, hrows, -, hhanded⟩
    obtain ⟨-, hwindow, -⟩ := SendingConfig.shared_loop hkind threeRows
    obtain rfl := Option.some.inj (hwindow.symm.trans hrows)
    rw [hhanded, List.length_map] at h
    exact h rfl
  exact ⟨hlost nofun (by decide +kernel), hlost nofun (by decide +kernel),
    hlost nofun (by decide +kernel), by decide +kernel⟩

end BlockEmulator
