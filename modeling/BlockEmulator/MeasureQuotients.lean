import BlockEmulator.ConfirmLatency
import Mathlib.Algebra.Order.BigOperators.Group.List
import Mathlib.Data.List.TakeWhile
import Mathlib.Tactic.Positivity

/-!
# The quotients of the measures (`measure_CrossTxRate_*.go`, `measure_avgTPS_*.go`, `measure_TCL_*.go`)

The output methods divide by what was counted in an epoch, or by the time that it took, and by
the same of all epochs. An epoch that no block info was about has the counts and the times that
the slices were extended with.

* `ratios_finite_iff` — quotients by counts.
* `AvgTPSBroker.finite_iff`, `AvgTPSRelay.finite` — quotients by times.
* `measures_finite_iff` — **when all quotients of all modules have a divisor other than 0**.
-/

namespace BlockEmulator.Measure

open EpochSeries

/-- A quotient of floats; `none` is NaN or an infinite value. -/
def floatDiv (x y : ℚ) : Option ℚ := if y = 0 then none else some (x / y)

/-- What an output method reports: for each epoch, for all, and in the file. -/
structure Report where
  /-- The first result. -/
  perEpoch : List (Option ℚ)
  /-- The second result. -/
  total : Option ℚ
  /-- The quotients in the file. -/
  csv : List (Option ℚ)
  deriving DecidableEq

/-- No value is NaN or infinite. -/
def Report.Finite (report : Report) : Prop :=
  none ∉ report.perEpoch ∧ report.total ≠ none ∧ none ∉ report.csv

instance (report : Report) : Decidable report.Finite :=
  inferInstanceAs (Decidable (none ∉ report.perEpoch ∧ report.total ≠ none ∧ none ∉ report.csv))

variable {η : Type}

/-! ## The rate of cross transactions -/

/-- The entries of one epoch in the slices of `TestCrossTxRate_Relay` and
`TestCrossTxRate_Broker`. -/
structure CrossTxRecord where
  /-- `normalTxNum` -/
  normalTxNum : ℕ
  /-- `relay1TxNum` -/
  phase1TxNum : ℕ
  /-- `relay2TxNum` -/
  phase2TxNum : ℕ
  /-- `totTxNum` -/
  totTxNum : ℚ
  /-- `totCrossTxNum` -/
  totCrossTxNum : ℚ

namespace CrossTxRate

/-- The entries of an epoch that is new. -/
def fresh : CrossTxRecord := ⟨0, 0, 0, 0, 0⟩

/-- What a block adds. -/
def addBlock (phase1 phase2 : BlockInfoMsg η → List (Transaction η)) (b : BlockInfoMsg η)
    (r : CrossTxRecord) : CrossTxRecord :=
  { normalTxNum := r.normalTxNum + b.innerShardTxs.length
    phase1TxNum := r.phase1TxNum + (phase1 b).length
    phase2TxNum := r.phase2TxNum + (phase2 b).length
    totCrossTxNum := r.totCrossTxNum + (((phase1 b).length + (phase2 b).length : ℕ) : ℚ) / 2
    totTxNum := r.totTxNum +
      ((((phase1 b).length + (phase2 b).length : ℕ) : ℚ) / 2 + (b.innerShardTxs.length : ℚ)) }

/-- `UpdateMeasureRecord`, by the transactions of the phases. -/
def updateMeasureRecord (phase1 phase2 : BlockInfoMsg η → List (Transaction η))
    (epochs : List CrossTxRecord) (b : BlockInfoMsg η) : List CrossTxRecord :=
  if b.blockBodyLength = 0 then epochs
  else record fresh b.epoch (addBlock phase1 phase2 b) epochs

/-- `OutputRecord`. -/
def outputRecord (epochs : List CrossTxRecord) : Report :=
  let ratios := epochs.map fun r => floatDiv r.totCrossTxNum r.totTxNum
  let allTxNum := (epochs.map (·.totTxNum)).sum
  let allCtxNum := (epochs.map (·.totCrossTxNum)).sum
  { perEpoch := ratios ++ [some allTxNum, some allCtxNum]
    total := floatDiv allCtxNum allTxNum
    csv := ratios }

end CrossTxRate

/-- `TestCrossTxRate_Relay`, after block infos. -/
def crossTxRateRelay (blocks : List (BlockInfoMsg η)) : List CrossTxRecord :=
  blocks.foldl (CrossTxRate.updateMeasureRecord (·.relay1Txs) (·.relay2Txs)) []

/-- `TestCrossTxRate_Broker`, after block infos. -/
def crossTxRateBroker (blocks : List (BlockInfoMsg η)) : List CrossTxRecord :=
  blocks.foldl (CrossTxRate.updateMeasureRecord (·.broker1Txs) (·.broker2Txs)) []

/-! ## Latencies -/

/-- `OutputRecord` of the confirm-latency modules. -/
def tclOutputRecord (epochs : List LatencyRecord) : Report :=
  { perEpoch := epochs.map fun r => floatDiv r.totTxLatency r.txNum
    total := floatDiv (epochs.map (·.totTxLatency)).sum (epochs.map (·.txNum)).sum
    csv := [] }

/-! ## Transactions per second -/

/-- The entries of one epoch in the slices of `TestModule_avgTPS_Relay` and
`TestModule_avgTPS_Broker`. A time of 0 is the zero time. -/
structure TPSRecord where
  /-- `excutedTxNum` -/
  excutedTxNum : ℚ
  /-- `normalTxNum` -/
  normalTxNum : ℕ
  /-- `relay1TxNum` -/
  phase1TxNum : ℕ
  /-- `relay2TxNum` -/
  phase2TxNum : ℕ
  /-- `startTime` -/
  startTime : ℕ
  /-- `endTime` -/
  endTime : ℕ

/-- What the loop of an output method has. -/
structure TPSTotals where
  /-- `perEpochTPS` -/
  perEpochTPS : List (Option ℚ)
  /-- `totalTxNum` -/
  totalTxNum : ℚ
  /-- `eTime` -/
  eTime : ℕ
  /-- `lTime` -/
  lTime : ℕ

namespace AvgTPS

/-- The entries of an epoch that is new. -/
def fresh : TPSRecord := ⟨0, 0, 0, 0, 0, 0⟩

/-- What a block adds. -/
def addBlock (phase1 phase2 : BlockInfoMsg η → List (Transaction η)) (b : BlockInfoMsg η)
    (r : TPSRecord) : TPSRecord :=
  { excutedTxNum := r.excutedTxNum +
      ((((phase1 b).length + (phase2 b).length : ℕ) : ℚ) / 2 + (b.innerShardTxs.length : ℚ))
    normalTxNum := r.normalTxNum + b.innerShardTxs.length
    phase1TxNum := r.phase1TxNum + (phase1 b).length
    phase2TxNum := r.phase2TxNum + (phase2 b).length
    startTime := if r.startTime = 0 ∨ b.proposeTime < r.startTime then b.proposeTime
      else r.startTime
    endTime := if r.endTime = 0 ∨ r.endTime < b.commitTime then b.commitTime else r.endTime }

/-- `UpdateMeasureRecord`, by the transactions of the phases. -/
def updateMeasureRecord (phase1 phase2 : BlockInfoMsg η → List (Transaction η))
    (epochs : List TPSRecord) (b : BlockInfoMsg η) : List TPSRecord :=
  if b.blockBodyLength = 0 then epochs
  else record fresh b.epoch (addBlock phase1 phase2 b) epochs

end AvgTPS

/-- `TestModule_avgTPS_Relay`, after block infos. -/
def avgTPSRelay (blocks : List (BlockInfoMsg η)) : List TPSRecord :=
  blocks.foldl (AvgTPS.updateMeasureRecord (·.relay1Txs) (·.relay2Txs)) []

/-- `TestModule_avgTPS_Broker`, after block infos. -/
def avgTPSBroker (blocks : List (BlockInfoMsg η)) : List TPSRecord :=
  blocks.foldl (AvgTPS.updateMeasureRecord (·.broker1Txs) (·.broker2Txs)) []

/-- `timeGap` -/
def TPSRecord.timeGap (r : TPSRecord) : ℚ := seconds (durationSub r.endTime r.startTime)

namespace AvgTPSRelay

/-- The loop of `calculateTPS`; an epoch that is passed over keeps its 0. -/
def round (t : TPSTotals) (r : TPSRecord) : TPSTotals :=
  if r.excutedTxNum ≤ 0 ∨ r.startTime = 0 ∨ r.endTime = 0 then
    { t with perEpochTPS := t.perEpochTPS ++ [some 0] }
  else if r.timeGap ≤ 0 then { t with perEpochTPS := t.perEpochTPS ++ [some 0] }
  else
    { perEpochTPS := t.perEpochTPS ++ [floatDiv r.excutedTxNum r.timeGap]
      totalTxNum := t.totalTxNum + r.excutedTxNum
      eTime := if t.eTime = 0 ∨ r.startTime < t.eTime then r.startTime else t.eTime
      lTime := if t.lTime < r.endTime then r.endTime else t.lTime }

/-- `calculateTPS`. -/
def calculateTPS (epochs : List TPSRecord) : List (Option ℚ) × Option ℚ :=
  let t := epochs.foldl round ⟨[], 0, 0, 0⟩
  (t.perEpochTPS,
    if t.eTime ≠ 0 ∧ t.eTime < t.lTime then
      floatDiv t.totalTxNum (seconds (durationSub t.lTime t.eTime))
    else some 0)

/-- `OutputRecord`; the file has the quotients of the epochs. -/
def outputRecord (epochs : List TPSRecord) : Report :=
  ⟨(calculateTPS epochs).1, (calculateTPS epochs).2, (calculateTPS epochs).1⟩

end AvgTPSRelay

namespace AvgTPSBroker

/-- The loop of `OutputRecord`. -/
def round (t : TPSTotals) (r : TPSRecord) : TPSTotals :=
  { perEpochTPS := t.perEpochTPS ++ [floatDiv r.excutedTxNum r.timeGap]
    totalTxNum := t.totalTxNum + r.excutedTxNum
    eTime := if r.startTime < t.eTime then r.startTime else t.eTime
    lTime := if t.lTime < r.endTime then r.endTime else t.lTime }

/-- `OutputRecord` at a time. -/
def outputRecord (now : ℕ) (epochs : List TPSRecord) : Report :=
  let t := epochs.foldl round ⟨[], 0, now, 0⟩
  { perEpoch := t.perEpochTPS
    total := floatDiv t.totalTxNum (seconds (durationSub t.lTime t.eTime))
    csv := epochs.map fun r => floatDiv r.excutedTxNum r.timeGap }

end AvgTPSBroker

/-! ## Quotients by counts -/

theorem floatDiv_ne_none {x y : ℚ} : floatDiv x y ≠ none ↔ y ≠ 0 := by
  rw [floatDiv]
  split <;> simp_all

theorem none_notMem_map {α : Type} {f : α → Option ℚ} {l : List α} :
    none ∉ l.map f ↔ ∀ x ∈ l, f x ≠ none := by
  simp

/-- The modules pass over empty blocks. -/
theorem foldl_reported {ε : Type} {fresh : ε} {step : BlockInfoMsg η → ε → ε}
    (blocks : List (BlockInfoMsg η)) :
    blocks.foldl (fun epochs b =>
        if b.blockBodyLength = 0 then epochs else record fresh b.epoch (step b) epochs) [] =
      run BlockInfoMsg.epoch step fresh (reported blocks) := by
  rw [run, reported, List.foldl_filter]
  congr 1
  funext epochs b
  by_cases hempty : b.blockBodyLength = 0 <;> simp [hempty]

section Counts

variable (phase1 phase2 : BlockInfoMsg η → List (Transaction η))

/-- The transactions of a block, those of a phase by half. -/
def txCount (b : BlockInfoMsg η) : ℚ :=
  (((phase1 b).length + (phase2 b).length : ℕ) : ℚ) / 2 + (b.innerShardTxs.length : ℚ)

/-- There is a block that is not skipped, and up to the last epoch of such blocks each epoch has
one with transactions. -/
def EveryEpochCounts (blocks : List (BlockInfoMsg η)) : Prop :=
  reported blocks ≠ [] ∧ ∀ e, (∃ b ∈ reported blocks, e ≤ b.epoch) →
    ∃ b ∈ reported blocks, b.epoch = e ∧ (b.innerShardTxs ≠ [] ∨ phase1 b ≠ [] ∨ phase2 b ≠ [])

variable {phase1 phase2}

theorem txCount_nonneg (b : BlockInfoMsg η) : 0 ≤ txCount phase1 phase2 b := by
  rw [txCount]
  positivity

theorem txCount_eq_zero {b : BlockInfoMsg η} : txCount phase1 phase2 b = 0 ↔
    b.innerShardTxs = [] ∧ phase1 b = [] ∧ phase2 b = [] := by
  have hhalf : (0 : ℚ) ≤ (((phase1 b).length + (phase2 b).length : ℕ) : ℚ) / 2 := by positivity
  rw [txCount, add_eq_zero_iff_of_nonneg hhalf (Nat.cast_nonneg _), div_eq_zero_iff,
    Nat.cast_eq_zero, Nat.cast_eq_zero, Nat.add_eq_zero_iff, List.length_eq_zero_iff,
    List.length_eq_zero_iff, List.length_eq_zero_iff]
  refine ⟨fun h => ⟨h.2, h.1.resolve_right two_ne_zero⟩, fun h => ⟨.inl h.2, h.1⟩⟩

/-- What the epochs count. -/
theorem counts_eq (l : List (BlockInfoMsg η)) :
    run BlockInfoMsg.epoch (fun b x => x + txCount phase1 phase2 b) 0 l =
      upTo (top BlockInfoMsg.epoch l) fun e =>
        ((l.filter fun b => b.epoch = e).map (txCount phase1 phase2)).sum := by
  rw [run_eq]
  refine upTo_inj.mpr fun e _ => ?_
  rw [entry, List.sum_eq_foldl, List.foldl_map]

/-- An epoch counts something when one of its blocks has transactions. -/
theorem sum_txCount_ne_zero {l : List (BlockInfoMsg η)} :
    (l.map (txCount phase1 phase2)).sum ≠ 0 ↔
      ∃ b ∈ l, b.innerShardTxs ≠ [] ∨ phase1 b ≠ [] ∨ phase2 b ≠ [] := by
  have hnonneg : ∀ x ∈ l.map (txCount phase1 phase2), 0 ≤ x := by
    rintro x hx
    obtain ⟨b, -, rfl⟩ := List.mem_map.mp hx
    exact txCount_nonneg b
  constructor
  · intro hsum
    by_contra hall
    refine hsum (List.sum_eq_zero fun x hx => ?_)
    obtain ⟨b, hb, rfl⟩ := List.mem_map.mp hx
    by_contra hb'
    refine hall ⟨b, hb, ?_⟩
    rw [txCount_eq_zero] at hb'
    tauto
  · rintro ⟨b, hb, hsome⟩ hsum
    have hle := List.single_le_sum hnonneg _ (List.mem_map_of_mem hb)
    have hzero := le_antisymm (hsum ▸ hle) (txCount_nonneg b)
    rw [txCount_eq_zero] at hzero
    tauto

/-- **Quotients by counts**: what an epoch counts is not 0, nor what all of them count. -/
theorem counts_ne_zero_iff (blocks : List (BlockInfoMsg η)) {counts : List ℚ}
    (hcounts : counts =
      run BlockInfoMsg.epoch (fun b x => x + txCount phase1 phase2 b) 0 (reported blocks)) :
    ((∀ y ∈ counts, y ≠ 0) ∧ counts.sum ≠ 0) ↔ EveryEpochCounts phase1 phase2 blocks := by
  rw [counts_eq] at hcounts
  have hnonneg : ∀ y ∈ counts, 0 ≤ y := by
    intro y hy
    rw [hcounts, mem_upTo] at hy
    obtain ⟨e, -, rfl⟩ := hy
    refine List.sum_nonneg fun x hx => ?_
    obtain ⟨b, -, rfl⟩ := List.mem_map.mp hx
    exact txCount_nonneg b
  have hepochs : (∀ y ∈ counts, y ≠ 0) ↔ ∀ e, (∃ b ∈ reported blocks, e ≤ b.epoch) →
      ∃ b ∈ reported blocks, b.epoch = e ∧
        (b.innerShardTxs ≠ [] ∨ phase1 b ≠ [] ∨ phase2 b ≠ []) := by
    have hat : (∀ y ∈ counts, y ≠ 0) ↔ ∀ e < top BlockInfoMsg.epoch (reported blocks),
        (((reported blocks).filter fun b => b.epoch = e).map (txCount phase1 phase2)).sum ≠ 0 := by
      rw [hcounts]
      simp only [mem_upTo]
      exact ⟨fun h e he => h _ ⟨e, he, rfl⟩, fun h y ⟨e, he, hy⟩ => hy ▸ h e he⟩
    rw [hat]
    refine forall_congr' fun e => imp_congr lt_top_iff ?_
    rw [sum_txCount_ne_zero]
    simp only [List.mem_filter, decide_eq_true_eq, and_assoc]
  have hempty : counts = [] ↔ reported blocks = [] := by
    rw [hcounts]
    exact upTo_top_eq_nil
  rw [EveryEpochCounts, ← hepochs, and_comm, ne_eq (reported blocks), ← hempty]
  refine and_congr_left fun hall => ?_
  refine not_congr ⟨fun hsum => ?_, fun hnil => by rw [hnil, List.sum_nil]⟩
  by_contra hne
  refine (List.sum_pos counts (fun y hy => ?_) hne).ne' hsum
  exact lt_of_le_of_ne (hnonneg y hy) (Ne.symm (hall y hy))

/-- A part of a module that counts the transactions of the epochs. -/
theorem counts_of_update {σ : Type} (part : σ → List ℚ) {update : σ → BlockInfoMsg η → σ}
    {start : σ} (hstart : part start = [])
    (hupdate : ∀ s b, part (update s b) = if b.blockBodyLength = 0 then part s
      else record 0 b.epoch (· + txCount phase1 phase2 b) (part s))
    (blocks : List (BlockInfoMsg η)) :
    part (blocks.foldl update start) =
      run BlockInfoMsg.epoch (fun b x => x + txCount phase1 phase2 b) 0 (reported blocks) := by
  rw [← foldl_reported, ← hstart]
  exact (List.foldl_hom part fun s b => (hupdate s b).symm).symm

end Counts

namespace CrossTxRate

theorem finite_iff {epochs : List CrossTxRecord} : (outputRecord epochs).Finite ↔
    (∀ y ∈ epochs.map (·.totTxNum), y ≠ 0) ∧ (epochs.map (·.totTxNum)).sum ≠ 0 := by
  have hratios : none ∉ epochs.map (fun r => floatDiv r.totCrossTxNum r.totTxNum) ↔
      ∀ y ∈ epochs.map (·.totTxNum), y ≠ 0 := by
    rw [none_notMem_map, List.forall_mem_map]
    exact forall₂_congr fun r _ => floatDiv_ne_none
  have happend : none ∉ epochs.map (fun r => floatDiv r.totCrossTxNum r.totTxNum) ++
      [some (epochs.map (·.totTxNum)).sum, some (epochs.map (·.totCrossTxNum)).sum] ↔
      ∀ y ∈ epochs.map (·.totTxNum), y ≠ 0 := by
    rw [← hratios]
    simp
  simp only [Report.Finite, outputRecord, floatDiv_ne_none]
  rw [happend, hratios]
  tauto

theorem map_updateMeasureRecord (phase1 phase2 : BlockInfoMsg η → List (Transaction η))
    (epochs : List CrossTxRecord) (b : BlockInfoMsg η) :
    (updateMeasureRecord phase1 phase2 epochs b).map (·.totTxNum) =
      if b.blockBodyLength = 0 then epochs.map (·.totTxNum)
      else record 0 b.epoch (· + txCount phase1 phase2 b) (epochs.map (·.totTxNum)) := by
  rw [updateMeasureRecord]
  split
  · rfl
  · refine map_record (fun r => ?_) fresh b.epoch epochs
    rfl

/-- **The ratios of a module.** -/
theorem ratios_finite_iff (phase1 phase2 : BlockInfoMsg η → List (Transaction η))
    (blocks : List (BlockInfoMsg η)) :
    (outputRecord (blocks.foldl (updateMeasureRecord phase1 phase2) [])).Finite ↔
      EveryEpochCounts phase1 phase2 blocks := by
  rw [finite_iff]
  exact counts_ne_zero_iff blocks
    (counts_of_update (List.map CrossTxRecord.totTxNum) rfl (map_updateMeasureRecord phase1 phase2) blocks)

end CrossTxRate

section Latencies

theorem tcl_finite_iff {epochs : List LatencyRecord} : (tclOutputRecord epochs).Finite ↔
    (∀ y ∈ epochs.map (·.txNum), y ≠ 0) ∧ (epochs.map (·.txNum)).sum ≠ 0 := by
  simp only [Report.Finite, tclOutputRecord, floatDiv_ne_none, none_notMem_map,
    List.forall_mem_map, List.not_mem_nil, not_false_eq_true, and_true]

/-- Rounds that leave the number of transactions. -/
theorem foldl_txNum {α : Type} {f : LatencyRecord → α → LatencyRecord}
    (hf : ∀ r x, (f r x).txNum = r.txNum) (l : List α) (r : LatencyRecord) :
    (l.foldl f r).txNum = r.txNum := by
  induction l generalizing r with
  | nil => rfl
  | cons x l ih => rw [List.foldl_cons, ih, hf]

theorem countTxs_txNum (b : BlockInfoMsg η) (phase1 phase2 : BlockInfoMsg η → List (Transaction η))
    (r : LatencyRecord) :
    (countTxs b.innerShardTxs (phase1 b) (phase2 b) r).txNum =
      r.txNum + txCount phase1 phase2 b := by
  rw [countTxs, txCount, add_comm (b.innerShardTxs.length : ℚ)]

variable [DecidableEq η]

theorem TCLRelay.map_updateMeasureRecord (s : TCLState η) (b : BlockInfoMsg η) :
    (updateMeasureRecord s b).epochs.map (·.txNum) =
      if b.blockBodyLength = 0 then s.epochs.map (·.txNum)
      else record 0 b.epoch (· + txCount (·.relay1Txs) (·.relay2Txs) b)
        (s.epochs.map (·.txNum)) := by
  have hrelay2 : ∀ (times : η → Option ℕ) (r : LatencyRecord) (tx : Transaction η),
      (relay2Tx times b r tx).txNum = r.txNum := by
    intro times r tx
    rw [relay2Tx]
    cases times tx.txHash <;> rfl
  rw [updateMeasureRecord]
  split
  · rfl
  · refine map_record (fun r => ?_) 0 b.epoch s.epochs
    rw [foldl_txNum (f := normalTx b) fun _ _ => rfl, foldl_txNum (hrelay2 _),
      foldl_txNum (f := phase1Tx b) fun _ _ => rfl]
    exact countTxs_txNum b (·.relay1Txs) (·.relay2Txs) r

theorem TCLBroker.map_updateMeasureRecord (s : TCLState η) (b : BlockInfoMsg η) :
    (updateMeasureRecord s b).epochs.map (·.txNum) =
      if b.blockBodyLength = 0 then s.epochs.map (·.txNum)
      else record 0 b.epoch (· + txCount (·.broker1Txs) (·.broker2Txs) b)
        (s.epochs.map (·.txNum)) := by
  have hbroker2 : ∀ (times : η → Option ℕ) (r : LatencyRecord) (tx : Transaction η),
      (broker2Tx times b r tx).txNum = r.txNum := by
    intro times r tx
    simp only [broker2Tx]
    cases times tx.rawTxHash <;> rfl
  rw [updateMeasureRecord]
  split
  · rfl
  · refine map_record (fun r => ?_) 0 b.epoch s.epochs
    rw [foldl_txNum (hbroker2 _), foldl_txNum (f := phase1Tx b) fun _ _ => rfl,
      foldl_txNum (f := normalTx b) fun _ _ => rfl]
    exact countTxs_txNum b (·.broker1Txs) (·.broker2Txs) r

/-- **The latencies of the relay module.** -/
theorem TCLRelay.latencies_finite_iff (blocks : List (BlockInfoMsg η)) :
    (tclOutputRecord (TCLRelay.run blocks).epochs).Finite ↔
      EveryEpochCounts (·.relay1Txs) (·.relay2Txs) blocks := by
  rw [tcl_finite_iff]
  exact counts_ne_zero_iff blocks
    (counts_of_update (fun s : TCLState η => s.epochs.map (·.txNum)) rfl map_updateMeasureRecord
      blocks)

/-- **The latencies of the broker module.** -/
theorem TCLBroker.latencies_finite_iff (blocks : List (BlockInfoMsg η)) :
    (tclOutputRecord (TCLBroker.run blocks).epochs).Finite ↔
      EveryEpochCounts (·.broker1Txs) (·.broker2Txs) blocks := by
  rw [tcl_finite_iff]
  exact counts_ne_zero_iff blocks
    (counts_of_update (fun s : TCLState η => s.epochs.map (·.txNum)) rfl map_updateMeasureRecord
      blocks)

end Latencies

/-! ## Quotients by times -/

section Times

theorem durationSub_eq_zero {t u : ℕ} : durationSub t u = 0 ↔ t = u := by
  unfold durationSub
  omega

theorem durationSub_pos {t u : ℕ} (h : u < t) : 0 < durationSub t u := by
  unfold durationSub
  omega

theorem seconds_ne_zero {d : ℤ} : seconds d ≠ 0 ↔ d ≠ 0 := by
  simp [seconds]

/-- The earliest of the times since the last missing one. -/
def earliest (times : List ℕ) : ℕ := ((times.reverse.takeWhile (· ≠ 0)).min?).getD 0

/-- The latest of the times. -/
def latest (times : List ℕ) : ℕ := times.foldl max 0

theorem lt_latest_iff {times : List ℕ} {t : ℕ} : t < latest times ↔ ∃ u ∈ times, t < u := by
  induction times using List.reverseRecOn with
  | nil => simp [latest]
  | append_singleton times u ih =>
    have hlast : latest (times ++ [u]) = max (latest times) u := by
      rw [latest, List.foldl_append]
      rfl
    rw [hlast, lt_max_iff, ih]
    simp [or_and_right, exists_or]

/-- The start of an epoch is the earliest propose time. -/
theorem foldl_startTime (times : List ℕ) :
    times.foldl (fun s t => if s = 0 ∨ t < s then t else s) 0 = earliest times := by
  induction times using List.reverseRecOn with
  | nil => rfl
  | append_singleton times t ih =>
    rw [List.foldl_append, ih, List.foldl_cons, List.foldl_nil, earliest, earliest,
      List.reverse_append, List.reverse_singleton, List.singleton_append, List.takeWhile_cons]
    by_cases ht : t = 0
    · simp [ht]
    · have ht' : decide (t ≠ 0) = true := decide_eq_true ht
      rw [ht', if_pos rfl, List.min?_cons]
      cases hmin : (times.reverse.takeWhile (· ≠ 0)).min? with
      | none => simp
      | some m =>
        have hm : m ≠ 0 := by
          simpa using List.mem_takeWhile_imp (List.min?_mem hmin)
        simp only [Option.getD_some, Option.elim_some]
        by_cases hlt : t < m
        · rw [if_pos (.inr hlt), min_eq_left hlt.le]
        · rw [if_neg (by omega), min_eq_right (by omega)]

/-- The end of an epoch is the latest commit time. -/
theorem foldl_endTime (times : List ℕ) :
    times.foldl (fun s t => if s = 0 ∨ s < t then t else s) 0 = latest times := by
  have hround : (fun s t : ℕ => if s = 0 ∨ s < t then t else s) = max := by
    funext s t
    split <;> omega
  rw [hround, latest]

variable (blocks : List (BlockInfoMsg η))

/-- The blocks of an epoch that are not skipped. -/
def ofEpoch (e : ℕ) : List (BlockInfoMsg η) := (reported blocks).filter fun b => b.epoch = e

/-- Up to the last epoch the earliest propose time and the latest commit time of each differ,
and so do those of all epochs; the time of the output counts as a propose time. -/
def EveryEpochTimed (now : ℕ) : Prop :=
  (∀ e, (∃ b ∈ reported blocks, e ≤ b.epoch) →
    earliest ((ofEpoch blocks e).map (·.proposeTime)) ≠
      latest ((ofEpoch blocks e).map (·.commitTime))) ∧
  ((List.range (top BlockInfoMsg.epoch (reported blocks))).map fun e =>
      earliest ((ofEpoch blocks e).map (·.proposeTime))).foldl min now ≠
    latest ((reported blocks).map (·.commitTime))

end Times

namespace AvgTPSBroker

/-- What the loop has in the end. -/
theorem foldl_round (epochs : List TPSRecord) (t : TPSTotals) :
    epochs.foldl round t =
      ⟨t.perEpochTPS ++ epochs.map fun r => floatDiv r.excutedTxNum r.timeGap,
        t.totalTxNum + (epochs.map (·.excutedTxNum)).sum,
        (epochs.map (·.startTime)).foldl min t.eTime,
        (epochs.map (·.endTime)).foldl max t.lTime⟩ := by
  induction epochs generalizing t with
  | nil => simp
  | cons r epochs ih =>
    have hmin : (if r.startTime < t.eTime then r.startTime else t.eTime) =
        min t.eTime r.startTime := by
      split <;> omega
    have hmax : (if t.lTime < r.endTime then r.endTime else t.lTime) = max t.lTime r.endTime := by
      split <;> omega
    rw [List.foldl_cons, ih, round, hmin, hmax]
    simp [add_assoc]

/-- The times of the slices. -/
theorem avgTPSBroker_times (blocks : List (BlockInfoMsg η)) :
    (avgTPSBroker blocks).map (fun r => (r.startTime, r.endTime)) =
      (List.range (top BlockInfoMsg.epoch (reported blocks))).map fun e =>
        (earliest ((ofEpoch blocks e).map (·.proposeTime)),
          latest ((ofEpoch blocks e).map (·.commitTime))) := by
  have hrun : avgTPSBroker blocks = EpochSeries.run BlockInfoMsg.epoch
      (AvgTPS.addBlock (·.broker1Txs) (·.broker2Txs)) AvgTPS.fresh (reported blocks) :=
    foldl_reported blocks
  have hstart : ∀ (l : List (BlockInfoMsg η)) (r : TPSRecord),
      (l.foldl (fun r b => AvgTPS.addBlock (·.broker1Txs) (·.broker2Txs) b r) r).startTime =
        (l.map (·.proposeTime)).foldl (fun s t => if s = 0 ∨ t < s then t else s) r.startTime := by
    intro l r
    rw [List.foldl_map]
    exact (List.foldl_hom TPSRecord.startTime fun _ _ => rfl).symm
  have hend : ∀ (l : List (BlockInfoMsg η)) (r : TPSRecord),
      (l.foldl (fun r b => AvgTPS.addBlock (·.broker1Txs) (·.broker2Txs) b r) r).endTime =
        (l.map (·.commitTime)).foldl (fun s t => if s = 0 ∨ s < t then t else s) r.endTime := by
    intro l r
    rw [List.foldl_map]
    exact (List.foldl_hom TPSRecord.endTime fun _ _ => rfl).symm
  rw [hrun, run_eq, upTo, List.map_map]
  refine List.map_congr_left fun e _ => ?_
  rw [← foldl_startTime, ← foldl_endTime]
  exact Prod.ext (hstart _ _) (hend _ _)

theorem avgTPSBroker_startTimes (blocks : List (BlockInfoMsg η)) :
    (avgTPSBroker blocks).map (·.startTime) =
      (List.range (top BlockInfoMsg.epoch (reported blocks))).map fun e =>
        earliest ((ofEpoch blocks e).map (·.proposeTime)) := by
  simpa [Function.comp_def] using congrArg (List.map Prod.fst) (avgTPSBroker_times blocks)

theorem avgTPSBroker_endTimes (blocks : List (BlockInfoMsg η)) :
    (avgTPSBroker blocks).map (·.endTime) =
      (List.range (top BlockInfoMsg.epoch (reported blocks))).map fun e =>
        latest ((ofEpoch blocks e).map (·.commitTime)) := by
  simpa [Function.comp_def] using congrArg (List.map Prod.snd) (avgTPSBroker_times blocks)

/-- The latest of the latest times of the epochs is the latest of all. -/
theorem latest_endTimes (blocks : List (BlockInfoMsg η)) :
    latest ((avgTPSBroker blocks).map (·.endTime)) =
      latest ((reported blocks).map (·.commitTime)) := by
  refine eq_of_forall_lt_iff fun t => ?_
  rw [avgTPSBroker_endTimes, lt_latest_iff, lt_latest_iff]
  constructor
  · rintro ⟨u, hu, hlt⟩
    obtain ⟨e, -, rfl⟩ := List.mem_map.mp hu
    obtain ⟨v, hv, hlt⟩ := lt_latest_iff.mp hlt
    obtain ⟨b, hb, rfl⟩ := List.mem_map.mp hv
    exact ⟨_, List.mem_map_of_mem (List.mem_filter.mp hb).1, hlt⟩
  · rintro ⟨u, hu, hlt⟩
    obtain ⟨b, hb, rfl⟩ := List.mem_map.mp hu
    refine ⟨_, List.mem_map_of_mem (List.mem_range.mpr (lt_top_iff.mpr ⟨b, hb, le_rfl⟩)), ?_⟩
    exact lt_latest_iff.mpr ⟨_, List.mem_map_of_mem
      (List.mem_filter.mpr ⟨hb, decide_eq_true rfl⟩), hlt⟩

/-- The quotients of the epochs. -/
theorem epochs_finite_iff (blocks : List (BlockInfoMsg η)) :
    none ∉ (avgTPSBroker blocks).map (fun r => floatDiv r.excutedTxNum r.timeGap) ↔
      ∀ e, (∃ b ∈ reported blocks, e ≤ b.epoch) →
        earliest ((ofEpoch blocks e).map (·.proposeTime)) ≠
          latest ((ofEpoch blocks e).map (·.commitTime)) := by
  have hgap : ∀ r : TPSRecord, floatDiv r.excutedTxNum r.timeGap ≠ none ↔
      r.startTime ≠ r.endTime := fun r => by
    rw [floatDiv_ne_none, TPSRecord.timeGap, seconds_ne_zero, ne_eq, durationSub_eq_zero, eq_comm]
  have hpairs : (∀ r ∈ avgTPSBroker blocks, r.startTime ≠ r.endTime) ↔
      ∀ p ∈ (avgTPSBroker blocks).map (fun r => (r.startTime, r.endTime)), p.1 ≠ p.2 := by
    rw [List.forall_mem_map]
  rw [none_notMem_map, forall₂_congr fun r _ => hgap r, hpairs, avgTPSBroker_times,
    List.forall_mem_map]
  exact forall_congr' fun e => imp_congr (List.mem_range.trans lt_top_iff) Iff.rfl

/-- **The quotients of the broker module.** -/
theorem finite_iff (blocks : List (BlockInfoMsg η)) (now : ℕ) :
    (outputRecord now (avgTPSBroker blocks)).Finite ↔ EveryEpochTimed blocks now := by
  have htotal : floatDiv (0 + ((avgTPSBroker blocks).map (·.excutedTxNum)).sum)
      (seconds (durationSub (((avgTPSBroker blocks).map (·.endTime)).foldl max 0)
        (((avgTPSBroker blocks).map (·.startTime)).foldl min now))) ≠ none ↔
      ((List.range (top BlockInfoMsg.epoch (reported blocks))).map fun e =>
        earliest ((ofEpoch blocks e).map (·.proposeTime))).foldl min now ≠
        latest ((reported blocks).map (·.commitTime)) := by
    rw [floatDiv_ne_none, seconds_ne_zero, ne_eq, durationSub_eq_zero, ← latest, latest_endTimes,
      avgTPSBroker_startTimes, eq_comm]
  rw [Report.Finite, outputRecord, foldl_round]
  dsimp only
  rw [List.nil_append, htotal, epochs_finite_iff, EveryEpochTimed]
  tauto

end AvgTPSBroker

namespace AvgTPSRelay

/-- The loop divides by positive times only. -/
theorem round_finite {t : TPSTotals} (h : none ∉ t.perEpochTPS) (r : TPSRecord) :
    none ∉ (round t r).perEpochTPS := by
  rw [round]
  split
  · simpa using h
  · split
    · simpa using h
    · next hgap =>
      have hdiv : floatDiv r.excutedTxNum r.timeGap ≠ none :=
        floatDiv_ne_none.mpr (not_le.mp hgap).ne'
      rw [List.mem_append, List.mem_singleton, not_or]
      exact ⟨h, hdiv.symm⟩

/-- **The quotients of the relay module.** -/
theorem finite (epochs : List TPSRecord) : (outputRecord epochs).Finite := by
  have hepochs : none ∉ (calculateTPS epochs).1 :=
    List.foldlRecOn (motive := fun t : TPSTotals => none ∉ t.perEpochTPS) epochs round
      List.not_mem_nil fun _ h r _ => round_finite h r
  refine ⟨hepochs, ?_, hepochs⟩
  change (calculateTPS epochs).2 ≠ none
  rw [calculateTPS]
  dsimp only
  split
  · next h =>
    exact floatDiv_ne_none.mpr (seconds_ne_zero.mpr (durationSub_pos h.2).ne')
  · exact Option.some_ne_none 0

end AvgTPSRelay

/-! ## All modules -/

/-- **When all quotients have a divisor other than 0**: the counts and the latencies where each
epoch up to the last one has transactions, the broker module's transactions per second where the
times of each epoch differ; the relay module's always. -/
theorem measures_finite_iff [DecidableEq η] (blocks : List (BlockInfoMsg η)) (now : ℕ) :
    ((CrossTxRate.outputRecord (crossTxRateRelay blocks)).Finite ↔
      EveryEpochCounts (·.relay1Txs) (·.relay2Txs) blocks) ∧
    ((CrossTxRate.outputRecord (crossTxRateBroker blocks)).Finite ↔
      EveryEpochCounts (·.broker1Txs) (·.broker2Txs) blocks) ∧
    ((tclOutputRecord (TCLRelay.run blocks).epochs).Finite ↔
      EveryEpochCounts (·.relay1Txs) (·.relay2Txs) blocks) ∧
    ((tclOutputRecord (TCLBroker.run blocks).epochs).Finite ↔
      EveryEpochCounts (·.broker1Txs) (·.broker2Txs) blocks) ∧
    ((AvgTPSBroker.outputRecord now (avgTPSBroker blocks)).Finite ↔
      EveryEpochTimed blocks now) ∧
    (AvgTPSRelay.outputRecord (avgTPSRelay blocks)).Finite :=
  ⟨CrossTxRate.ratios_finite_iff (·.relay1Txs) (·.relay2Txs) blocks,
    CrossTxRate.ratios_finite_iff (·.broker1Txs) (·.broker2Txs) blocks,
    TCLRelay.latencies_finite_iff blocks, TCLBroker.latencies_finite_iff blocks,
    AvgTPSBroker.finite_iff blocks now, AvgTPSRelay.finite _⟩

/-- A block of epoch 1, with one transaction, where epoch 0 had none. -/
def skippedEpoch : List (BlockInfoMsg ℕ) :=
  [⟨1, 1, 1000000000, 2000000000, [⟨0, 1, 1⟩], [], [], [], []⟩]

/-- The quotients of the epoch that was skipped. -/
theorem skippedEpoch_not_finite :
    (CrossTxRate.outputRecord (crossTxRateRelay skippedEpoch)).perEpoch =
        [none, some 0, some 1, some 0] ∧
      (CrossTxRate.outputRecord (crossTxRateBroker skippedEpoch)).perEpoch =
        [none, some 0, some 1, some 0] ∧
      (tclOutputRecord (TCLRelay.run skippedEpoch).epochs).perEpoch = [none, some 2] ∧
      (tclOutputRecord (TCLBroker.run skippedEpoch).epochs).perEpoch = [none, some 2] ∧
      (AvgTPSBroker.outputRecord 3000000000 (avgTPSBroker skippedEpoch)).perEpoch =
        [none, some 1] ∧
      (AvgTPSRelay.outputRecord (avgTPSRelay skippedEpoch)).perEpoch = [some 0, some 1] := by
  decide +kernel

end BlockEmulator.Measure
