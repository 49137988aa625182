import BlockEmulator.MeasureQuotients
import BlockEmulator.TxDetails

/-!
# What the measures of a relay run count (`supervisor/measure/measure_*_relay.go`)

The modules of the supervisor add up, epoch after epoch, what block infos tell: a transaction
inside a shard counts as 1, each phase of one between shards as 1/2.

* `Settling.phases_perm` — at rest the phases that were executed are those of the injected
  transactions.
* `Reported.sum` — what any weight of phases adds up to.
* `measures_count` — **all modules count the injected transactions** after a finished run, in
  whatever order the block infos arrived.
-/

namespace BlockEmulator

open StepSystem

/-! ## The modules -/

namespace Measure

/-- The entries of one epoch in the slices of `TestTxNumCount_Relay` and
`TestTxNumCount_Broker`. -/
structure TxNumRecord where
  /-- `txNum` -/
  txNum : ℚ
  /-- `normalTxNum` -/
  normalTxNum : ℕ
  /-- `relay1TxNum` -/
  phase1TxNum : ℕ
  /-- `relay2TxNum` -/
  phase2TxNum : ℕ

namespace TxNumCount

variable {η : Type}

/-- The entries of an epoch that is new. -/
def fresh : TxNumRecord := ⟨0, 0, 0, 0⟩

/-- What a block adds. -/
def addBlock (phase1 phase2 : BlockInfoMsg η → List (Transaction η)) (b : BlockInfoMsg η)
    (r : TxNumRecord) : TxNumRecord :=
  { txNum := r.txNum +
      ((b.innerShardTxs.length : ℚ) + (((phase1 b).length + (phase2 b).length : ℕ) : ℚ) / 2)
    normalTxNum := r.normalTxNum + b.innerShardTxs.length
    phase1TxNum := r.phase1TxNum + (phase1 b).length
    phase2TxNum := r.phase2TxNum + (phase2 b).length }

/-- `UpdateMeasureRecord`, by the transactions of the phases. -/
def updateMeasureRecord (phase1 phase2 : BlockInfoMsg η → List (Transaction η))
    (epochs : List TxNumRecord) (b : BlockInfoMsg η) : List TxNumRecord :=
  if b.blockBodyLength = 0 then epochs
  else EpochSeries.record fresh b.epoch (addBlock phase1 phase2 b) epochs

/-- `OutputRecord`. -/
def outputRecord (epochs : List TxNumRecord) : List ℚ × ℚ :=
  (epochs.map (·.txNum), (epochs.map (·.txNum)).sum)

end TxNumCount

/-- `TestTxNumCount_Relay`, after block infos. -/
def txNumCountRelay {η : Type} (blocks : List (BlockInfoMsg η)) : List TxNumRecord :=
  blocks.foldl (TxNumCount.updateMeasureRecord (·.relay1Txs) (·.relay2Txs)) []

end Measure

namespace ShardLoadVariance

/-- `shardLoad[epochid][sid] += load`, where there is such a shard. -/
def addBlock (shardNum : ℕ) (b : BlockInfoMsg) (load : Fin shardNum → ℚ) : Fin shardNum → ℚ :=
  if h : b.senderShardID < shardNum then
    Function.update load ⟨b.senderShardID, h⟩ (load ⟨b.senderShardID, h⟩ +
      ((b.innerShardTxs.length : ℚ) + ((b.relay1Txs.length + b.relay2Txs.length : ℕ) : ℚ) / 2))
  else load

/-- `UpdateMeasureRecord`, on `shardLoad`. -/
def updateMeasureRecord (shardNum : ℕ) (shardLoad : List (Fin shardNum → ℚ)) (b : BlockInfoMsg) :
    List (Fin shardNum → ℚ) :=
  if b.blockBodyLength = 0 then shardLoad
  else EpochSeries.record (fun _ => 0) b.epoch (addBlock shardNum b) shardLoad

/-- `TestShardLoadVariance_Relay`, after block infos. -/
def run (shardNum : ℕ) (infos : List BlockInfoMsg) : List (Fin shardNum → ℚ) :=
  infos.foldl (updateMeasureRecord shardNum) []

/-- `calcShardLoadVariance`. -/
def calcShardLoadVariance {shardNum : ℕ} (loads : Fin shardNum → ℚ) : ℚ :=
  if shardNum = 0 then 0
  else
    let avg := (List.ofFn loads).sum / shardNum
    ((List.ofFn loads).map fun v => (v - avg) ^ 2).sum / shardNum

/-- `OutputRecord`. -/
def outputRecord {shardNum : ℕ} (shardLoad : List (Fin shardNum → ℚ)) : List ℚ × ℚ :=
  let perEpochVariance := shardLoad.map calcShardLoadVariance
  (perEpochVariance,
    if perEpochVariance = [] then 0 else perEpochVariance.sum / perEpochVariance.length)

end ShardLoadVariance

/-- A block info as the other modules read it, with the times of its transactions, and of
its proposal and its commit. -/
def BlockInfoMsg.toMeasure (time : Transaction → ℕ) (stamp : BlockInfoMsg → ℕ × ℕ)
    (b : BlockInfoMsg) : Measure.BlockInfoMsg Bytes where
  blockBodyLength := b.blockBodyLength
  epoch := b.epoch
  proposeTime := (stamp b).1
  commitTime := (stamp b).2
  innerShardTxs := b.innerShardTxs.map fun tx => ⟨time tx, tx.txHash, tx.rawTxHash⟩
  relay1Txs := b.relay1Txs.map fun tx => ⟨time tx, tx.txHash, tx.rawTxHash⟩
  relay2Txs := b.relay2Txs.map fun tx => ⟨time tx, tx.txHash, tx.rawTxHash⟩
  broker1Txs := []
  broker2Txs := []

/-! ## What phases add up to -/

variable {H : Type} [DecidableEq H] {sys : RelaySystem H} {s : NetState H}
  {txs : List Transaction} {infos : List BlockInfoMsg}

/-- The phases of a transaction. -/
def phasesOf (place : Address → ℕ) (tx : Transaction) : List (ℕ × Transaction) :=
  if place tx.sender = place tx.recipient then [(place tx.sender, tx)]
  else [(place tx.sender, tx), (place tx.recipient, tx.second)]

/-- At rest the phases that were executed are those of the injected transactions. -/
theorem Settling.phases_perm (hs : Settling sys s txs) (hrest : s.AtRest sys)
    {blocks : ℕ → List (Block H)} {executed : ℕ → List Transaction}
    (harch : Archived sys s txs blocks executed) :
    (phases (List.range sys.shardNums) executed).Perm (txs.flatMap (phasesOf sys.place)) := by
  have hkeys : ∀ e ∈ phases (List.range sys.shardNums) executed,
      e.2.txHash ∈ txs.map (·.txHash) := by
    rintro ⟨k, tx⟩ he
    rcases harch.origin k tx (mem_phases.mp he).2 with ⟨htx, -⟩ | ⟨t, ht, rfl, -⟩
    · exact List.mem_map_of_mem htx
    · exact List.mem_map.mpr ⟨t, ht, rfl⟩
  refine (KeyedUpdates.perm_flatMap_filter hs.distinct hkeys).trans ?_
  rw [List.flatMap_map]
  exact List.Perm.flatMap_left _ fun tx htx => harch.settled (·.txHash) (fun _ => rfl) hs
     hs.distinct htx (hs.done_of_atRest hrest htx)

/-- **What a weight of phases adds up to**: the phases of a transaction inside a shard, or
those of one between shards. -/
theorem Reported.sum (h : Reported sys s txs infos) (hs : Settling sys s txs)
    (hrest : s.AtRest sys) {δ : Type} [AddCommMonoid δ] (f : DetailEvent → δ) :
    (infos.map fun b => (b.events.map f).sum).sum =
      (txs.map fun tx => if sys.place tx.sender = sys.place tx.recipient then
          f ⟨.inner, sys.place tx.sender, tx⟩
        else f ⟨.relay1, sys.place tx.sender, tx.second⟩ +
          f ⟨.relay2, sys.place tx.recipient, tx.second⟩).sum := by
  obtain ⟨blocks, executed, harch, -, hperm⟩ := h
  have hphases := (hperm.trans ((hs.phases_perm hrest harch).map _)).map f
  have hinfos : (infos.map fun b => (b.events.map f).sum).sum =
      ((infos.flatMap BlockInfoMsg.events).map f).sum := by
    rw [List.map_flatMap, List.flatMap_def, List.sum_flatten, List.map_map]
    rfl
  rw [hinfos, hphases.sum_eq, List.map_map, List.map_flatMap, List.flatMap_def, List.sum_flatten,
    List.map_map]
  congr 1
  refine List.map_congr_left fun tx htx => ?_
  have hrel := (hs.injected tx htx).2.1
  rw [Function.comp_apply, phasesOf]
  split
  · rename_i hhome
    simp [eventOf, hhome, hrel]
  · rename_i hcross
    simp [eventOf, Ne.symm hcross, Transaction.second]

/-! ## The totals -/

/-- The transactions of a block info, with a weight for each loop. -/
theorem BlockInfoMsg.sum_events (b : BlockInfoMsg) (w : DetailKind → ℚ) :
    (b.events.map fun e => w e.kind).sum = b.innerShardTxs.length * w .inner +
      b.relay1Txs.length * w .relay1 + b.relay2Txs.length * w .relay2 := by
  simp [BlockInfoMsg.events, Function.comp_def, add_assoc]

/-- Empty block infos add nothing. -/
theorem sum_nonempty {c : BlockInfoMsg → ℚ}
    (hempty : ∀ b ∈ infos, b.blockBodyLength = 0 → c b = 0) :
    ((infos.filter fun b => b.blockBodyLength ≠ 0).map c).sum = (infos.map c).sum := by
  induction infos with
  | nil => rfl
  | cons b infos ih =>
    have ih := ih fun c hc => hempty c (List.mem_cons_of_mem _ hc)
    rw [List.filter_cons, List.map_cons, List.sum_cons]
    split
    · rw [List.map_cons, List.sum_cons, ih]
    · rename_i hzero
      rw [hempty b List.mem_cons_self (by simpa using hzero), zero_add, ih]

/-- What the modules add up to over all epochs, where an empty block info adds nothing. -/
theorem sum_reported {ε : Type} {fresh : ε} {step : Measure.BlockInfoMsg Bytes → ε → ε}
    {part : ε → ℚ} {c : BlockInfoMsg → ℚ} {time : Transaction → ℕ}
    {stamp : BlockInfoMsg → ℕ × ℕ} (hfresh : part fresh = 0)
    (hstep : ∀ (b : BlockInfoMsg) x, part (step (b.toMeasure time stamp) x) = part x + c b)
    (hempty : ∀ b ∈ infos, b.blockBodyLength = 0 → c b = 0) :
    ((EpochSeries.run Measure.BlockInfoMsg.epoch step fresh
      (Measure.reported (infos.map (BlockInfoMsg.toMeasure time stamp)))).map part).sum =
        (infos.map c).sum := by
  have hrun : EpochSeries.run Measure.BlockInfoMsg.epoch step fresh
      (Measure.reported (infos.map (BlockInfoMsg.toMeasure time stamp))) =
        EpochSeries.run BlockInfoMsg.epoch (fun b => step (b.toMeasure time stamp)) fresh
          (infos.filter fun b => b.blockBodyLength ≠ 0) := by
    rw [EpochSeries.run, EpochSeries.run, Measure.reported, List.filter_map, List.foldl_map]
    rfl
  rw [hrun, EpochSeries.sum_run part hfresh hstep, sum_nonempty hempty]

namespace Reported

/-- What a module adds up to at rest that gives each phase a weight. -/
theorem sum_run (h : Reported sys s txs infos) (hs : Settling sys s txs) (hrest : s.AtRest sys)
    {ε : Type} {fresh : ε} {step : Measure.BlockInfoMsg Bytes → ε → ε} (part : ε → ℚ)
    {time : Transaction → ℕ} {stamp : BlockInfoMsg → ℕ × ℕ} (w : DetailKind → ℚ)
    (hfresh : part fresh = 0)
    (hstep : ∀ (b : BlockInfoMsg) x, part (step (b.toMeasure time stamp) x) = part x +
      (b.innerShardTxs.length * w .inner + b.relay1Txs.length * w .relay1 +
        b.relay2Txs.length * w .relay2)) :
    ((EpochSeries.run Measure.BlockInfoMsg.epoch step fresh
      (Measure.reported (infos.map (BlockInfoMsg.toMeasure time stamp)))).map part).sum =
        (txs.map fun tx => if sys.place tx.sender = sys.place tx.recipient then w .inner
          else w .relay1 + w .relay2).sum := by
  have hsum := h.sum hs hrest fun e => w e.kind
  simp only [BlockInfoMsg.sum_events] at hsum
  rw [sum_reported hfresh hstep, hsum]
  intro b hb hzero
  obtain ⟨-, -, -, hempty, -⟩ := h
  rw [← b.sum_events w, hempty b hb hzero]
  rfl

end Reported

/-- Transactions that count as 1 each. -/
theorem sum_weight (place : Address → ℕ) (txs : List Transaction) :
    (txs.map fun tx => if place tx.sender = place tx.recipient then (1 : ℚ)
      else 1 / 2 + 1 / 2).sum = txs.length := by
  induction txs with
  | nil => simp
  | cons tx txs ih =>
    rw [List.map_cons, List.sum_cons, ih, List.length_cons, Nat.cast_succ]
    split <;> ring

/-- Transactions between shards, counted by their phases. -/
theorem sum_cross (place : Address → ℕ) (txs : List Transaction) :
    (txs.map fun tx => if place tx.sender = place tx.recipient then (0 : ℚ)
      else 1 / 2 + 1 / 2).sum =
        (txs.filter fun tx => place tx.sender ≠ place tx.recipient).length := by
  induction txs with
  | nil => simp
  | cons tx txs ih =>
    rw [List.map_cons, List.sum_cons, ih, List.filter_cons]
    by_cases hhome : place tx.sender = place tx.recipient
    · simp [hhome]
    · simp [hhome]
      ring

/-- What a shard executes: half of what its accounts send and of what they receive. -/
theorem sum_load (place : Address → ℕ) (k : ℕ) (txs : List Transaction) :
    (txs.map fun tx => if place tx.sender = place tx.recipient then
        (if place tx.sender = k then (1 : ℚ) else 0)
      else (if place tx.sender = k then 1 / 2 else 0) +
        if place tx.recipient = k then 1 / 2 else 0).sum =
      ((txs.filter fun tx => place tx.sender = k).length +
        (txs.filter fun tx => place tx.recipient = k).length : ℕ) / 2 := by
  induction txs with
  | nil => simp
  | cons tx txs ih =>
    rw [List.map_cons, List.sum_cons, ih, List.filter_cons, List.filter_cons]
    by_cases hhome : place tx.sender = place tx.recipient <;>
      by_cases hsender : place tx.sender = k <;> by_cases hrecipient : place tx.recipient = k <;>
      simp_all <;> ring

/-- What a phase is of the load of a shard. -/
def DetailEvent.load (k : ℕ) (e : DetailEvent) : ℚ :=
  if e.senderShardID = k then (if e.kind = .inner then 1 else 1 / 2) else 0

namespace ShardLoadVariance

/-- What the load of a shard adds up to over all epochs. -/
theorem sum_run {n : ℕ} (k : Fin n)
    (hempty : ∀ b ∈ infos, b.blockBodyLength = 0 → b.events = []) :
    ((run n infos).map fun load => load k).sum = (infos.map fun b => (b.events.map (DetailEvent.load k)).sum).sum := by
  have hrun : run n infos = EpochSeries.run BlockInfoMsg.epoch (addBlock n) (fun _ => 0)
      (infos.filter fun b => b.blockBodyLength ≠ 0) := by
    rw [EpochSeries.run, List.foldl_filter, run]
    congr 1
    funext load b
    by_cases hzero : b.blockBodyLength = 0 <;> simp [updateMeasureRecord, hzero]
  have hstep : ∀ b (load : Fin n → ℚ), addBlock n b load k =
      load k + (b.events.map (DetailEvent.load k)).sum := by
    intro b load
    by_cases hk : b.senderShardID = k
    · have hlt : b.senderShardID < n := hk ▸ k.isLt
      have hfin : (⟨b.senderShardID, hlt⟩ : Fin n) = k := Fin.ext hk
      rw [addBlock, dif_pos hlt, hfin, Function.update_self]
      simp [BlockInfoMsg.events, Function.comp_def, DetailEvent.load, hk]
      ring
    · have hother : addBlock n b load k = load k := by
        rw [addBlock]
        split
        · exact Function.update_of_ne (fun heq => hk (congrArg Fin.val heq).symm) _ _
        · rfl
      rw [hother]
      simp [BlockInfoMsg.events, Function.comp_def, DetailEvent.load, hk]
  rw [hrun]
  refine (EpochSeries.sum_run (fun load : Fin n → ℚ => load k) rfl hstep _).trans ?_
  refine sum_nonempty fun b hb hzero => ?_
  rw [hempty b hb hzero]
  rfl

end ShardLoadVariance

/-- **All modules count the injected transactions**: after a finished run, whatever the
order in which the block infos arrived and whatever the times, the epochs of each module add
up to the injected transactions, or to those between shards; and the load of each shard adds
up to half of what its accounts sent and received. -/
theorem measures_count (sys : RelaySystem H)
    (hinj : Function.Injective sys.chainConfig.hash.headerHash) (as : List NetAction)
    (s : NetState H)
    (hrun : runWith (NetState.step sys) (fun _ _ => True) (NetState.start sys) as = some s)
    (hrest : s.AtRest sys) (infos : List BlockInfoMsg)
    (hinfos : infos.Perm (runBlockInfos sys (NetState.start sys) as))
    (time : Transaction → ℕ) (stamp : BlockInfoMsg → ℕ × ℕ) (txs cross : List Transaction)
    (htxs : txs = as.flatMap NetAction.injected)
    (hcross : cross = txs.filter fun tx => sys.place tx.sender ≠ sys.place tx.recipient)
    (blocks : List (Measure.BlockInfoMsg Bytes))
    (hblocks : blocks = infos.map (BlockInfoMsg.toMeasure time stamp)) :
    (Measure.TxNumCount.outputRecord (Measure.txNumCountRelay blocks)).2 = txs.length ∧
    ((Measure.crossTxRateRelay blocks).map (·.totTxNum)).sum = txs.length ∧
    ((Measure.crossTxRateRelay blocks).map (·.totCrossTxNum)).sum = cross.length ∧
    (Measure.CrossTxRate.outputRecord (Measure.crossTxRateRelay blocks)).total =
      Measure.floatDiv cross.length txs.length ∧
    ((Measure.avgTPSRelay blocks).map (·.excutedTxNum)).sum = txs.length ∧
    ((Measure.TCLRelay.run blocks).epochs.map (·.txNum)).sum = txs.length ∧
    ∀ k : Fin sys.shardNums, ((ShardLoadVariance.run sys.shardNums infos).map fun load => load k).sum =
      ((txs.filter fun tx => sys.place tx.sender = k).length +
        (txs.filter fun tx => sys.place tx.recipient = k).length : ℕ) / 2 := by
  have hs : Settling sys s txs := htxs ▸ Settling.start.run hrun
  have h : Reported sys s txs infos := htxs ▸ Reported.of_run hinj hrun hinfos
  have hempty : ∀ b ∈ infos, b.blockBodyLength = 0 → b.events = [] := by
    obtain ⟨-, -, -, hempty, -⟩ := id h
    exact hempty
  -- the weights of the loops, for all transactions and for those between shards
  let all : DetailKind → ℚ := fun kind => if kind = .inner then 1 else 1 / 2
  let crossing : DetailKind → ℚ := fun kind => if kind = .inner then 0 else 1 / 2
  have hnum : ∀ {ε : Type} {fresh : ε} {step : Measure.BlockInfoMsg Bytes → ε → ε} {part : ε → ℚ},
      part fresh = 0 → (∀ (b : BlockInfoMsg) x, part (step (b.toMeasure time stamp) x) = part x +
        (b.innerShardTxs.length * all .inner + b.relay1Txs.length * all .relay1 +
          b.relay2Txs.length * all .relay2)) →
      ((EpochSeries.run Measure.BlockInfoMsg.epoch step fresh
        (Measure.reported blocks)).map part).sum = txs.length := by
    intro ε fresh step part hfresh hstep
    rw [hblocks, h.sum_run hs hrest part all hfresh hstep]
    exact sum_weight sys.place txs
  have htx : ((Measure.txNumCountRelay blocks).map (·.txNum)).sum = txs.length := by
    have hrun : Measure.txNumCountRelay blocks = EpochSeries.run Measure.BlockInfoMsg.epoch
        (Measure.TxNumCount.addBlock (·.relay1Txs) (·.relay2Txs)) Measure.TxNumCount.fresh
        (Measure.reported blocks) := Measure.foldl_reported blocks
    rw [hrun]
    refine hnum rfl fun b r => ?_
    simp [Measure.TxNumCount.addBlock, BlockInfoMsg.toMeasure, all]
    ring
  have hrate : Measure.crossTxRateRelay blocks = EpochSeries.run Measure.BlockInfoMsg.epoch
      (Measure.CrossTxRate.addBlock (·.relay1Txs) (·.relay2Txs)) Measure.CrossTxRate.fresh
      (Measure.reported blocks) := Measure.foldl_reported blocks
  have htot : ((Measure.crossTxRateRelay blocks).map (·.totTxNum)).sum = txs.length := by
    rw [hrate]
    refine hnum rfl fun b r => ?_
    simp [Measure.CrossTxRate.addBlock, BlockInfoMsg.toMeasure, all]
    ring
  have hctx : ((Measure.crossTxRateRelay blocks).map (·.totCrossTxNum)).sum = cross.length := by
    rw [hrate, hblocks, hcross, ← sum_cross]
    refine h.sum_run hs hrest Measure.CrossTxRecord.totCrossTxNum crossing rfl fun b r => ?_
    simp [Measure.CrossTxRate.addBlock, BlockInfoMsg.toMeasure, crossing]
    ring
  refine ⟨htx, htot, hctx, ?_, ?_, ?_, fun k => ?_⟩
  · rw [Measure.CrossTxRate.outputRecord]
    dsimp only
    rw [htot, hctx]
  · have hrun : Measure.avgTPSRelay blocks = EpochSeries.run Measure.BlockInfoMsg.epoch
        (Measure.AvgTPS.addBlock (·.relay1Txs) (·.relay2Txs)) Measure.AvgTPS.fresh
        (Measure.reported blocks) := Measure.foldl_reported blocks
    rw [hrun]
    refine hnum rfl fun b r => ?_
    simp [Measure.AvgTPS.addBlock, BlockInfoMsg.toMeasure, all]
    ring
  · have hrun : (Measure.TCLRelay.run blocks).epochs.map (·.txNum) = _ :=
      Measure.counts_of_update (fun s : Measure.TCLState Bytes => s.epochs.map (·.txNum)) rfl
        Measure.TCLRelay.map_updateMeasureRecord blocks
    rw [hrun, ← List.map_id (EpochSeries.run ..)]
    refine hnum rfl fun b r => ?_
    simp [Measure.txCount, BlockInfoMsg.toMeasure, all]
    ring
  · rw [ShardLoadVariance.sum_run k hempty, h.sum hs hrest, ← sum_load]
    rfl

/-- A payment from shard to shard, whose block infos arrive in the other order: it counts
as one transaction, and loads each shard by half. -/
theorem measures_count_cross :
    ∃ s, runWith (NetState.step twoShards) (fun _ _ => True) (NetState.start twoShards)
        (crossRun longHashed ++ [.deliver 0]) = some s ∧
      ∀ infos, infos = (runBlockInfos twoShards (NetState.start twoShards)
          (crossRun longHashed ++ [.deliver 0])).reverse →
        ∀ k : Fin twoShards.shardNums,
          ((ShardLoadVariance.run twoShards.shardNums infos).map fun load => load k).sum = 1 / 2 := by
  obtain ⟨s, hs, hrest⟩ := (Option.any_eq_true _ _).mp
    (show (runWith (NetState.step twoShards) (fun _ _ => True) (NetState.start twoShards)
      (crossRun longHashed ++ [.deliver 0])).any (fun s => decide (s.AtRest twoShards)) =
        true by decide +kernel)
  refine ⟨s, hs, fun infos hinfos => ?_⟩
  obtain ⟨-, -, -, -, -, -, hload⟩ := measures_count twoShards freeHash_injective _ s hs
    (of_decide_eq_true hrest) infos (hinfos ▸ List.reverse_perm _) (fun _ => 0) (fun _ => (0, 0))
    [longHashed] _ rfl rfl _ rfl
  intro k
  rw [hload k]
  revert k
  decide +kernel

end BlockEmulator
