import BlockEmulator.SpringPlacement
import BlockEmulator.SpringReward

/-!
# Online training (`spring_train.go`)

What is placed by the policy is enqueued as a batch of actions. The feedback of the
blocks that execute the transactions of a batch arrives later, over several epochs; when
enough of it is collected, the batch is emitted in an update request.

* Batches are told apart by their IDs. Wall-clock times, the log and the checkpoint
  configuration are left out.
* `sort` stands for `sort.Slice`, which is not stable: any function that sorts by the
  batch IDs.
* `springBuildOnlineUpdateInputLocked` — one record of feedback.
-/

namespace BlockEmulator

/-! ## Data -/

/-- `SpringTrainAction` in the training: with a reward, and the mark of the last one. -/
structure OnlineAction extends SpringTrainAction where
  /-- `Reward` -/
  reward : ℚ
  /-- `Done` -/
  done : Bool

/-- What `SpringFeedbackAggregate` has sums of. -/
inductive FeedbackMetric where
  /-- `RewardSum` -/
  | reward
  /-- `CrossRateSum` -/
  | crossRate
  /-- `EffectiveTxSum` -/
  | effectiveTx
  /-- `CrossTxSum` -/
  | crossTx
  /-- `NormalizedLoadVarianceSum` -/
  | normalizedLoadVariance
  /-- `RCSTRSum` -/
  | rCSTR
  /-- `RWLBSum` -/
  | rWLB
  /-- `AbsLoadDiffSum` -/
  | absLoadDiff
  /-- `CommunicationCostSum` -/
  | communicationCost
  /-- `MaxLoadShareSum` -/
  | maxLoadShare
  /-- `HotspotPenaltySum` -/
  | hotspotPenalty
  /-- `LambdaSum` -/
  | lambda
  /-- `BetaSum` -/
  | beta
  /-- `TotalTxSum` -/
  | totalTx
  /-- `TotalInnerSum` -/
  | totalInner
  /-- `TotalRelay1Sum` -/
  | totalRelay1
  /-- `TotalRelay2Sum` -/
  | totalRelay2

/-- The field of a record that is summed. -/
def SpringFeedbackRewardRecord.metric (record : SpringFeedbackRewardRecord) : FeedbackMetric → ℚ
  | .reward => record.reward
  | .crossRate => record.crossRate
  | .effectiveTx => record.effectiveTx
  | .crossTx => record.crossTx
  | .normalizedLoadVariance => record.normalizedLoadVariance
  | .rCSTR => record.rCSTR
  | .rWLB => record.rWLB
  | .absLoadDiff => record.absLoadDiff
  | .communicationCost => record.communicationCost
  | .maxLoadShare => record.maxLoadShare
  | .hotspotPenalty => record.hotspotPenalty
  | .lambda => record.lambda
  | .beta => record.beta
  | .totalTx => record.totalTx
  | .totalInner => record.totalInner
  | .totalRelay1 => record.totalRelay1
  | .totalRelay2 => record.totalRelay2

/-- `SpringFeedbackAggregate`. -/
structure SpringFeedbackAggregate where
  /-- `Count` -/
  count : ℕ
  /-- `FirstEpoch` -/
  firstEpoch : ℕ
  /-- `LastEpoch` -/
  lastEpoch : ℕ
  /-- `WeightSum` -/
  weightSum : ℚ
  /-- the sums -/
  sum : FeedbackMetric → ℚ

/-- The zero value. -/
def SpringFeedbackAggregate.zero : SpringFeedbackAggregate := ⟨0, 0, 0, 0, fun _ => 0⟩

/-- `SpringTrainBatch`. -/
structure SpringTrainBatch where
  /-- `BatchID` -/
  batchID : ℕ
  /-- `TxStartNonce` -/
  txStartNonce : ℕ
  /-- `TxEndNonce` -/
  txEndNonce : ℕ
  /-- `TxCount` -/
  txCount : ℕ
  /-- `IsFinalBatch` -/
  isFinalBatch : Bool
  /-- `FeedbackMatches` -/
  feedbackMatches : ℕ
  /-- `LastFeedbackEpoch` -/
  lastFeedbackEpoch : ℕ
  /-- `FirstFeedbackEpoch` -/
  firstFeedbackEpoch : ℕ
  /-- `FeedbackAggregate` -/
  feedbackAggregate : SpringFeedbackAggregate
  /-- `Actions` -/
  actions : List OnlineAction

/-- `SpringOnlineUpdateInput`. -/
structure SpringOnlineUpdateInput where
  /-- `BatchID` -/
  batchID : ℕ
  /-- `MatchedBatchIDs` -/
  matchedBatchIDs : List ℕ
  /-- `TxStartNonce` -/
  txStartNonce : ℕ
  /-- `TxEndNonce` -/
  txEndNonce : ℕ
  /-- `TxCount` -/
  txCount : ℕ
  /-- `FeedbackEpoch` -/
  feedbackEpoch : ℕ
  /-- `Shards` -/
  shards : ℕ
  /-- `IOTFeatureDim` -/
  iotFeatureDim : ℕ
  /-- `Actions` -/
  actions : List OnlineAction
  /-- `NextStates` -/
  nextStates : List (List ℚ)
  /-- `Done` -/
  done : Bool
  /-- `Reward`, `CrossRate` and the other means, but for the counts of transactions -/
  mean : FeedbackMetric → ℚ
  /-- `RewardMode` -/
  rewardMode : RewardMode
  /-- `TotalTx` -/
  totalTx : ℕ
  /-- `TotalInner` -/
  totalInner : ℕ
  /-- `TotalRelay1` -/
  totalRelay1 : ℕ
  /-- `TotalRelay2` -/
  totalRelay2 : ℕ
  /-- `RunningAvgCrossRate` -/
  runningAvgCrossRate : ℚ
  /-- `RunningAvgReward` -/
  runningAvgReward : ℚ
  /-- `RunningAvgNormVar` -/
  runningAvgNormVar : ℚ
  /-- `RewardedEpochCount` -/
  rewardedEpochCount : ℕ
  /-- `FlushUpdate` -/
  flushUpdate : Bool
  /-- `FeedbackAggregateCount` -/
  feedbackAggregateCount : ℕ
  /-- `FeedbackFirstEpoch` -/
  feedbackFirstEpoch : ℕ
  /-- `FeedbackLastEpoch` -/
  feedbackLastEpoch : ℕ
  /-- `FeedbackWeightSum` -/
  feedbackWeightSum : ℚ
  /-- `FeedbackAggregateWindow` -/
  feedbackAggregateWindow : ℕ
  /-- `FeedbackMaxMatches` -/
  feedbackMaxMatches : ℕ

/-- The part of `RelayCommitteeModule` that the training works on. -/
structure TrainingState where
  /-- `springPendingTrainBatches` -/
  springPendingTrainBatches : List SpringTrainBatch
  /-- `springTrainedBatchIDs`: `false` where there is no entry -/
  springTrainedBatchIDs : ℕ → Bool

/-- `springPendingFeedbackTTL`. -/
def springPendingFeedbackTTL : ℕ := 10

/-- `springFeedbackAggregateWindow`. -/
def springFeedbackAggregateWindow : ℕ := 6

/-- `springMaxTrainFeedbackMatches`. -/
def springMaxTrainFeedbackMatches : ℕ := 8

/-- `springFeedbackDecay`. -/
def springFeedbackDecay : ℚ := 85 / 100

/-- `springActionRewardScale`. -/
def springActionRewardScale : ℚ := 1 / 10

/-! ## Feedback -/

/-- `springRoundToInt`. -/
def springRoundToInt (v : ℚ) : ℕ := if v ≤ 0 then 0 else (v + 1 / 2).floor.toNat

/-- `springFeedbackWeight`. -/
def springFeedbackWeight (matchIndex : ℕ) : ℚ :=
  if matchIndex = 0 then 1 else springFeedbackDecay ^ matchIndex

namespace SpringFeedbackAggregate

/-- `add`. -/
def add (agg : SpringFeedbackAggregate) (record : SpringFeedbackRewardRecord) (weight : ℚ) :
    SpringFeedbackAggregate :=
  let weight := if weight ≤ 0 then 1 else weight
  { count := agg.count + 1
    firstEpoch := if agg.count = 0 then record.epoch else agg.firstEpoch
    lastEpoch := record.epoch
    weightSum := agg.weightSum + weight
    sum := fun m => agg.sum m + record.metric m * weight }

/-- `mean`, and `reward()`, `crossRate()` and so on. -/
def mean (agg : SpringFeedbackAggregate) (m : FeedbackMetric) : ℚ :=
  if agg.weightSum ≤ 0 then 0 else agg.sum m / agg.weightSum

end SpringFeedbackAggregate

/-- `springBatchReadyForTraining`. -/
def springBatchReadyForTraining (batch : SpringTrainBatch) (currentEpoch : ℕ)
    (flushUpdate : Bool) : Bool :=
  if batch.feedbackAggregate.count = 0 ∨ batch.feedbackAggregate.weightSum ≤ 0 then false
  else if flushUpdate then true
  else if batch.feedbackAggregate.count ≥ springMaxTrainFeedbackMatches then true
  else (currentEpoch : ℤ) - batch.feedbackAggregate.firstEpoch ≥ springFeedbackAggregateWindow

/-! ## Enqueuing and pruning -/

/-- The arguments of `springEnqueueTrainActionsLocked`. -/
structure TrainBatchArgs where
  /-- `batchID` -/
  batchID : ℕ
  /-- `actions` -/
  actions : List OnlineAction
  /-- `txStartNonce` -/
  txStartNonce : ℕ
  /-- `txEndNonce` -/
  txEndNonce : ℕ
  /-- `txCount` -/
  txCount : ℕ
  /-- `isFinalBatch` -/
  isFinalBatch : Bool

/-- `newBatch`. -/
def TrainBatchArgs.newBatch (args : TrainBatchArgs) : SpringTrainBatch where
  batchID := args.batchID
  txStartNonce := args.txStartNonce
  txEndNonce := args.txEndNonce
  txCount := args.txCount
  isFinalBatch := args.isFinalBatch
  feedbackMatches := 0
  lastFeedbackEpoch := 0
  firstFeedbackEpoch := 0
  feedbackAggregate := .zero
  actions := args.actions

namespace TrainingState

/-- `NewRelayCommitteeModule`. -/
def new : TrainingState := ⟨[], fun _ => false⟩

/-- `springEnqueueTrainActionsLocked`: the last batch is replaced by one of its ID. -/
def springEnqueueTrainActionsLocked (st : TrainingState) (args : TrainBatchArgs) :
    TrainingState :=
  let pending := st.springPendingTrainBatches
  let appended := { st with springPendingTrainBatches := pending ++ [args.newBatch] }
  if args.batchID = 0 ∨ args.actions = [] then st
  else
    match pending.getLast? with
    | some last =>
      if last.batchID = args.batchID then
        -- of two with one ID the one with more actions stays
        if args.actions.length ≥ last.actions.length then
          { st with springPendingTrainBatches := pending.dropLast ++ [args.newBatch] }
        else st
      else appended
    | none => appended

end TrainingState

/-- Whether a batch is pruned at an epoch for its age: its feedback has waited too long,
or it has none. -/
def SpringTrainBatch.stale (batch : SpringTrainBatch) (currentEpoch : ℕ) : Bool :=
  (0 < batch.feedbackAggregate.count ∧
    (currentEpoch : ℤ) - batch.feedbackAggregate.firstEpoch >
      springPendingFeedbackTTL + springFeedbackAggregateWindow) ∨
  (batch.feedbackAggregate.count = 0 ∧
    (currentEpoch : ℤ) - batch.batchID > springPendingFeedbackTTL)

/-- `springPrunePendingTrainBatchesLocked`. -/
def TrainingState.springPrunePendingTrainBatchesLocked (st : TrainingState) (currentEpoch : ℕ) :
    TrainingState :=
  { st with springPendingTrainBatches := st.springPendingTrainBatches.filter fun batch =>
      !st.springTrainedBatchIDs batch.batchID && !batch.stale currentEpoch }

/-! ## The update request -/

/-- A batch with one more record of feedback. -/
def SpringTrainBatch.matchFeedback (batch : SpringTrainBatch)
    (record : SpringFeedbackRewardRecord) : SpringTrainBatch :=
  { batch with
    feedbackAggregate :=
      batch.feedbackAggregate.add record (springFeedbackWeight batch.feedbackMatches)
    lastFeedbackEpoch := record.epoch
    firstFeedbackEpoch :=
      if batch.firstFeedbackEpoch = 0 then record.epoch else batch.firstFeedbackEpoch
    feedbackMatches := batch.feedbackMatches + 1 }

/-- The loop over the pending batches, in progress. -/
structure Collecting where
  /-- `flushUpdate` -/
  flushUpdate : Bool
  /-- `readyBatches` -/
  readyBatches : List SpringTrainBatch
  /-- `remainingBatches` -/
  remainingBatches : List SpringTrainBatch

/-- One round of it. -/
def collectBatch (springTrainedBatchIDs : ℕ → Bool) (targetBatchSet : List ℕ)
    (rewardRecord : SpringFeedbackRewardRecord) (c : Collecting) (batch : SpringTrainBatch) :
    Collecting :=
  -- trained already: it is neither ready nor remaining
  if springTrainedBatchIDs batch.batchID then c
  else
    let batch :=
      if batch.batchID ∈ targetBatchSet ∧ batch.feedbackMatches < springMaxTrainFeedbackMatches then
        batch.matchFeedback rewardRecord
      else batch
    let flushUpdate := c.flushUpdate || batch.isFinalBatch
    if springBatchReadyForTraining batch rewardRecord.epoch flushUpdate then
      { c with flushUpdate := flushUpdate, readyBatches := c.readyBatches ++ [batch] }
    else { c with flushUpdate := flushUpdate, remainingBatches := c.remainingBatches ++ [batch] }

/-- The actions of a batch in the update request, with their rewards. -/
def shapedActions (p : SpringConfig) (batch : SpringTrainBatch) : List OnlineAction :=
  let localRewardWeight : ℚ := if springIOTEnabled p then 65 / 100 else 0
  let blockSignal := springClamp (batch.feedbackAggregate.mean .reward) (-1) 1
  batch.actions.map fun action =>
    let localSignal := springClamp action.localReward (-1) 1
    let shapedReward := localRewardWeight * localSignal + (1 - localRewardWeight) * blockSignal
    { action with
      reward := springActionRewardScale * springClamp shapedReward (-1) 1
      done := false }

/-- `actions[len(actions)-1].Done = true`. -/
def markLastDone (actions : List OnlineAction) : List OnlineAction :=
  actions.modify (actions.length - 1) fun action => { action with done := true }

/-- `nextStates`: the state of the next action, else the next state of the action, else
its own. -/
def nextStates : List OnlineAction → List (List ℚ)
  | [] => []
  | action :: actions =>
    let own := if 0 < action.nextState.length then action.nextState else action.state
    (match actions.head? with
      | some next => if 0 < next.state.length then next.state else own
      | none => own) :: nextStates actions

/-- The metric of the ready batches, each weighted by its number of actions. -/
def avgMetric (readyBatches : List SpringTrainBatch) (m : FeedbackMetric) : ℚ :=
  let metricWeight (batch : SpringTrainBatch) : ℚ :=
    if batch.actions.length = 0 then 1 else batch.actions.length
  let metricWeightSum := (readyBatches.map metricWeight).sum
  if metricWeightSum ≤ 0 then 0
  else
    (readyBatches.map fun batch => batch.feedbackAggregate.mean m * metricWeight batch).sum /
      metricWeightSum

/-- `feedbackFirstEpoch`. -/
def feedbackFirstEpoch (readyBatches : List SpringTrainBatch) : ℕ :=
  readyBatches.foldl (fun first batch =>
    let agg := batch.feedbackAggregate
    if first = 0 ∨ (agg.firstEpoch > 0 ∧ agg.firstEpoch < first) then agg.firstEpoch else first) 0

/-- The update request for batches that are ready. -/
def onlineUpdateInput (p : SpringConfig) (rewardRecord : SpringFeedbackRewardRecord)
    (flushUpdate : Bool) (readyBatches : List SpringTrainBatch) : SpringOnlineUpdateInput :=
  let matchedIDs := readyBatches.map (·.batchID)
  let actions := markLastDone (readyBatches.flatMap (shapedActions p))
  let txStartNonce := (readyBatches.head?.map (·.txStartNonce)).getD 0
  { batchID := matchedIDs.headD 0
    matchedBatchIDs := matchedIDs
    txStartNonce := readyBatches.foldl (fun n batch => min n batch.txStartNonce) txStartNonce
    txEndNonce := readyBatches.foldl (fun n batch => max n batch.txEndNonce) 0
    txCount := (readyBatches.map (·.txCount)).sum
    feedbackEpoch := rewardRecord.epoch
    shards := p.shardNum
    iotFeatureDim := springConfiguredIOTFeatureDim p
    actions := actions
    nextStates := nextStates actions
    done := true
    mean := avgMetric readyBatches
    rewardMode := rewardRecord.rewardMode
    totalTx := springRoundToInt (avgMetric readyBatches .totalTx)
    totalInner := springRoundToInt (avgMetric readyBatches .totalInner)
    totalRelay1 := springRoundToInt (avgMetric readyBatches .totalRelay1)
    totalRelay2 := springRoundToInt (avgMetric readyBatches .totalRelay2)
    runningAvgCrossRate := rewardRecord.runningAvgCrossRate
    runningAvgReward := rewardRecord.runningAvgReward
    runningAvgNormVar := rewardRecord.runningAvgNormVar
    rewardedEpochCount := rewardRecord.rewardedEpochCount
    flushUpdate := flushUpdate || readyBatches.any (·.isFinalBatch)
    feedbackAggregateCount := (readyBatches.map (·.feedbackAggregate.count)).sum
    feedbackFirstEpoch := feedbackFirstEpoch readyBatches
    feedbackLastEpoch := readyBatches.foldl (fun last batch =>
      max last batch.feedbackAggregate.lastEpoch) 0
    feedbackWeightSum := (readyBatches.map (·.feedbackAggregate.weightSum)).sum
    feedbackAggregateWindow := springFeedbackAggregateWindow
    feedbackMaxMatches := springMaxTrainFeedbackMatches }

section

variable (p : SpringConfig) (sort : List SpringTrainBatch → List SpringTrainBatch)

/-- `springBuildOnlineUpdateInputLocked`; `none` where it returns `false`. -/
def TrainingState.springBuildOnlineUpdateInputLocked (st : TrainingState)
    (nowDataNum dataTotalNum : ℕ) (rewardRecord : SpringFeedbackRewardRecord) :
    TrainingState × Option SpringOnlineUpdateInput :=
  if st.springPendingTrainBatches = [] then (st, none)
  else
    let targetBatchSet := rewardRecord.decisionBatchIDs.filter fun bid =>
      !st.springTrainedBatchIDs bid
    let c := st.springPendingTrainBatches.foldl
      (collectBatch st.springTrainedBatchIDs targetBatchSet rewardRecord)
      ⟨decide (nowDataNum ≥ dataTotalNum), [], []⟩
    let st := { st with springPendingTrainBatches := c.remainingBatches }
    let st := st.springPrunePendingTrainBatchesLocked rewardRecord.epoch
    if c.readyBatches = [] then (st, none)
    else
      let readyBatches := sort c.readyBatches
      if readyBatches.flatMap (shapedActions p) = [] then (st, none)
      else
        let trained (bid : ℕ) : Bool :=
          decide (bid ∈ readyBatches.map (·.batchID)) || st.springTrainedBatchIDs bid
        ({ st with springTrainedBatchIDs := trained },
          some (onlineUpdateInput p rewardRecord c.flushUpdate readyBatches))

/-! ## Runs -/

/-- A call of the training, under `springLock`. -/
inductive TrainingCall where
  /-- `springEnqueueTrainActionsLocked` -/
  | enqueue (args : TrainBatchArgs)
  /-- `springBuildOnlineUpdateInputLocked`, with the progress of the data -/
  | feedback (nowDataNum dataTotalNum : ℕ) (rewardRecord : SpringFeedbackRewardRecord)
  /-- `springPrunePendingTrainBatchesLocked` -/
  | prune (currentEpoch : ℕ)

/-- The training after some calls. -/
structure TrainingRun where
  /-- the module -/
  state : TrainingState
  /-- the calls -/
  calls : List TrainingCall
  /-- the update requests that were emitted -/
  updates : List SpringOnlineUpdateInput

namespace TrainingRun

/-- Before the first call. -/
def new : TrainingRun := ⟨.new, [], []⟩

/-- One call. -/
def step (run : TrainingRun) (call : TrainingCall) : Option TrainingRun :=
  let calls := run.calls ++ [call]
  match call with
  | .enqueue args =>
    some { run with state := run.state.springEnqueueTrainActionsLocked args, calls := calls }
  | .feedback nowDataNum dataTotalNum rewardRecord =>
    let r := run.state.springBuildOnlineUpdateInputLocked p sort nowDataNum dataTotalNum rewardRecord
    some { state := r.1, calls := calls, updates := run.updates ++ r.2.toList }
  | .prune currentEpoch =>
    some { run with
      state := run.state.springPrunePendingTrainBatchesLocked currentEpoch
      calls := calls }

end TrainingRun

end

end BlockEmulator
