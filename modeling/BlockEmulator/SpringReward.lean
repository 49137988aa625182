import BlockEmulator.SpringParams
import Mathlib.Data.Finmap

/-!
# The reward of an epoch (`springBuildFeedbackRewardRecord`)

From the statistics of one block of every shard the supervisor computes one record.
The exponential function is a parameter; with exact arithmetic the guards against
infinite values and values that are not numbers never act, and are left out.

* `springBuildFeedbackRewardRecord_congr` — **only the statistics of the shards are
  read**: what a map holds beyond the `ShardNum` shards makes no difference.
-/

namespace BlockEmulator

/-- `RewardMode`. -/
inductive RewardMode where
  /-- `"spring_legacy"` -/
  | springLegacy
  /-- `"iot_dense_balanced"` -/
  | iotDenseBalanced
  deriving DecidableEq

/-- `SpringFeedbackRewardRecord`, without the wall-clock time. -/
structure SpringFeedbackRewardRecord where
  /-- `Epoch` -/
  epoch : ℕ
  /-- `TotalTx` -/
  totalTx : ℕ
  /-- `TotalInner` -/
  totalInner : ℕ
  /-- `TotalRelay1` -/
  totalRelay1 : ℕ
  /-- `TotalRelay2` -/
  totalRelay2 : ℕ
  /-- `EffectiveTx` -/
  effectiveTx : ℚ
  /-- `CrossTx` -/
  crossTx : ℚ
  /-- `Loads` -/
  loads : List ℕ
  /-- `EffectiveLoads` -/
  effectiveLoads : List ℚ
  /-- `Inners` -/
  inners : List ℕ
  /-- `Relay1` -/
  relay1 : List ℕ
  /-- `Relay2` -/
  relay2 : List ℕ
  /-- `DecisionBatchIDs` -/
  decisionBatchIDs : List ℕ
  /-- `CrossRate` -/
  crossRate : ℚ
  /-- `RawLoadVariance` -/
  rawLoadVariance : ℚ
  /-- `NormalizedLoadVariance` -/
  normalizedLoadVariance : ℚ
  /-- `RCSTR` -/
  rCSTR : ℚ
  /-- `RWLB` -/
  rWLB : ℚ
  /-- `AbsLoadDiff` -/
  absLoadDiff : ℚ
  /-- `CommunicationCost` -/
  communicationCost : ℚ
  /-- `CommunicationCostSum` -/
  communicationCostSum : ℚ
  /-- `CommunicationCostCount` -/
  communicationCostCount : ℕ
  /-- `MaxLoadShare` -/
  maxLoadShare : ℚ
  /-- `HotspotPenalty` -/
  hotspotPenalty : ℚ
  /-- `Reward` -/
  reward : ℚ
  /-- `RewardMode` -/
  rewardMode : RewardMode
  /-- `Lambda` -/
  lambda : ℚ
  /-- `Beta` -/
  beta : ℚ
  /-- `IOTCSTRWeight` -/
  iotCSTRWeight : ℚ
  /-- `IOTBalanceWeight` -/
  iotBalanceWeight : ℚ
  /-- `IOTCommCostWeight` -/
  iotCommCostWeight : ℚ
  /-- `IOTHotspotWeight` -/
  iotHotspotWeight : ℚ
  /-- `IOTHotspotThreshold` -/
  iotHotspotThreshold : ℚ
  /-- `RunningAvgCrossRate` -/
  runningAvgCrossRate : ℚ
  /-- `RunningAvgReward` -/
  runningAvgReward : ℚ
  /-- `RunningAvgNormVar` -/
  runningAvgNormVar : ℚ
  /-- `RewardedEpochCount` -/
  rewardedEpochCount : ℕ
  deriving DecidableEq

/-- The statistics of the shards, by shard. -/
abbrev ShardStats : Type := Finmap fun _ : ℕ => SpringBlockStat

/-- Reading a Go map: the zero value where there is no entry. -/
def ShardStats.get (shardStats : ShardStats) (sid : ℕ) : SpringBlockStat :=
  (shardStats.lookup sid).getD .zero

/-- `eps`. -/
def rewardEps : ℚ := 1 / 100000000

/-- How unevenly a list of loads is spread. -/
structure Spread where
  /-- `rawVar` -/
  rawVar : ℚ
  /-- `normVar` -/
  normVar : ℚ
  /-- `normalizedAbsDiff` -/
  normalizedAbsDiff : ℚ
  /-- `balanceScore` -/
  balanceScore : ℚ
  /-- `maxLoadShare` -/
  maxLoadShare : ℚ

/-- The spread of `balanceLoads`, whose sum is `balanceTotal`, over `shardNum`
shards. -/
def spread (shardNum : ℕ) (balanceLoads : List ℚ) (balanceTotal : ℚ) : Spread :=
  let avgLoad := balanceTotal / shardNum
  let rawAbsDiff := (balanceLoads.map fun load => |load - avgLoad|).sum
  let rawVar := (balanceLoads.map fun load => (load - avgLoad) * (load - avgLoad)).sum / shardNum
  let normVar := rawVar / (avgLoad * avgLoad + rewardEps)
  let normVar := normVar / (1 + normVar)
  let maxLoadShare :=
    if balanceTotal > rewardEps then
      balanceLoads.foldl (fun m load =>
        let share := load / (balanceTotal + rewardEps)
        if share > m then share else m) 0
    else 0
  { rawVar := rawVar
    normVar := normVar
    normalizedAbsDiff := if avgLoad > rewardEps then rawAbsDiff / (avgLoad + rewardEps) else 0
    balanceScore := springClamp (1 - normVar) 0 1
    maxLoadShare := springClamp maxLoadShare 0 1 }

/-- `springBuildFeedbackRewardRecord`; `none` where it returns `false`: nothing was
executed, or second phases only. -/
def springBuildFeedbackRewardRecord (p : SpringConfig) (exp : ℚ → ℚ) (epoch : ℕ)
    (shardStats : ShardStats) : Option SpringFeedbackRewardRecord :=
  let lambda :=
    if p.springRewardLambda < 0 ∨ p.springRewardLambda > 1 then 1 / 2 else p.springRewardLambda
  let beta := if p.springRewardBeta ≤ 0 then 1 / 10 else p.springRewardBeta
  let stats := (List.range p.shardNum).map shardStats.get
  let loads := stats.map (·.numTx)
  let effectiveLoads := stats.map (·.effectiveTx)
  let totalTx := loads.sum
  let totalInner := (stats.map (·.innerTx)).sum
  let totalRelay1 := (stats.map (·.relay1Tx)).sum
  let totalRelay2 := (stats.map (·.relay2Tx)).sum
  let effectiveTx := effectiveLoads.sum
  let crossTx := (stats.map (·.crossTx)).sum
  let communicationCostSum := (stats.map (·.communicationCostSum)).sum
  let communicationCostCount := (stats.map (·.communicationCostCount)).sum
  if totalTx = 0 ∧ totalInner = 0 ∧ totalRelay1 = 0 ∧ totalRelay2 = 0 then none
  else if totalInner + totalRelay1 = 0 then none
  else if effectiveTx ≤ rewardEps then none
  else
    let crossRate := springClamp (crossTx / effectiveTx) 0 1
    let rCSTR := springClamp (1 - crossRate) 0 1
    let balanceLoads :=
      if p.springMechanismVersion = .v3 then loads.map fun load => (load : ℚ) else effectiveLoads
    let balanceTotal := if p.springMechanismVersion = .v3 then balanceLoads.sum else effectiveTx
    let s := spread p.shardNum balanceLoads balanceTotal
    let rWLB := springClamp (exp (-beta * s.normalizedAbsDiff) * s.balanceScore) 0 1
    let hotspotThreshold := springClamp p.springIOTHotspotThreshold 0 (1 - rewardEps)
    let hotspotPenalty := springClamp
      ((s.maxLoadShare - hotspotThreshold) / (1 - hotspotThreshold + rewardEps)) 0 1
    let communicationCost := springClamp
      (if communicationCostCount > 0 then communicationCostSum / communicationCostCount else 0)
      0 1
    let iot := p.springIOTMode = 1
    some
      { epoch := epoch
        totalTx := totalTx
        totalInner := totalInner
        totalRelay1 := totalRelay1
        totalRelay2 := totalRelay2
        effectiveTx := effectiveTx
        crossTx := crossTx
        loads := loads
        effectiveLoads := effectiveLoads
        inners := stats.map (·.innerTx)
        relay1 := stats.map (·.relay1Tx)
        relay2 := stats.map (·.relay2Tx)
        decisionBatchIDs := sortedKeys (stats.flatMap (·.decisionBatchIDs))
        crossRate := crossRate
        rawLoadVariance := s.rawVar
        normalizedLoadVariance := s.normVar
        rCSTR := rCSTR
        rWLB := rWLB
        absLoadDiff := s.normalizedAbsDiff
        communicationCost := communicationCost
        communicationCostSum := communicationCostSum
        communicationCostCount := communicationCostCount
        maxLoadShare := s.maxLoadShare
        hotspotPenalty := hotspotPenalty
        reward :=
          if iot then
            p.springIOTCSTRWeight * rCSTR + p.springIOTBalanceWeight * rWLB -
              p.springIOTCommCostWeight * communicationCost -
              p.springIOTHotspotWeight * hotspotPenalty
          else lambda * rCSTR + (1 - lambda) * rWLB
        rewardMode := if iot then .iotDenseBalanced else .springLegacy
        lambda := lambda
        beta := beta
        iotCSTRWeight := p.springIOTCSTRWeight
        iotBalanceWeight := p.springIOTBalanceWeight
        iotCommCostWeight := p.springIOTCommCostWeight
        iotHotspotWeight := p.springIOTHotspotWeight
        iotHotspotThreshold := hotspotThreshold
        runningAvgCrossRate := 0
        runningAvgReward := 0
        runningAvgNormVar := 0
        rewardedEpochCount := 0 }

/-- Only the entries of the `ShardNum` shards are read. -/
theorem springBuildFeedbackRewardRecord_congr (p : SpringConfig) (exp : ℚ → ℚ) (epoch : ℕ)
    {stats stats' : ShardStats} (h : ∀ sid < p.shardNum, stats.lookup sid = stats'.lookup sid) :
    springBuildFeedbackRewardRecord p exp epoch stats =
      springBuildFeedbackRewardRecord p exp epoch stats' := by
  have hstats : (List.range p.shardNum).map stats.get = (List.range p.shardNum).map stats'.get :=
    List.map_congr_left fun sid hsid => by
      rw [ShardStats.get, ShardStats.get, h sid (List.mem_range.mp hsid)]
  rw [springBuildFeedbackRewardRecord, springBuildFeedbackRewardRecord, hstats]

end BlockEmulator
