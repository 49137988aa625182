import BlockEmulator.RelayModule
import Mathlib.Algebra.Order.BigOperators.Group.List
import Mathlib.Algebra.Order.Field.Rat

/-!
# Parameters and statistics of the placement supervisor

What `params/global_config.go` sets for the SPRING supervisor, the row of scene data
it has for a transaction, and what it keeps of a committed block.

* Every `float64` is an exact rational: the model speaks of the quantities that the
  code computes, not of their rounding. So no value is infinite or not a number.
* `springBlockStat` — what `HandleBlockInfo` reads off one block message.
-/

namespace BlockEmulator

/-! ## Parameters -/

/-- `SpringMechanismVersion`; `ReadConfigFile` panics on any other text. -/
inductive MechanismVersion where
  /-- `"legacy"` -/
  | legacy
  /-- `"v3"` -/
  | v3
  deriving DecidableEq

/-- `SpringSceneCostMode`; `"legacy"` goes with the legacy mechanism only. -/
inductive SceneCostMode where
  /-- `"legacy"` -/
  | legacy
  /-- `"cross"` -/
  | cross
  /-- `"off"` -/
  | off
  deriving DecidableEq

/-- `SpringFeatureMode`. -/
inductive FeatureMode where
  /-- `"full"` -/
  | full
  /-- `"no_iot"` -/
  | noIot
  deriving DecidableEq

/-- The package variables of `params` that the supervisor reads. -/
structure SpringConfig where
  /-- `ShardNum` -/
  shardNum : ℕ
  /-- `MaxBlockSize_global` -/
  maxBlockSizeGlobal : ℕ
  /-- `TxBatchSize` -/
  txBatchSize : ℕ
  /-- `SpringMode`: which policy places addresses -/
  springMode : ℕ
  /-- `SpringOnlineTrain` -/
  springOnlineTrain : ℕ
  /-- `SpringCandidateTopK` -/
  springCandidateTopK : ℕ
  /-- `SpringCapacityGuard` -/
  springCapacityGuard : ℕ
  /-- `SpringCapacityGuardFactor` -/
  springCapacityGuardFactor : ℚ
  /-- `SpringCandidateLoadWeight` -/
  springCandidateLoadWeight : ℚ
  /-- `SpringNSShardCapacityFactor` -/
  springNSShardCapacityFactor : ℚ
  /-- `SpringRewardLambda` -/
  springRewardLambda : ℚ
  /-- `SpringRewardBeta` -/
  springRewardBeta : ℚ
  /-- `SpringSenderPosMode` -/
  springSenderPosMode : ℕ
  /-- `SpringIOTMode` -/
  springIOTMode : ℕ
  /-- `SpringIOTIdentityMode` -/
  springIOTIdentityMode : ℕ
  /-- `SpringMechanismVersion` -/
  springMechanismVersion : MechanismVersion
  /-- `SpringFeatureMode` -/
  springFeatureMode : FeatureMode
  /-- `SpringSceneCostMode` -/
  springSceneCostMode : SceneCostMode
  /-- `SpringIOTFeatureDim` -/
  springIOTFeatureDim : ℕ
  /-- `SpringIOTCSTRWeight` -/
  springIOTCSTRWeight : ℚ
  /-- `SpringIOTBalanceWeight` -/
  springIOTBalanceWeight : ℚ
  /-- `SpringIOTCommCostWeight` -/
  springIOTCommCostWeight : ℚ
  /-- `SpringIOTHotspotWeight` -/
  springIOTHotspotWeight : ℚ
  /-- `SpringIOTHotspotThreshold` -/
  springIOTHotspotThreshold : ℚ
  deriving DecidableEq

/-- The values in `global_config.go`, for some number of shards. -/
def SpringConfig.default (shardNum : ℕ) : SpringConfig where
  shardNum := shardNum
  maxBlockSizeGlobal := 1000
  txBatchSize := 1000
  springMode := 2
  springOnlineTrain := 0
  springCandidateTopK := 7
  springCapacityGuard := 0
  springCapacityGuardFactor := 3 / 2
  springCandidateLoadWeight := 1
  springNSShardCapacityFactor := 6 / 5
  springRewardLambda := 1 / 2
  springRewardBeta := 1 / 10
  springSenderPosMode := 1
  springIOTMode := 1
  springIOTIdentityMode := 1
  springMechanismVersion := .legacy
  springFeatureMode := .full
  springSceneCostMode := .legacy
  springIOTFeatureDim := 10
  springIOTCSTRWeight := 55 / 100
  springIOTBalanceWeight := 30 / 100
  springIOTCommCostWeight := 10 / 100
  springIOTHotspotWeight := 5 / 100
  springIOTHotspotThreshold := 45 / 100

/-- `springClamp`, and `springClampFloat64`. -/
def springClamp (value lo hi : ℚ) : ℚ :=
  if value < lo then lo else if value > hi then hi else value

theorem springClamp_mem {lo hi : ℚ} (h : lo ≤ hi) (value : ℚ) :
    lo ≤ springClamp value lo hi ∧ springClamp value lo hi ≤ hi := by
  rw [springClamp]
  split
  · exact ⟨le_rfl, h⟩
  · rename_i hlo
    split
    · exact ⟨h, le_rfl⟩
    · rename_i hhi
      exact ⟨not_lt.mp hlo, not_lt.mp hhi⟩

/-- What is within the bounds stays as it is. -/
theorem springClamp_eq_self {lo hi value : ℚ} (hlo : lo ≤ value) (hhi : value ≤ hi) :
    springClamp value lo hi = value := by
  rw [springClamp, if_neg (not_lt.mpr hlo), if_neg (not_lt.mpr hhi)]

/-- So does a share of all loads. -/
theorem springClamp_share (loads : List ℕ) (sid : ℕ) :
    springClamp ((loads.getD sid 0 : ℕ) / (loads.sum : ℕ)) 0 1 =
      (loads.getD sid 0 : ℕ) / (loads.sum : ℕ) := by
  have hle : loads.getD sid 0 ≤ loads.sum := by
    rw [List.getD_eq_getElem?_getD]
    cases hload : loads[sid]? with
    | none => exact Nat.zero_le _
    | some load => exact List.le_sum_of_mem (List.mem_of_getElem? hload)
  apply springClamp_eq_self
  · exact div_nonneg (Nat.cast_nonneg _) (Nat.cast_nonneg _)
  · exact div_le_one_of_le₀ (Nat.cast_le.mpr hle) (Nat.cast_nonneg _)

/-! ## Scene data -/

/-- `SpringIOTTxFeature`: the sidecar row of a transaction. -/
structure SpringIOTTxFeature where
  /-- `StateObject` -/
  stateObject : Address
  /-- `AnchorObject`: the primary anchor -/
  anchorObject : Address
  /-- `AnchorObjects` -/
  anchorObjects : List Address
  /-- `AnchorWeights` -/
  anchorWeights : List ℚ
  /-- `Features` -/
  features : List ℚ
  /-- `CommunicationCostWeight` -/
  communicationCostWeight : ℚ
  /-- `RealAccounts` -/
  realAccounts : Bool
  /-- `RecipientFeatures` -/
  recipientFeatures : List ℚ
  /-- `RecipientCommunicationCostWeight` -/
  recipientCommunicationCostWeight : ℚ
  deriving DecidableEq

/-- `springIOTByTxIndex`: the rows by the nonce of their transaction. A nil map has
none. -/
abbrev SceneRows : Type := ℕ → Option SpringIOTTxFeature

/-- `springIOTCommunicationCostForTxGroups`, the loop over one group: `seen`, the sum
and the count so far. The group of number 1 is that of `Relay1`. -/
def communicationCostForGroup (p : SpringConfig) (rows : SceneRows) (groupIndex : ℕ) :
    List Transaction → List ℕ × ℚ × ℕ → List ℕ × ℚ × ℕ
  | [], acc => acc
  | tx :: txs, (seen, sum, count) =>
    if tx.nonce ∈ seen then communicationCostForGroup p rows groupIndex txs (seen, sum, count)
    else
      match rows tx.nonce with
      | none => communicationCostForGroup p rows groupIndex txs (tx.nonce :: seen, sum, count)
      | some feature =>
        let sum :=
          if p.springMechanismVersion ≠ .v3 ∨
              (p.springSceneCostMode = .cross ∧ groupIndex = 1) then
            sum + springClamp feature.communicationCostWeight 0 1
          else sum
        communicationCostForGroup p rows groupIndex txs (tx.nonce :: seen, sum, count + 1)

/-- `springIOTCommunicationCostForTxGroups`. -/
def springIOTCommunicationCostForTxGroups (p : SpringConfig) (rows : SceneRows)
    (txGroups : List (List Transaction)) : ℚ × ℕ :=
  (txGroups.zipIdx.foldl (fun acc g => communicationCostForGroup p rows g.2 g.1 acc)
    ([], 0, 0)).2

/-! ## What is kept of a block -/

/-- `SpringBlockStat`. -/
structure SpringBlockStat where
  /-- `NumTx` -/
  numTx : ℕ
  /-- `InnerTx` -/
  innerTx : ℕ
  /-- `Relay1Tx` -/
  relay1Tx : ℕ
  /-- `Relay2Tx` -/
  relay2Tx : ℕ
  /-- `CrossTx`: each phase of a cross-shard transaction counts for one half -/
  crossTx : ℚ
  /-- `EffectiveTx` -/
  effectiveTx : ℚ
  /-- `CommunicationCostSum` -/
  communicationCostSum : ℚ
  /-- `CommunicationCostCount` -/
  communicationCostCount : ℕ
  /-- `DecisionBatchIDs` -/
  decisionBatchIDs : List ℕ
  deriving DecidableEq

/-- The zero value `SpringBlockStat{}`. -/
def SpringBlockStat.zero : SpringBlockStat := ⟨0, 0, 0, 0, 0, 0, 0, 0, []⟩

/-- The keys of a Go map that is used as a set, as `sort.Slice` leaves them. -/
def sortedKeys (keys : List ℕ) : List ℕ :=
  keys.dedup.mergeSort

/-- `springCollectDecisionBatchIDs`. -/
def springCollectDecisionBatchIDs (p : SpringConfig) (txGroups : List (List Transaction)) :
    List ℕ :=
  let txBatchSize := if p.txBatchSize = 0 then 1 else p.txBatchSize
  sortedKeys (txGroups.flatten.map fun tx => tx.nonce / txBatchSize + 1)

/-- The statistics that `HandleBlockInfo` takes from a block message. -/
def springBlockStat (p : SpringConfig) (rows : SceneRows) (b : BlockInfoMsg) : SpringBlockStat :=
  let crossTx : ℚ := ((b.relay1Txs.length + b.relay2Txs.length : ℕ) : ℚ) / 2
  let cost :=
    if p.springIOTMode = 1 then
      springIOTCommunicationCostForTxGroups p rows [b.innerShardTxs, b.relay1Txs]
    else (0, 0)
  { numTx := b.blockBodyLength
    innerTx := b.innerShardTxs.length
    relay1Tx := b.relay1Txs.length
    relay2Tx := b.relay2Txs.length
    crossTx := crossTx
    effectiveTx := b.innerShardTxs.length + crossTx
    communicationCostSum := cost.1
    communicationCostCount := cost.2
    decisionBatchIDs := springCollectDecisionBatchIDs p [b.innerShardTxs, b.relay1Txs] }

end BlockEmulator
