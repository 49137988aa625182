import BlockEmulator.StateParity
import Mathlib.Data.Rat.Floor

/-!
# The environment of a replayed decision (`replay_iot_decisions.py`)

A recorded decision holds the state vector that the supervisor built. From the vector and the
configuration file of the run an environment is built, with the shares of the placements in
the place of their numbers; its candidate functions are those of the offline environment.

* `ParamsConfig` — the configuration file, as both sides read it.
* `restoreCandidateEnv` — the environment of a decision.
* `ReplayEnv.buildCandidateActionMask`, `ReplayEnv.bestCandidateAction` — its candidates.
* `SpringOfflineEnv.buildCandidateActionMask_under` — on numbers they are the old ones.
-/

namespace BlockEmulator

/-! ## The configuration file -/

/-- The keys of `paramsConfig.json` that a replay reads; `none` is a missing key. -/
structure ParamsConfig where
  /-- `SpringMechanismVersion` -/
  springMechanismVersion : Option String
  /-- `BlockSize` -/
  blockSize : Option ℤ
  /-- `TxBatchSize` -/
  txBatchSize : Option ℤ
  /-- `SpringCandidateTopK` -/
  springCandidateTopK : Option ℤ
  /-- `SpringCapacityGuard` -/
  springCapacityGuard : Option ℤ
  /-- `SpringCapacityGuardFactor` -/
  springCapacityGuardFactor : Option ℚ
  /-- `SpringCandidateLoadWeight` -/
  springCandidateLoadWeight : Option ℚ

namespace ParamsConfig

variable (config : ParamsConfig)

/-- `SpringCapacityGuardFactor` of `ReadConfigFile`: what is not positive keeps the factor
that is set. -/
def readFactor (factor : ℚ) : ℚ :=
  let read := config.springCapacityGuardFactor.getD 0
  let factor := if read > 0 then read else factor
  if factor < 1 then 1 else factor

/-- `SpringMechanismVersion` of `ReadConfigFile`; `none` is a panic. -/
def readVersion : Option MechanismVersion :=
  let version := config.springMechanismVersion.getD ""
  if version = "" ∨ version = "legacy" then some .legacy
  else if version = "v3" then some .v3
  else none

/-- `ReadConfigFile`, of these keys. Sizes and counts below zero do as zero does, and of the
guard only matters whether it is zero. -/
def read (params : SpringConfig) : Option SpringConfig :=
  config.readVersion.map fun version =>
    { params with
      maxBlockSizeGlobal := (config.blockSize.getD 0).toNat
      txBatchSize := (config.txBatchSize.getD 0).toNat
      springCandidateTopK := (config.springCandidateTopK.getD 0).toNat
      springCapacityGuard := (config.springCapacityGuard.getD 0).natAbs
      springCapacityGuardFactor := config.readFactor params.springCapacityGuardFactor
      springCandidateLoadWeight :=
        match config.springCandidateLoadWeight with
        | none => params.springCandidateLoadWeight
        | some weight => if weight < 0 then 0 else weight
      springMechanismVersion := version }

end ParamsConfig

/-! ## Layouts -/

/-- `V3_STATE_LAYOUT`. -/
def v3StateLayout : String := "iot_cost_by_shard_no_address_flag_v3_1"

/-- `V3_PREVIOUS_STATE_LAYOUT`. -/
def v3PreviousStateLayout : String := "iot_cost_by_shard_v3"

/-- `address_flag_dim`; `none` is a `ValueError`. -/
def addressFlagDim (version : String) (layout : Option String) : Option ℕ :=
  if version = "legacy" then some 1
  else if version ≠ "v3" ∨
      layout ≠ none ∧ layout ≠ some v3StateLayout ∧ layout ≠ some v3PreviousStateLayout then none
  else some (if layout = some v3PreviousStateLayout then 1 else 0)

/-- `input_dim`, in a layout. -/
def inputDimOf (shards iotFeatureDim : ℕ) (version : String) (layout : Option String) :
    Option ℕ :=
  (addressFlagDim version layout).map fun flagDim =>
    stateDim shards iotFeatureDim + if version = "v3" then shards - 1 + flagDim else 0

/-! ## The candidate functions, on pressures -/

section Under

variable (config : OfflineConfig) (pressures : List ℚ) (hash : Address → ℕ)

/-- `_candidate_scores`, on pressures. -/
def scoresUnder (addr : Address) (senderPos : List ℚ) : List ℚ :=
  let hashSid := hash addr
  (List.range config.shards).map fun sid =>
    let relatedScore := if sid < senderPos.length then senderPos.getD sid 0 else 0
    let load := if sid < pressures.length then pressures.getD sid 0 else 0
    let score := 1000 * relatedScore - config.candidateLoadWeight * load
    if sid = hashSid then score + 1 / 1000 else score

/-- The capacity guard of `build_candidate_action_mask`, on pressures; `tracked` says that
`shard_load` is not empty. -/
def guardUnder (tracked : Prop) [Decidable tracked] : Option (List ℕ) :=
  if config.capacityGuard ≠ 0 ∧ tracked then
    let meanLoad := pressures.sum / max 1 config.shards
    if meanLoad > offlineEps then
      let threshold := meanLoad * config.capacityGuardFactor
      let guarded := (pressures.take config.shards).map fun load => if load ≤ threshold then 1 else 0
      if guarded.any (· ≠ 0) then some guarded else none
    else none
  else none

/-- `build_candidate_action_mask`, on pressures and what the guard leaves. -/
def maskUnder (guarded : Option (List ℕ)) (addr : Address) (senderPos : List ℚ) : List ℕ :=
  let shards := config.shards
  if shards = 0 then []
  else if config.candidateTopK = 0 ∧ config.capacityGuard = 0 then List.replicate shards 1
  else
    let mask := guarded.getD (List.replicate shards 1)
    let topK := config.candidateTopK
    let mask :=
      if topK > 0 ∧ topK < shards then
        let scores := scoresUnder config pressures hash addr senderPos
        let allowed := (List.range shards).filter fun sid => sid < mask.length ∧ 0 < mask.getD sid 0
        let allowed := allowed.mergeSort (SpringOfflineEnv.keyGe scores)
        let keep := allowed.take (min topK allowed.length)
        (List.range shards).map fun sid => if sid ∈ keep then 1 else 0
      else mask
    normalizeActionMask mask shards

end Under

section Offline

variable (env : SpringOfflineEnv) (hash : Address → ℕ) (addr : Address) (senderPos : List ℚ)

/-- The scores of the offline environment are those on its pressures. -/
theorem SpringOfflineEnv.candidateScores_under :
    env.candidateScores hash addr senderPos =
      scoresUnder env.config env.candidateLoadPressures hash addr senderPos := rfl

/-- The guard of the offline environment is the one on its pressures. -/
theorem SpringOfflineEnv.guarded_under :
    env.guarded = guardUnder env.config env.candidateLoadPressures (env.shardLoad ≠ []) := rfl

/-- The mask of the offline environment is the one on its pressures. -/
theorem SpringOfflineEnv.buildCandidateActionMask_under :
    env.buildCandidateActionMask hash addr senderPos =
      maskUnder env.config env.candidateLoadPressures hash env.guarded addr senderPos := rfl

end Offline

/-! ## The restored environment -/

/-- A `SpringOfflineEnv` for the candidate functions only. -/
structure ReplayEnv where
  /-- the configuration -/
  config : OfflineConfig
  /-- `shard_load`: shares -/
  shardLoad : List ℚ
  /-- the `"num"` of `recent_stats` -/
  recentStats : List (List ℚ)

namespace ReplayEnv

variable (env : ReplayEnv) (hash : Address → ℕ) (addr : Address) (senderPos : List ℚ)

/-- `_candidate_load_pressures`. -/
def candidateLoadPressures : List ℚ :=
  let placementTotal : ℚ := env.shardLoad.sum
  let placementScale : ℚ := max 1 env.config.maxBlockSize
  let windowCount : ℚ := max 1 env.recentStats.length
  (List.range env.config.shards).map fun sid =>
    let placement : ℚ :=
      if placementTotal > offlineEps ∧ sid < env.shardLoad.length then
        env.shardLoad.getD sid 0 / placementTotal * placementScale
      else 0
    let recent : ℚ :=
      ((env.recentStats.filter fun num => sid < num.length).map fun num => num.getD sid 0).sum /
        windowCount
    max 0 (placement + recent)

/-- `_candidate_scores`. -/
def candidateScores : List ℚ :=
  scoresUnder env.config env.candidateLoadPressures hash addr senderPos

/-- The capacity guard of `build_candidate_action_mask`. -/
def guarded : Option (List ℕ) :=
  guardUnder env.config env.candidateLoadPressures (env.shardLoad ≠ [])

/-- `build_candidate_action_mask`. -/
def buildCandidateActionMask : List ℕ :=
  maskUnder env.config env.candidateLoadPressures hash env.guarded addr senderPos

/-- `_best_candidate_action`. -/
def bestCandidateAction (actionMask : List ℕ) : ℕ :=
  bestAllowedAction (env.candidateScores hash addr senderPos) actionMask env.config.shards

end ReplayEnv

/-- `round(x)`: to the even number where two are equally near. -/
def pyRound (x : ℚ) : ℤ :=
  let low := ⌊x⌋
  if x - low < 1 / 2 then low
  else if x - low > 1 / 2 then low + 1
  else if low % 2 = 0 then low else low + 1

section Restore

variable (log1p expm1 : ℚ → ℚ)

/-- The count behind an entry of the state; `none` is a `ValueError`. -/
def restoreCount (denom value : ℚ) : Option ℚ :=
  if value ≥ 1 then none
  else
    let count := expm1 (value * log1p (denom * 4))
    if |count - pyRound count| > 1 / 1000000 then none else some (pyRound count)

/-- `SpringOfflineEnv(...)`, as a replay calls it; `none` is a `ValueError`. -/
def replayConfig (shards : ℕ) (block batch topK guard : ℤ) (factor weight : ℚ) :
    Option OfflineConfig :=
  if shards = 0 ∨ batch ≤ 0 then none
  else some {
    shards := shards
    mechanismVersion := .legacy
    sceneCostMode := .legacy
    maxBlockSize := block.toNat
    senderPosMode := 1
    iotFeatureDim := 10
    capacityBacklogMode := 0
    candidateTopK := topK.toNat
    capacityGuard := guard.natAbs
    capacityGuardFactor := max 1 factor
    candidateLoadWeight := max 0 weight }

/-- `restore_candidate_env`; `none` is an exception. -/
def restoreCandidateEnv (config : ParamsConfig) (state : List ℚ) (shards : ℕ)
    (layout : Option String) : Option ReplayEnv := do
  let version := config.springMechanismVersion.getD "legacy"
  let dim ← inputDimOf shards 10 version layout
  if state.length ≠ dim ∨ ¬ ∀ v ∈ state, 0 ≤ v ∧ v ≤ 1 then none
  else
    let block ← config.blockSize
    let batch ← config.txBatchSize
    let denom : ℚ := if max block batch > 0 then ((max block batch : ℤ) : ℚ) else 100
    let counts ← (state.take (5 * shards)).mapM (restoreCount log1p expm1 denom)
    let topK ← config.springCandidateTopK
    let guard ← config.springCapacityGuard
    let factor ← config.springCapacityGuardFactor
    let weight ← config.springCandidateLoadWeight
    let offline ← replayConfig shards block batch topK guard factor weight
    let flagDim ← addressFlagDim version layout
    let offset := 11 * shards + flagDim
    some {
      config := offline
      shardLoad := (state.drop offset).take shards
      recentStats := (List.range 5).map fun i => (counts.drop (i * shards)).take shards }

end Restore

end BlockEmulator
