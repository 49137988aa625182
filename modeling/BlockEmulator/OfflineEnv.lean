import BlockEmulator.SpringCandidate

/-!
# The offline environment (`offline_env.py`, `action_mask.py`)

`SpringOfflineEnv` places the addresses of a batch by a policy, and simulates the loads
of the batch. An exception is `none`.

* Real accounts only: the batches of the other identities are left out, and with them
  `sender_pos_mode` 2, which `run_batch` rejects for real accounts.
* State vectors, rewards and costs are left out: nothing here reads them. A policy is a
  function of the environment, from which its state vector is built.
* `SpringOfflineEnv.runBatch` — one batch.
-/

namespace BlockEmulator

/-! ## Data -/

/-- The configuration that the environment keeps. -/
structure OfflineConfig extends LoadConfig where
  /-- `max_block_size` -/
  maxBlockSize : ℕ
  /-- `sender_pos_mode` -/
  senderPosMode : ℕ
  /-- `iot_feature_dim` -/
  iotFeatureDim : ℕ
  /-- `capacity_backlog_mode` -/
  capacityBacklogMode : ℕ
  /-- `candidate_top_k` -/
  candidateTopK : ℕ
  /-- `capacity_guard` -/
  capacityGuard : ℕ
  /-- `capacity_guard_factor` -/
  capacityGuardFactor : ℚ
  /-- `candidate_load_weight` -/
  candidateLoadWeight : ℚ

/-- An entry of `recent_stats`. -/
structure OfflineStat where
  /-- `"num"` -/
  num : List ℚ
  /-- `"cross"` -/
  cross : List ℚ

/-- `SpringOfflineEnv`. -/
structure SpringOfflineEnv where
  /-- the configuration -/
  config : OfflineConfig
  /-- `addr_shard` -/
  addrShard : AddrShard
  /-- `shard_load` -/
  shardLoad : List ℕ
  /-- `pending_loads` -/
  pendingLoads : List ℚ
  /-- `pending_effective_loads` -/
  pendingEffectiveLoads : List ℚ
  /-- `pending_cross_loads` -/
  pendingCrossLoads : List ℚ
  /-- `recent_stats`: a deque of at most five -/
  recentStats : List OfflineStat
  /-- `batch_id` -/
  batchID : ℕ

/-- `SenderPosInfo`, but for the mask. -/
structure SenderPosInfo where
  /-- `sender_pos` -/
  senderPos : List ℚ
  /-- `related_summary` -/
  relatedSummary : String
  /-- `related_known` -/
  relatedKnown : Bool
  /-- `related_shard` -/
  relatedShard : ℤ
  /-- `related_weight` -/
  relatedWeight : ℚ
  /-- `related_in_current_batch` -/
  relatedInCurrentBatch : Bool
  /-- `related_count` -/
  relatedCount : ℕ

/-- `PolicyOutput`. -/
structure PolicyOutput where
  /-- `action` -/
  action : ℤ
  /-- `log_prob` -/
  logProb : ℚ
  /-- `value` -/
  value : ℚ
  /-- `confidence` -/
  confidence : ℚ
  /-- `entropy` -/
  entropy : ℚ
  /-- `source` -/
  source : String

/-- `PlacementAction`, without the states, the rewards and the costs. -/
structure PlacementAction where
  /-- `batch_id` -/
  batchID : ℕ
  /-- `address` -/
  address : Address
  /-- `related` -/
  related : String
  /-- `action` -/
  action : ℕ
  /-- `log_prob` -/
  logProb : ℚ
  /-- `value` -/
  value : ℚ
  /-- `confidence` -/
  confidence : ℚ
  /-- `entropy` -/
  entropy : ℚ
  /-- the sender position, and what goes with it -/
  info : SenderPosInfo
  /-- `same_as_related` -/
  sameAsRelated : Bool
  /-- `shard_load_before` -/
  shardLoadBefore : ℕ
  /-- `source` -/
  source : String
  /-- `action_mask` -/
  actionMask : List ℕ

/-! ## Masks (`action_mask.py`) -/

/-- `normalize_action_mask`. -/
def normalizeActionMask (mask : List ℕ) (shards : ℕ) : List ℕ :=
  if shards = 0 then []
  else
    let normalized := (List.range shards).map fun sid =>
      let value := if sid < mask.length then mask.getD sid 0 else 1
      if 0 < value then 1 else 0
    if normalized.any (· ≠ 0) then normalized else List.replicate shards 1

/-- `action_allowed`. -/
def actionAllowed (mask : List ℕ) (action : ℤ) (shards : ℕ) : Bool :=
  let normalized := normalizeActionMask mask shards
  0 ≤ action ∧ action < normalized.length ∧ 0 < normalized.getD action.toNat 0

/-- `best_allowed_action`. -/
def bestAllowedAction (scores : List ℚ) (mask : List ℕ) (shards : ℕ) : ℕ :=
  let normalized := normalizeActionMask mask shards
  (bestOf (fun sid =>
    if sid ≥ normalized.length ∨ normalized.getD sid 0 ≤ 0 then none
    else some (if sid < scores.length then scores.getD sid 0 else 0)) shards).1

/-! ## Candidates -/

namespace SpringOfflineEnv

/-- `reset`, on a new environment. -/
def new (config : OfflineConfig) : SpringOfflineEnv where
  config := config
  addrShard := ∅
  shardLoad := List.replicate config.shards 0
  pendingLoads := List.replicate config.shards 0
  pendingEffectiveLoads := List.replicate config.shards 0
  pendingCrossLoads := List.replicate config.shards 0
  recentStats := List.replicate 5
    ⟨List.replicate config.shards 0, List.replicate config.shards 0⟩
  batchID := 0

/-- `build_batch_related`. -/
def buildBatchRelated (config : OfflineConfig) (txs : List OfflineTx) : RelatedMap :=
  let add (related : RelatedMap) (a b : Address) : RelatedMap :=
    if a ≠ "" ∧ b ≠ "" ∧ a ≠ b then Function.update related a (insert b (related a)) else related
  txs.foldl (fun related tx =>
    if config.senderPosMode = 1 then add related tx.recipient tx.sender
    else add (add related tx.sender tx.recipient) tx.recipient tx.sender) fun _ => ∅

section

variable (hash : Address → ℕ) (env : SpringOfflineEnv)

/-- The counts over the loop of `build_sender_pos`: `shard_counts`, `known_count` and
`related_in_current_batch`. -/
def countRelated (batchPlacement : BatchPlacement) (c : List ℕ × ℕ × Bool) (peer : Address) :
    List ℕ × ℕ × Bool :=
  let (shardCounts, knownCount, inBatch) := c
  let fromTable : List ℕ × ℕ × Bool :=
    match env.addrShard.lookup peer with
    | some sid =>
      if sid < env.config.shards then
        (shardCounts.modify sid (· + 1), knownCount + 1, inBatch)
      else c
    | none => c
  -- what this batch has placed comes before the table
  match batchPlacement.lookup peer with
  | some sid =>
    if sid < env.config.shards then (shardCounts.modify sid (· + 1), knownCount + 1, true)
    else fromTable
  | none => fromTable

/-- `related_set` of `build_sender_pos`. -/
def relatedAddresses (addr : Address) (fallbackRelated : Option Address)
    (batchRelated : RelatedMap) : Finset Address :=
  let related := batchRelated addr
  match fallbackRelated with
  | some peer =>
    if peer ≠ "" then
      if env.config.senderPosMode ≠ 1 ∨ related = ∅ then insert peer related else related
    else related
  | none => related

/-- `build_sender_pos`. -/
def buildSenderPos (addr : Address) (fallbackRelated : Option Address)
    (batchPlacement : BatchPlacement) (batchRelated : RelatedMap) : SenderPosInfo :=
  let related := env.relatedAddresses addr fallbackRelated batchRelated
  let relatedKeys := sortedAddresses (related.filter fun peer => peer ≠ "" ∧ peer ≠ addr)
  let (shardCounts, knownCount, inBatch) := relatedKeys.foldl (countRelated env batchPlacement)
    (List.replicate env.config.shards 0, 0, false)
  let (majorCount, majorShard) := shardCounts.zipIdx.foldl (fun (m : ℕ × ℤ) (e : ℕ × ℕ) =>
    if e.1 > m.1 then (e.1, (e.2 : ℤ)) else m) (0, -1)
  let summaryKeys := relatedKeys.take 8
  let summary := String.intercalate "," summaryKeys
  { senderPos :=
      if knownCount > 0 then shardCounts.map fun (count : ℕ) => (count : ℚ) / knownCount
      else List.replicate env.config.shards 0
    relatedSummary :=
      if relatedKeys.length > summaryKeys.length then
        summary ++ ",+" ++ toString (relatedKeys.length - summaryKeys.length)
      else summary
    relatedKnown := knownCount > 0 ∧ majorShard ≥ 0
    relatedShard := majorShard
    relatedWeight := if knownCount > 0 then (majorCount : ℚ) / knownCount else 0
    relatedInCurrentBatch := inBatch
    relatedCount := relatedKeys.length }

/-- `_candidate_load_pressures`. -/
def candidateLoadPressures : List ℚ :=
  let placementTotal : ℚ := env.shardLoad.sum
  let placementScale : ℚ := max 1 env.config.maxBlockSize
  let windowCount : ℚ := max 1 env.recentStats.length
  (List.range env.config.shards).map fun sid =>
    let placement : ℚ :=
      if placementTotal > offlineEps ∧ sid < env.shardLoad.length then
        (env.shardLoad.getD sid 0 : ℚ) / placementTotal * placementScale
      else 0
    let recent : ℚ :=
      ((env.recentStats.filter fun stat => sid < stat.num.length).map fun stat =>
        stat.num.getD sid 0).sum / windowCount
    max 0 (placement + recent)

/-- `_candidate_scores`; `hash` is `addr2shard`. -/
def candidateScores (addr : Address) (senderPos : List ℚ) : List ℚ :=
  let hashSid := hash addr
  let pressures := env.candidateLoadPressures
  (List.range env.config.shards).map fun sid =>
    let relatedScore := if sid < senderPos.length then senderPos.getD sid 0 else 0
    let load := if sid < pressures.length then pressures.getD sid 0 else 0
    let score := 1000 * relatedScore - env.config.candidateLoadWeight * load
    if sid = hashSid then score + 1 / 1000 else score

/-- The capacity guard of `build_candidate_action_mask`. -/
def guarded : Option (List ℕ) :=
  if env.config.capacityGuard ≠ 0 ∧ env.shardLoad ≠ [] then
    let pressures := env.candidateLoadPressures
    let meanLoad := pressures.sum / max 1 env.config.shards
    if meanLoad > offlineEps then
      let threshold := meanLoad * env.config.capacityGuardFactor
      let guarded := (pressures.take env.config.shards).map fun load =>
        if load ≤ threshold then 1 else 0
      -- a guard that forbids every shard is none
      if guarded.any (· ≠ 0) then some guarded else none
    else none
  else none

/-- The sort key of `build_candidate_action_mask`: `(scores[sid], -sid)`. A sort in
reverse keeps `i` before `j` unless the key of `j` is greater. -/
def keyGe (scores : List ℚ) (i j : ℕ) : Bool :=
  scores.getD i 0 > scores.getD j 0 ∨ (scores.getD i 0 = scores.getD j 0 ∧ -(i : ℤ) ≥ -(j : ℤ))

/-- `build_candidate_action_mask`. -/
def buildCandidateActionMask (addr : Address) (senderPos : List ℚ) : List ℕ :=
  let shards := env.config.shards
  if shards = 0 then []
  else if env.config.candidateTopK = 0 ∧ env.config.capacityGuard = 0 then List.replicate shards 1
  else
    let mask := env.guarded.getD (List.replicate shards 1)
    let topK := env.config.candidateTopK
    let mask :=
      if topK > 0 ∧ topK < shards then
        let scores := env.candidateScores hash addr senderPos
        let allowed := (List.range shards).filter fun sid => sid < mask.length ∧ 0 < mask.getD sid 0
        -- the sort is stable: equal scores keep the order of the shards
        let allowed := allowed.mergeSort (keyGe scores)
        let keep := allowed.take (min topK allowed.length)
        (List.range shards).map fun sid => if sid ∈ keep then 1 else 0
      else mask
    normalizeActionMask mask shards

/-- `_best_candidate_action`. -/
def bestCandidateAction (addr : Address) (senderPos : List ℚ) (actionMask : List ℕ) : ℕ :=
  bestAllowedAction (env.candidateScores hash addr senderPos) actionMask env.config.shards

/-- `_safe_policy_output`. -/
def safePolicyOutput (output : PolicyOutput) (addr : Address) (senderPos : List ℚ)
    (actionMask : List ℕ) : PolicyOutput :=
  let action := output.action
  -- whatever the policy answers, the action is allowed by the mask
  if action < 0 ∨ action ≥ env.config.shards ∨
      actionAllowed actionMask action env.config.shards = false then
    { action := env.bestCandidateAction hash addr senderPos actionMask
      logProb := 0
      value := 0
      confidence := 0
      entropy := 0
      source := output.source ++ "_capacity_guard" }
  else output

end

/-! ## Placing -/

/-- `PolicyFn`. -/
abbrev PolicyFn : Type :=
  SpringOfflineEnv → Address → SenderPosInfo → List ℕ → PolicyOutput

/-- The policy that takes the best candidate. -/
def bestCandidatePolicy (hash : Address → ℕ) : PolicyFn := fun env addr info actionMask =>
  { action := env.bestCandidateAction hash addr info.senderPos actionMask
    logProb := 0
    value := 0
    confidence := 0
    entropy := 0
    source := "policy" }

/-- A batch in progress: the environment, `batch_placement` and the actions. -/
abbrev OfflinePlacing : Type := SpringOfflineEnv × BatchPlacement × List PlacementAction

/-- `_place_address`. -/
def placeAddress (hash : Address → ℕ) (policy : PolicyFn) (batchRelated : RelatedMap)
    (s : OfflinePlacing) (e : Address × Option Address) : Option OfflinePlacing :=
  let (env, batchPlacement, actions) := s
  let (addr, fallbackRelated) := e
  -- what is placed stays where it is
  if addr = "" ∨ addr ∈ env.addrShard then some s
  else
    let info := env.buildSenderPos addr fallbackRelated batchPlacement batchRelated
    let actionMask := env.buildCandidateActionMask hash addr info.senderPos
    let output := env.safePolicyOutput hash (policy env addr info actionMask) addr info.senderPos
      actionMask
    let chosenShard := output.action.toNat
    (indexAdd env.shardLoad chosenShard 1).map fun shardLoad =>
      ({ env with
          addrShard := env.addrShard.insert addr chosenShard
          shardLoad := shardLoad },
        batchPlacement.insert addr chosenShard,
        actions ++ [
          { batchID := env.batchID
            address := addr
            related := info.relatedSummary
            action := chosenShard
            logProb := output.logProb
            value := output.value
            confidence := output.confidence
            entropy := output.entropy
            info := info
            sameAsRelated :=
              if env.config.iotFeatureDim > 0 then
                info.relatedKnown && decide (chosenShard < info.senderPos.length ∧
                  info.senderPos.getD chosenShard 0 > offlineEps)
              else info.relatedKnown && decide ((chosenShard : ℤ) = info.relatedShard)
            shardLoadBefore := env.shardLoad.getD chosenShard 0
            source := output.source
            actionMask := actionMask }])

/-- `placements`: the addresses of a batch in the order in which they are placed. -/
def placements (config : OfflineConfig) (txs : List OfflineTx) : List (Address × Option Address) :=
  if config.senderPosMode = 1 then
    txs.map (fun tx => (tx.sender, none)) ++ txs.map fun tx => (tx.recipient, some tx.sender)
  else
    txs.flatMap fun tx => [(tx.sender, some tx.recipient), (tx.recipient, some tx.sender)]

/-! ## The loads of a batch -/

/-- What `_apply_capacity_backlog` commits of one kind of load. -/
def committedOf (commitRatio : List ℚ) (pressure : List ℚ) : List ℚ :=
  List.zipWith (fun ratio p => p * ratio) commitRatio pressure

/-- `_apply_capacity_backlog`: the stages and the cross-shard loads that are committed,
and what stays pending. -/
def applyCapacityBacklog (env : SpringOfflineEnv) (stageLoads : List ℕ)
    (effectiveLoads crossLoads : List ℚ) : OfflineStat × SpringOfflineEnv :=
  if env.config.capacityBacklogMode = 0 then
    -- without a backlog, all that is due is committed
    (⟨stageLoads.map fun (v : ℕ) => (v : ℚ), crossLoads⟩, env)
  else
    let shards := List.range env.config.shards
    let capacity : ℚ := max 1 env.config.maxBlockSize
    let stagePressure := shards.map fun sid =>
      max 0 (env.pendingLoads.getD sid 0 + (stageLoads.getD sid 0 : ℚ))
    let effectivePressure := shards.map fun sid =>
      max 0 (env.pendingEffectiveLoads.getD sid 0 + effectiveLoads.getD sid 0)
    let crossPressure := shards.map fun sid =>
      max 0 (env.pendingCrossLoads.getD sid 0 + crossLoads.getD sid 0)
    -- a block takes so much of the backlog, the rest waits
    let committedStage := stagePressure.map fun p => min p capacity
    let commitRatio := List.zipWith (fun p c => if p > offlineEps then c / (p + offlineEps) else 0)
      stagePressure committedStage
    let committedEffective := committedOf commitRatio effectivePressure
    let committedCross := committedOf commitRatio crossPressure
    (⟨committedStage, committedCross⟩,
      { env with
        pendingLoads := List.zipWith (fun p c => max 0 (p - c)) stagePressure committedStage
        pendingEffectiveLoads :=
          List.zipWith (fun p c => max 0 (p - c)) effectivePressure committedEffective
        pendingCrossLoads := List.zipWith (fun p c => max 0 (p - c)) crossPressure committedCross })

/-- The backlog is no part of the placement. -/
theorem applyCapacityBacklog_frame (env : SpringOfflineEnv) (stage : List ℕ)
    (effective cross : List ℚ) :
    let env' := (env.applyCapacityBacklog stage effective cross).2
    env'.config = env.config ∧ env'.addrShard = env.addrShard ∧ env'.shardLoad = env.shardLoad ∧
      env'.batchID = env.batchID := by
  unfold applyCapacityBacklog
  split
  · exact ⟨rfl, rfl, rfl, rfl⟩
  · exact ⟨rfl, rfl, rfl, rfl⟩

/-- `run_batch`, on real accounts: the environment after it, and the actions. -/
def runBatch (hash : Address → ℕ) (policy : PolicyFn) (env : SpringOfflineEnv)
    (txs : List OfflineTx) : Option (SpringOfflineEnv × List PlacementAction) :=
  let env := { env with batchID := env.batchID + 1 }
  let realAccounts := (txs.head?.map (·.realAccounts)).getD false
  if env.config.mechanismVersion = .v3 ∧ realAccounts = false then none
  else if txs.any (·.realAccounts ≠ realAccounts) then none
  else if realAccounts ∧ env.config.senderPosMode ≠ 0 ∧ env.config.senderPosMode ≠ 1 then none
  else
    ((placements env.config txs).foldlM
      (placeAddress hash policy (buildBatchRelated env.config txs)) (env, ∅, [])).bind fun s =>
    (simulateBatchLoads hash env.config.toLoadConfig txs s.1.addrShard).map fun loads =>
      let (stat, env) := applyCapacityBacklog { s.1 with addrShard := loads.2 }
        loads.1.stageLoads loads.1.effectiveLoads loads.1.crossLoads
      -- the deque drops the oldest of five
      let recentStats := env.recentStats ++ [stat]
      ({ env with recentStats := recentStats.drop (recentStats.length - 5) }, s.2.2)

end SpringOfflineEnv

end BlockEmulator
