import BlockEmulator.LocalRewardParity
import BlockEmulator.OfflineEpisode

/-!
# The diagnostics of a placement (`training_diagnostics.py`)

For every action that the mask allows, the diagnostics compute the raw local reward again:
from the shares of the shards in the recorded state, the sender position and the costs.
Shares stand in for the counts that the environment rewarded by, and a share over the
mean share is a count over the mean count.

* `placementDiagnostic` — the record of one placement.
* `iotDenseActionRewardOf_eq` — the reward is one term of the position and one of the load.
* `reconstruct_reward` — the reward of the chosen shard is the recorded one, unless both
  the shards are so many that the shares fall under the guard against a zero mean, and
  the chosen shard is not at the mean.
* `reconstruct_many_shards` — a run of the second kind.
-/

namespace BlockEmulator

open Fallible SpringOfflineEnv

/-- `PlacementAction`, with what the trainer reads of it. -/
structure RolloutAction where
  /-- `batch_id` -/
  batchID : ℕ
  /-- `state` -/
  state : List ℚ
  /-- `next_state` -/
  nextState : List ℚ
  /-- `action` -/
  action : ℕ
  /-- `log_prob` -/
  logProb : ℚ
  /-- `value` -/
  value : ℚ
  /-- `local_reward` -/
  localReward : ℚ
  /-- `sender_pos` -/
  senderPos : List ℚ
  /-- `source` -/
  source : String
  /-- `action_mask` -/
  actionMask : List ℕ
  /-- `cost_by_shard` -/
  costByShard : List ℚ

/-! ## One placement -/

/-- `iot_dense_action_reward`, on a load that need not be a count. -/
def iotDenseActionRewardOf (chosenShard : ℕ) (senderPos : List ℚ) (communicationCostWeight : ℚ)
    (shardLoadBefore loadMeanBefore lowLoadBonusWeight lowLoadBonusCap : ℚ) : ℚ × ℚ :=
  let anchorMass :=
    if chosenShard < senderPos.length then springClamp (senderPos.getD chosenShard 0) 0 1 else 0
  let crossPenalty := if senderPos.sum > offlineEps then 1 - anchorMass else 0
  let reward := 14 / 10 * anchorMass - 8 / 10 * crossPenalty
  let reward := reward - 45 / 100 * springClamp communicationCostWeight 0 1 * crossPenalty
  if loadMeanBefore > 1 / 1000000000 then
    let loadPenalty := shardLoadBefore / loadMeanBefore
    if loadPenalty > 1 then
      let overload := loadPenalty - 1
      let reward := reward - 55 / 100 * overload
      if loadPenalty > 15 / 10 then (reward - 35 / 100 * (loadPenalty - 15 / 10), loadPenalty)
      else (reward, loadPenalty)
    else
      let underuseGap := 1 - loadPenalty
      let reward := reward + 10 / 100 * underuseGap
      let bonusCap := max 0 lowLoadBonusCap
      if lowLoadBonusWeight > 0 ∧ bonusCap > 0 then
        (reward + min bonusCap (lowLoadBonusWeight * underuseGap), loadPenalty)
      else (reward, loadPenalty)
  else (reward, 0)

/-- On a count it is the reward of the environment. -/
theorem iotDenseActionRewardOf_cast (chosen : ℕ) (senderPos : List ℚ) (cost : ℚ) (load : ℕ)
    (mean weight cap : ℚ) :
    iotDenseActionReward chosen senderPos cost load mean weight cap =
      iotDenseActionRewardOf chosen senderPos cost load mean weight cap := rfl

/-- `IOT_DENSE_BALANCED_LOW_LOAD_BONUS_WEIGHT`. -/
def lowLoadBonusWeight : ℚ := 25 / 100

/-- `IOT_DENSE_BALANCED_LOW_LOAD_BONUS_CAP`. -/
def lowLoadBonusCap : ℚ := 18 / 100

/-- What the loop of `placement_diagnostics` appends for one candidate: to each of the
lists in `parts`, and to `raw`. -/
structure CandidateParts where
  /-- `"related"` -/
  related : ℚ
  /-- `"cross"` -/
  cross : ℚ
  /-- `"load"` -/
  load : ℚ
  /-- `"iot"` -/
  iot : ℚ
  /-- the entry of `raw` -/
  raw : ℚ

/-- A record of `placement_diagnostics`. -/
structure DiagnosticStep where
  /-- `batch_id` -/
  batchID : ℕ
  /-- `batch_size` -/
  batchSize : ℕ
  /-- `position` -/
  position : ℕ
  /-- `local_reward` -/
  localReward : ℚ
  /-- `local_scale` -/
  localScale : ℚ
  /-- `global_reward` -/
  globalReward : ℚ
  /-- `candidate_parts`, and `candidate_raw` with them -/
  candidateParts : List CandidateParts
  /-- `raw_reward_reconstruction_error` -/
  rawRewardReconstructionError : ℚ
  /-- `candidate_clip_spread` -/
  candidateClipSpread : ℚ
  /-- `chosen_local_regret` -/
  chosenLocalRegret : ℚ
  /-- `chosen_local_optimal` -/
  chosenLocalOptimal : Bool

/-- The shares of the shards: `action.state[11*shards:12*shards]`. -/
def RolloutAction.shares (a : RolloutAction) : List ℚ :=
  (a.state.drop (11 * a.actionMask.length)).take a.actionMask.length

/-- One candidate of `placement_diagnostics`; `none` is an `IndexError`. -/
def candidateParts (sceneCostMode : SceneCostMode) (a : RolloutAction) (sid : ℕ) :
    Option CandidateParts :=
  let mean := a.shares.sum / a.actionMask.length
  (a.shares[sid]?).bind fun share =>
  (a.senderPos[sid]?).bind fun peer =>
  (if sceneCostMode = .cross then
    (a.costByShard[sid]?).map fun own => -(45 / 100) * max 0 (a.costByShard.sum - own)
  else some 0).map fun cost =>
    let base :=
      (iotDenseActionRewardOf sid a.senderPos 0 share mean lowLoadBonusWeight lowLoadBonusCap).1
    let anchor := 14 / 10 * max 0 (min 1 peer)
    let cross := if a.senderPos.sum > offlineEps then -(8 / 10) * (1 - max 0 (min 1 peer)) else 0
    ⟨anchor, cross, base - anchor - cross, cost, base + cost⟩

/-- One round of `placement_diagnostics`; `none` is an error of Python. -/
def placementDiagnostic (localWeight scale : ℚ) (sceneCostMode : SceneCostMode)
    (batchSize position : ℕ) (a : RolloutAction) : Option DiagnosticStep :=
  let shards := a.actionMask.length
  if shards = 0 then none
  else
    let candidates := (List.range shards).filter fun i => a.actionMask.getD i 0 ≠ 0
    (candidates.mapM (candidateParts sceneCostMode a)).bind fun parts =>
    let clipped := parts.map fun part => springClamp part.raw (-1) 1
    (candidates.idxOf? a.action).bind fun selected =>
    (parts[selected]?).bind fun part =>
    (clipped.max?).bind fun most =>
    (clipped.min?).map fun least =>
      let chosen := springClamp part.raw (-1) 1
      { batchID := a.batchID
        batchSize := batchSize
        position := position
        localReward := scale * localWeight * springClamp a.localReward (-1) 1 / batchSize
        localScale := scale * localWeight / batchSize
        globalReward := 0
        candidateParts := parts
        rawRewardReconstructionError := |part.raw - a.localReward|
        candidateClipSpread := most - least
        chosenLocalRegret := most - chosen
        chosenLocalOptimal := chosen ≥ most - 1 / 100000000 }

/-- `placement_diagnostics`. -/
def placementDiagnostics (actions : List RolloutAction) (localWeight scale : ℚ)
    (sceneCostMode : SceneCostMode) : Option (List DiagnosticStep) :=
  actions.zipIdx.mapM fun e =>
    placementDiagnostic localWeight scale sceneCostMode actions.length e.2 e.1

/-! ## The terms of the reward -/

/-- What the reward has for the shard of the related addresses. -/
def positionTerm (chosenShard : ℕ) (senderPos : List ℚ) : ℚ :=
  let anchorMass :=
    if chosenShard < senderPos.length then springClamp (senderPos.getD chosenShard 0) 0 1 else 0
  14 / 10 * anchorMass - 8 / 10 * if senderPos.sum > offlineEps then 1 - anchorMass else 0

/-- What it has for the load over the mean load. -/
def loadTerm (loadPenalty : ℚ) : ℚ :=
  if loadPenalty > 1 then
    -(55 / 100) * (loadPenalty - 1) -
      if loadPenalty > 15 / 10 then 35 / 100 * (loadPenalty - 15 / 10) else 0
  else
    10 / 100 * (1 - loadPenalty) + min (18 / 100) (25 / 100 * (1 - loadPenalty))

/-- **The two terms**; without a mean load there is only the first. -/
theorem iotDenseActionRewardOf_eq (chosen : ℕ) (senderPos : List ℚ) (load mean : ℚ) :
    (iotDenseActionRewardOf chosen senderPos 0 load mean lowLoadBonusWeight lowLoadBonusCap).1 =
      positionTerm chosen senderPos + if mean > 1 / 1000000000 then loadTerm (load / mean) else 0 := by
  have hcost : springClamp 0 0 1 = 0 := by rfl
  have hbonus : (25 / 100 : ℚ) > 0 ∧ (18 / 100 : ℚ) > 0 := by norm_num
  have hcap : max 0 lowLoadBonusCap = 18 / 100 := by norm_num [lowLoadBonusCap]
  simp only [iotDenseActionRewardOf, positionTerm, hcost, mul_zero, zero_mul, sub_zero,
    hcap, lowLoadBonusWeight, if_pos hbonus]
  split
  · unfold loadTerm
    split
    · split
      · ring
      · ring
    · ring
  · ring

/-- A load is rewarded or punished unless it is the mean load. -/
theorem loadTerm_eq_zero_iff (loadPenalty : ℚ) : loadTerm loadPenalty = 0 ↔ loadPenalty = 1 := by
  constructor
  · intro h
    unfold loadTerm at h
    split at h
    next hover =>
      split at h
      · linarith
      · linarith
    next hunder =>
      by_contra hne
      have hlt : loadPenalty < 1 := lt_of_le_of_ne (not_lt.mp hunder) hne
      have hmin : 0 < min (18 / 100 : ℚ) (25 / 100 * (1 - loadPenalty)) :=
        lt_min (by norm_num) (by linarith)
      linarith
  · rintro rfl
    norm_num [loadTerm]

/-! ## The decision of the environment -/

/-- `_place_address`, with what the trainer reads of the action; `none` where there is no
action, or an error of Python. -/
def decideAddress (log1p : ℚ → ℚ) (hash : Address → ℕ) (policy : PolicyFn)
    (rewardMode : OfflineRewardMode) (e : StateEnv) (costRelations : WeightMap)
    (batchRelated : RelatedMap) (batchPlacement : BatchPlacement) (iotFeatures : List ℚ)
    (communicationCostWeight : ℚ) (addr : Address) (fallbackRelated : Option Address) :
    Option RolloutAction :=
  if addr = "" ∨ addr ∈ e.env.addrShard then none
  else
    let c := e.env.config
    (currentCostVector c.shards e.env.addrShard costRelations addr).bind fun vector =>
    let info := e.env.buildSenderPos addr fallbackRelated batchPlacement batchRelated
    (({ e with currentCostVector := vector }).buildStateFromSenderPos log1p info.senderPos
      (springAddressFlagFromRelatedCount info.relatedCount) iotFeatures).bind fun state =>
    let actionMask := e.env.buildCandidateActionMask hash addr info.senderPos
    let output := e.env.safePolicyOutput hash (policy e.env addr info actionMask) addr
      info.senderPos actionMask
    let chosenShard := output.action.toNat
    (placeLocalReward c rewardMode e.env.shardLoad vector info chosenShard
      communicationCostWeight).bind fun reward =>
    (indexAdd e.env.shardLoad chosenShard 1).bind fun shardLoad =>
    let env' := { e.env with
      addrShard := e.env.addrShard.insert addr chosenShard
      shardLoad := shardLoad }
    let nextInfo := env'.buildSenderPos addr fallbackRelated
      (batchPlacement.insert addr chosenShard) batchRelated
    (({ e with env := env', currentCostVector := vector }).buildStateFromSenderPos log1p
      nextInfo.senderPos (springAddressFlagFromRelatedCount nextInfo.relatedCount)
      iotFeatures).map fun nextState =>
      { batchID := e.env.batchID
        state := state
        nextState := nextState
        action := chosenShard
        logProb := output.logProb
        value := output.value
        localReward := reward.1
        senderPos := info.senderPos
        source := output.source
        actionMask := actionMask
        costByShard := vector }

/-- The third version, as the constructor of the environment accepts it. -/
structure V3Env (rewardMode : OfflineRewardMode) (env : SpringOfflineEnv) : Prop where
  /-- `mechanism_version` -/
  version : env.config.mechanismVersion = .v3
  /-- `reward_mode` -/
  rewardMode : rewardMode = .iotDenseBalanced
  /-- `iot_feature_dim` -/
  iotFeatureDim : env.config.iotFeatureDim = 10
  /-- one load for each shard, from `reset` on -/
  length : env.shardLoad.length = env.config.shards

/-! ## What the state keeps of the loads -/

/-- A window for each row and shard. -/
theorem windows_length {e : StateEnv} {loads : OfflineStat → List ℚ} {w : List ℚ}
    (h : e.windows loads = some w) :
    w.length = e.env.recentStats.length * e.env.config.shards := by
  obtain ⟨rows, hrows, rfl⟩ := Option.map_eq_some_iff.mp h
  have hrow : ∀ row ∈ rows, row.length = e.env.config.shards := by
    intro row hrow
    obtain ⟨stat, -, hstat⟩ := mem_mapM hrows hrow
    rw [mapM_length hstat, List.length_range]
  rw [List.length_flatten, List.map_congr_left hrow, List.map_const', List.sum_replicate,
    mapM_length hrows, Nat.nsmul_eq_mul]

/-- The vector of the costs has an entry for each shard. -/
theorem currentCostVector_length {shards : ℕ} {t : AddrShard} {relations : WeightMap}
    {addr : Address} {vector : List ℚ}
    (h : currentCostVector shards t relations addr = some vector) : vector.length = shards := by
  unfold currentCostVector at h
  dsimp only at h
  split at h
  · refine foldlM_keeps (P := fun v : List ℚ => v.length = shards) ?_ h List.length_replicate
    intro v e v' hv hstep
    split at hstep
    · obtain rfl := Option.some.inj hstep
      exact hv
    · rw [indexAdd] at hstep
      split at hstep
      · obtain rfl := Option.some.inj hstep
        exact (List.length_modify _ _ _).trans hv
      · cases hstep
  · obtain rfl := Option.some.inj h
    exact List.length_replicate

/-- The share of a shard in the loads so far. -/
def shareOf (shardLoad : List ℕ) (sid : ℕ) : ℚ := (shardLoad.getD sid 0 : ℚ) / shardLoad.sum

/-- **The shares are in the state**, behind the windows and the sender position. -/
theorem shares_of_state {log1p : ℚ → ℚ} {rewardMode : OfflineRewardMode} {e : StateEnv}
    (hv3 : V3Env rewardMode e.env) (hcosts : e.currentCostVector.length = e.env.config.shards)
    (hshards : 0 < e.env.config.shards) {senderPos : List ℚ} {flag : ℚ} {iotFeatures state : List ℚ}
    (h : e.buildStateFromSenderPos log1p senderPos flag iotFeatures = some state) :
    (state.drop (11 * e.env.config.shards)).take e.env.config.shards =
      (List.range e.env.config.shards).map (shareOf e.env.shardLoad) := by
  unfold StateEnv.buildStateFromSenderPos at h
  obtain ⟨num, hnum, h⟩ := Option.bind_eq_some_iff.mp h
  obtain ⟨cross, hcross, h⟩ := Option.bind_eq_some_iff.mp h
  have hlegacy : e.env.config.mechanismVersion ≠ .legacy := by rw [hv3.version]; decide
  have hdim : e.env.config.iotFeatureDim > 0 := by rw [hv3.iotFeatureDim]; decide
  have hnum := windows_length hnum
  have hcross := windows_length hcross
  simp only [if_neg hlegacy, if_pos hdim, if_pos hv3.version, List.append_nil] at h
  obtain ⟨hlength, h⟩ := Option.ite_none_left_eq_some.mp h
  obtain rfl := Option.some.inj h
  -- the check of the length leaves five rows of windows
  have hcostLength : (if e.featureMode = .full then
      e.currentCostVector.map fun v => springClamp v 0 1
    else List.replicate e.env.config.shards 0).length = e.env.config.shards := by
    split
    · rw [List.length_map, hcosts]
    · exact List.length_replicate
  have hrows : num.length + cross.length + e.env.config.shards = 11 * e.env.config.shards := by
    have hlength := not_not.mp hlength
    simp only [List.length_append, List.length_map, List.length_range, hcostLength, inputDim,
      stateDim, if_pos hdim, if_pos hv3.version] at hlength
    omega
  simp only [List.append_assoc]
  rw [← List.append_assoc, ← List.append_assoc, List.drop_left' (by simpa [add_assoc] using hrows),
    List.take_left' (by simp)]
  refine List.map_congr_left fun sid hsid => ?_
  have hsid : sid < e.env.shardLoad.length := by
    rw [hv3.length]
    exact List.mem_range.mp hsid
  rw [if_pos hsid, shareOf]
  split
  next => exact springClamp_share _ _
  next htotal =>
    have hzero : e.env.shardLoad.sum = 0 := by
      by_contra hne
      have hone : (1 : ℚ) ≤ e.env.shardLoad.sum := by exact_mod_cast Nat.pos_of_ne_zero hne
      exact htotal (lt_of_lt_of_le (by norm_num [offlineEps]) hone)
    rw [hzero]
    norm_num [springClamp]

/-- Placed addresses are shared out without a rest. -/
theorem sum_shares {shardLoad : List ℕ} {shards : ℕ} (h : shardLoad.length = shards) :
    ((List.range shards).map (shareOf shardLoad)).sum = if shardLoad.sum = 0 then 0 else 1 := by
  have hsum : ((List.range shards).map (shareOf shardLoad)).sum =
      (shardLoad.sum : ℚ) / shardLoad.sum := by
    unfold shareOf
    simp only [div_eq_mul_inv, List.sum_map_mul_right]
    rw [← h, map_getD_range, Nat.cast_list_sum]
  rw [hsum]
  split
  next hzero => simp [hzero]
  next hpos => exact div_self (by exact_mod_cast hpos)

/-- The sender position has an entry for each shard. -/
theorem buildSenderPos_length (env : SpringOfflineEnv) (addr : Address)
    (fallbackRelated : Option Address) (batchPlacement : BatchPlacement)
    (batchRelated : RelatedMap) :
    (env.buildSenderPos addr fallbackRelated batchPlacement batchRelated).senderPos.length =
      env.config.shards := by
  have hcount : ∀ (c : List ℕ × ℕ × Bool) (peer : Address),
      (env.countRelated batchPlacement c peer).1.length = c.1.length := by
    intro c peer
    unfold countRelated
    dsimp only
    split
    · split
      · exact List.length_modify _ _ _
      · split
        · split
          · exact List.length_modify _ _ _
          · rfl
        · rfl
    · split
      · split
        · exact List.length_modify _ _ _
        · rfl
      · rfl
  have hfold : ∀ (keys : List Address) (c : List ℕ × ℕ × Bool),
      (keys.foldl (env.countRelated batchPlacement) c).1.length = c.1.length := by
    intro keys
    induction keys with
    | nil => exact fun c => rfl
    | cons peer keys ih => exact fun c => (ih _).trans (hcount c peer)
  unfold buildSenderPos
  dsimp only
  split
  · rw [List.length_map, hfold]
    exact List.length_replicate
  · exact List.length_replicate

/-! ## The reconstruction -/

/-- The record of an action that its mask allows. -/
theorem placementDiagnostic_some (localWeight : ℚ) {scale : ℚ} {sceneCostMode : SceneCostMode}
    {batchSize position : ℕ} {a : RolloutAction}
    (haction : a.action < a.actionMask.length) (hallowed : 0 < a.actionMask.getD a.action 0)
    (hparts : ∀ sid < a.actionMask.length, (candidateParts sceneCostMode a sid).isSome) :
    ∃ part record, candidateParts sceneCostMode a a.action = some part ∧
      placementDiagnostic localWeight scale sceneCostMode batchSize position a = some record ∧
      record.rawRewardReconstructionError = |part.raw - a.localReward| := by
  have hsome : ∀ sid ∈ (List.range a.actionMask.length).filter fun i => a.actionMask.getD i 0 ≠ 0,
      (candidateParts sceneCostMode a sid).isSome :=
    fun sid hsid => hparts sid (List.mem_range.mp (List.mem_of_mem_filter hsid))
  have hcandidate : a.action ∈
      (List.range a.actionMask.length).filter fun i => a.actionMask.getD i 0 ≠ 0 :=
    List.mem_filter.mpr ⟨List.mem_range.mpr haction, by simpa using hallowed.ne'⟩
  unfold placementDiagnostic
  dsimp only
  rw [if_neg (by omega)]
  generalize (List.range a.actionMask.length).filter (fun i => a.actionMask.getD i 0 ≠ 0) =
    candidates at hsome hcandidate ⊢
  obtain ⟨parts, hmap⟩ := exists_mapM_eq_some hsome
  obtain ⟨selected, hselected⟩ : ∃ selected, candidates.idxOf? a.action = some selected :=
    Option.isSome_iff_exists.mp (by simpa using hcandidate)
  obtain ⟨hlt, hat⟩ : ∃ hlt : selected < candidates.length, candidates[selected] = a.action := by
    rw [List.idxOf?, List.findIdx?_eq_some_iff_getElem] at hselected
    obtain ⟨hlt, hbeq, -⟩ := hselected
    exact ⟨hlt, by simpa using hbeq⟩
  have hpart := getElem_mapM hmap hlt
  have hlt' : selected < parts.length := by rw [mapM_length hmap]; exact hlt
  rw [hat, List.getElem?_eq_getElem hlt'] at hpart
  have hne : parts.map (fun part => springClamp part.raw (-1) 1) ≠ [] := by
    intro hnil
    rw [List.map_eq_nil_iff.mp hnil] at hlt'
    exact absurd hlt' (Nat.not_lt_zero _)
  obtain ⟨most, hmost⟩ := Option.isSome_iff_exists.mp (List.isSome_max?_of_ne_nil hne)
  obtain ⟨least, hleast⟩ := Option.isSome_iff_exists.mp (List.isSome_min?_of_ne_nil hne)
  rw [hmap, Option.bind_some, hselected, Option.bind_some, List.getElem?_eq_getElem hlt',
    Option.bind_some, hmost, Option.bind_some, hleast, Option.map_some]
  exact ⟨parts[selected], _, hpart, rfl, rfl⟩

/-- What the costs on other shards take from the reward. -/
def sceneCost (sceneCostMode : SceneCostMode) (costByShard : List ℚ) (sid : ℕ) : ℚ :=
  if sceneCostMode = .cross then 45 / 100 * max 0 (costByShard.sum - costByShard.getD sid 0) else 0

/-- What is recorded of a decision, and how it is rewarded. -/
structure Recorded (env : SpringOfflineEnv) (a : RolloutAction) : Prop where
  /-- the mask of the shards -/
  mask : IsActionMask a.actionMask env.config.shards
  /-- the action is one of them -/
  action : a.action < env.config.shards
  /-- and it is allowed -/
  allowed : 0 < a.actionMask.getD a.action 0
  /-- the state has the shares -/
  shares : a.shares = (List.range env.config.shards).map (shareOf env.shardLoad)
  /-- one entry for each shard -/
  senderPos : a.senderPos.length = env.config.shards
  /-- one cost for each shard -/
  costs : a.costByShard.length = env.config.shards
  /-- the reward is by the counts -/
  reward : a.localReward = positionTerm a.action a.senderPos +
    (if (env.shardLoad.sum : ℚ) / env.config.shards > 1 / 1000000000 then
      loadTerm (env.shardLoad.getD a.action 0 / ((env.shardLoad.sum : ℚ) / env.config.shards))
    else 0) - sceneCost env.config.sceneCostMode a.costByShard a.action

/-- The reward of a shard, by the counts. -/
theorem placeLocalReward_eq {rewardMode : OfflineRewardMode} {env : SpringOfflineEnv}
    (hv3 : V3Env rewardMode env) {vector : List ℚ} (hcosts : vector.length = env.config.shards)
    {info : SenderPosInfo} {chosen : ℕ} {communicationCostWeight : ℚ} {reward : ℚ × ℚ}
    (h : placeLocalReward env.config rewardMode env.shardLoad vector info chosen
      communicationCostWeight = some reward) :
    chosen < env.config.shards ∧ reward.1 = positionTerm chosen info.senderPos +
      (if (env.shardLoad.sum : ℚ) / env.config.shards > 1 / 1000000000 then
        loadTerm (env.shardLoad.getD chosen 0 / ((env.shardLoad.sum : ℚ) / env.config.shards))
      else 0) - sceneCost env.config.sceneCostMode vector chosen := by
  unfold placeLocalReward at h
  obtain ⟨before, hbefore, h⟩ := Option.bind_eq_some_iff.mp h
  obtain ⟨hlt, rfl⟩ := List.getElem?_eq_some_iff.mp hbefore
  have hne : env.shardLoad ≠ [] := List.ne_nil_of_length_pos (by omega)
  have hdense : rewardMode ∈ iotDenseRewardModes ∧ env.config.iotFeatureDim > 0 := by
    rw [hv3.rewardMode, hv3.iotFeatureDim]
    decide
  have hlegacy : ¬MechanismVersion.v3 = MechanismVersion.legacy := by decide
  have hbase := iotDenseActionRewardOf_eq chosen info.senderPos env.shardLoad[chosen]
    ((env.shardLoad.sum : ℚ) / env.config.shards)
  simp only [if_pos hdense, if_pos hv3.rewardMode, if_neg hlegacy, if_pos hne, hv3.version,
    true_and, iotDenseActionRewardOf_cast, hv3.length] at h
  rw [lowLoadBonusWeight, lowLoadBonusCap] at hbase
  have hchosen : chosen < env.config.shards := by
    rw [← hv3.length]
    exact hlt
  refine ⟨hchosen, ?_⟩
  rw [List.getD_eq_getElem _ _ hlt, ← hbase]
  unfold sceneCost
  split at h
  next hcross =>
    rw [List.getElem?_eq_getElem (hcosts ▸ hchosen)] at h
    obtain rfl := Option.some.inj h
    rw [if_pos hcross, List.getD_eq_getElem _ _ (hcosts ▸ hchosen)]
  next hcross =>
    obtain rfl := Option.some.inj h
    rw [if_neg hcross, sub_zero]

theorem decideAddress_recorded {log1p : ℚ → ℚ} {hash : Address → ℕ} {policy : PolicyFn}
    {rewardMode : OfflineRewardMode} {e : StateEnv} (hv3 : V3Env rewardMode e.env)
    {costRelations : WeightMap} {batchRelated : RelatedMap} {batchPlacement : BatchPlacement}
    {iotFeatures : List ℚ} {communicationCostWeight : ℚ} {addr : Address}
    {fallbackRelated : Option Address} {a : RolloutAction}
    (h : decideAddress log1p hash policy rewardMode e costRelations batchRelated batchPlacement
      iotFeatures communicationCostWeight addr fallbackRelated = some a) : Recorded e.env a := by
  unfold decideAddress at h
  split at h
  · cases h
  obtain ⟨vector, hvector, h⟩ := Option.bind_eq_some_iff.mp h
  obtain ⟨state, hstate, h⟩ := Option.bind_eq_some_iff.mp h
  obtain ⟨reward, hreward, h⟩ := Option.bind_eq_some_iff.mp h
  obtain ⟨shardLoad, -, h⟩ := Option.bind_eq_some_iff.mp h
  obtain ⟨nextState, -, rfl⟩ := Option.map_eq_some_iff.mp h
  have hcosts := currentCostVector_length hvector
  obtain ⟨hlt, hreward⟩ := placeLocalReward_eq hv3 hcosts hreward
  have hshards : 0 < e.env.config.shards := by omega
  have hmask := buildCandidateActionMask_isActionMask hash hshards addr
    (e.env.buildSenderPos addr fallbackRelated batchPlacement batchRelated).senderPos
  refine ⟨hmask, hlt, (safePolicyOutput_allowed hash e.env _ addr _ hmask).2, ?_,
    buildSenderPos_length e.env addr fallbackRelated batchPlacement batchRelated, hcosts, hreward⟩
  unfold RolloutAction.shares
  dsimp only
  rw [hmask.length]
  exact shares_of_state (e := { e with currentCostVector := vector }) hv3 hcosts hshards hstate

/-- **The candidate parts of a recorded action**: its shares stand in for the counts. -/
theorem Recorded.candidateParts {env : SpringOfflineEnv} {a : RolloutAction} (h : Recorded env a)
    (hlength : env.shardLoad.length = env.config.shards) {sid : ℕ}
    (hsid : sid < env.config.shards) :
    ∃ part, candidateParts env.config.sceneCostMode a sid = some part ∧
      part.raw = positionTerm sid a.senderPos +
        (if (if env.shardLoad.sum = 0 then (0 : ℚ) else 1) / env.config.shards > 1 / 1000000000 then
          loadTerm (shareOf env.shardLoad sid /
            ((if env.shardLoad.sum = 0 then (0 : ℚ) else 1) / env.config.shards))
        else 0) - sceneCost env.config.sceneCostMode a.costByShard sid := by
  have hshare : a.shares[sid]? = some (shareOf env.shardLoad sid) := by
    rw [h.shares, List.getElem?_map, List.getElem?_range hsid, Option.map_some]
  unfold BlockEmulator.candidateParts
  dsimp only
  rw [hshare, Option.bind_some, List.getElem?_eq_getElem (h.senderPos ▸ hsid), Option.bind_some,
    List.getElem?_eq_getElem (h.costs ▸ hsid), Option.map_some, h.mask.length, h.shares,
    sum_shares hlength]
  simp only [iotDenseActionRewardOf_eq]
  unfold sceneCost
  by_cases hcross : env.config.sceneCostMode = .cross
  · rw [if_pos hcross, if_pos hcross, Option.map_some]
    refine ⟨_, rfl, ?_⟩
    rw [List.getD_eq_getElem _ _ (h.costs ▸ hsid)]
    ring
  · rw [if_neg hcross, if_neg hcross, Option.map_some]
    refine ⟨_, rfl, ?_⟩
    ring

/-- The two rewards have one load term, or only that of the counts has one. -/
theorem Recorded.difference {env : SpringOfflineEnv} {a : RolloutAction} (h : Recorded env a)
    (hlength : env.shardLoad.length = env.config.shards) {part : CandidateParts}
    (hpart : BlockEmulator.candidateParts env.config.sceneCostMode a a.action = some part) :
    part.raw - a.localReward =
      if 1000000000 ≤ env.config.shards ∧ env.config.shards < env.shardLoad.sum * 1000000000 then
        -loadTerm (env.shardLoad.getD a.action 0 / ((env.shardLoad.sum : ℚ) / env.config.shards))
      else 0 := by
  obtain ⟨part', hpart', hraw⟩ := h.candidateParts hlength h.action
  obtain rfl := Option.some.inj (hpart.symm.trans hpart')
  have hshards : (0 : ℚ) < env.config.shards := by exact_mod_cast h.action.pos
  rw [hraw, h.reward]
  by_cases hzero : env.shardLoad.sum = 0
  · simp [hzero]
  have htotal : (0 : ℚ) < env.shardLoad.sum := by exact_mod_cast Nat.pos_of_ne_zero hzero
  have hratio : shareOf env.shardLoad a.action / (1 / env.config.shards) =
      env.shardLoad.getD a.action 0 / ((env.shardLoad.sum : ℚ) / env.config.shards) := by
    unfold shareOf
    field_simp
  have hshares : (1 / env.config.shards : ℚ) > 1 / 1000000000 ↔ env.config.shards < 1000000000 := by
    rw [gt_iff_lt, div_lt_div_iff₀ (by norm_num) hshards, one_mul, one_mul]
    exact_mod_cast Iff.rfl
  have hcounts : (env.shardLoad.sum / env.config.shards : ℚ) > 1 / 1000000000 ↔
      env.config.shards < env.shardLoad.sum * 1000000000 := by
    rw [gt_iff_lt, div_lt_div_iff₀ (by norm_num) hshards, one_mul]
    exact_mod_cast Iff.rfl
  rw [if_neg hzero, hratio]
  simp only [hshares, hcounts]
  -- under the guard of the shares the counts are under theirs
  by_cases hfew : env.config.shards < 1000000000
  · have hcount : env.config.shards < env.shardLoad.sum * 1000000000 := by
      have := Nat.pos_of_ne_zero hzero
      omega
    rw [if_pos hfew, if_pos hcount, if_neg (by omega)]
    ring
  · rw [if_neg hfew]
    by_cases hcount : env.config.shards < env.shardLoad.sum * 1000000000
    · rw [if_pos hcount, if_pos ⟨not_lt.mp hfew, hcount⟩]
      ring
    · rw [if_neg hcount, if_neg fun hboth => hcount hboth.2]
      ring

/-- The mean load is seen, or not seen, in shares and in counts alike, or the shard is at
the mean. -/
def RewardRebuilt (env : SpringOfflineEnv) (chosenShard : ℕ) : Prop :=
  env.config.shards < 1000000000 ∨ env.shardLoad.sum * 1000000000 ≤ env.config.shards ∨
    env.shardLoad.getD chosenShard 0 * env.config.shards = env.shardLoad.sum

theorem Recorded.rebuilt_iff {env : SpringOfflineEnv} {a : RolloutAction} (h : Recorded env a)
    (hlength : env.shardLoad.length = env.config.shards) {part : CandidateParts}
    (hpart : BlockEmulator.candidateParts env.config.sceneCostMode a a.action = some part) :
    part.raw = a.localReward ↔ RewardRebuilt env a.action := by
  rw [← sub_eq_zero, h.difference hlength hpart, RewardRebuilt]
  split
  next hdiffer =>
    obtain ⟨hmany, hcount⟩ := hdiffer
    have hshards : (env.config.shards : ℚ) ≠ 0 := by exact_mod_cast h.action.pos.ne'
    have htotal : (env.shardLoad.sum : ℚ) ≠ 0 := by
      have hpos : env.shardLoad.sum ≠ 0 := by
        intro hzero
        rw [hzero] at hcount
        omega
      exact_mod_cast hpos
    rw [neg_eq_zero, loadTerm_eq_zero_iff, div_div_eq_mul_div, div_eq_one_iff_eq htotal]
    constructor
    · intro hmean
      exact .inr (.inr (by exact_mod_cast hmean))
    · rintro (hfew | hnone | hmean)
      · omega
      · omega
      · exact_mod_cast hmean
  next hsame =>
    refine ⟨fun _ => ?_, fun _ => rfl⟩
    by_cases hfew : env.config.shards < 1000000000
    · exact .inl hfew
    · exact .inr (.inl (not_lt.mp fun hcount => hsame ⟨not_lt.mp hfew, hcount⟩))

/-- **The diagnostics reconstruct the reward** of every decision, exactly where the mean
load is seen alike. -/
theorem reconstruct_reward {log1p : ℚ → ℚ} {hash : Address → ℕ} {policy : PolicyFn}
    {rewardMode : OfflineRewardMode} {e : StateEnv} (hv3 : V3Env rewardMode e.env)
    {costRelations : WeightMap} {batchRelated : RelatedMap} {batchPlacement : BatchPlacement}
    {iotFeatures : List ℚ} {communicationCostWeight : ℚ} {addr : Address}
    {fallbackRelated : Option Address} {a : RolloutAction}
    (h : decideAddress log1p hash policy rewardMode e costRelations batchRelated batchPlacement
      iotFeatures communicationCostWeight addr fallbackRelated = some a)
    (localWeight scale : ℚ) (batchSize position : ℕ) :
    ∃ part record,
      candidateParts e.env.config.sceneCostMode a a.action = some part ∧
      placementDiagnostic localWeight scale e.env.config.sceneCostMode batchSize position a =
        some record ∧
      record.rawRewardReconstructionError = |part.raw - a.localReward| ∧
      (part.raw = a.localReward ↔ RewardRebuilt e.env a.action) := by
  have hrecorded := decideAddress_recorded hv3 h
  have hmask := hrecorded.mask.length
  obtain ⟨part, record, hpart, hrecord, herror⟩ := placementDiagnostic_some localWeight
    (hmask ▸ hrecorded.action) hrecorded.allowed fun sid hsid => by
      obtain ⟨part, hpart, -⟩ := hrecorded.candidateParts hv3.length (hmask ▸ hsid)
      exact Option.isSome_iff_exists.mpr ⟨part, hpart⟩
  exact ⟨part, record, hpart, hrecord, herror, hrecorded.rebuilt_iff hv3.length hpart⟩

/-! ## A decision -/

/-- Five rows of windows, each with an entry for every shard. -/
def FullWindows (env : SpringOfflineEnv) : Prop :=
  env.recentStats.length = 5 ∧ ∀ stat ∈ env.recentStats,
    stat.num.length = env.config.shards ∧ stat.cross.length = env.config.shards

theorem windows_isSome {e : StateEnv} (loads : OfflineStat → List ℚ)
    (h : ∀ stat ∈ e.env.recentStats, (loads stat).length = e.env.config.shards) :
    ∃ w, e.windows loads = some w := by
  obtain ⟨rows, hrows⟩ := exists_mapM_eq_some (f := fun stat =>
    (List.range e.env.config.shards).mapM fun sid => (loads stat)[sid]?) fun stat hstat => by
      obtain ⟨row, hrow⟩ := exists_mapM_eq_some (l := List.range e.env.config.shards)
        (f := fun sid => (loads stat)[sid]?) fun sid hsid => by
          rw [List.getElem?_eq_getElem (by rw [h stat hstat]; exact List.mem_range.mp hsid)]
          rfl
      exact Option.isSome_iff_exists.mpr ⟨row, hrow⟩
  exact ⟨rows.flatten, by rw [StateEnv.windows, hrows, Option.map_some]⟩

/-- With full windows there is a state. -/
theorem buildStateFromSenderPos_isSome (log1p : ℚ → ℚ) {rewardMode : OfflineRewardMode}
    {e : StateEnv} (hv3 : V3Env rewardMode e.env)
    (hcosts : e.currentCostVector.length = e.env.config.shards) (hshards : 0 < e.env.config.shards)
    (hfull : FullWindows e.env) (senderPos : List ℚ) (flag : ℚ) (iotFeatures : List ℚ) :
    (e.buildStateFromSenderPos log1p senderPos flag iotFeatures).isSome := by
  obtain ⟨num, hnum⟩ := windows_isSome (e := e) (·.num)
    fun stat hstat => (hfull.2 stat hstat).1
  obtain ⟨cross, hcross⟩ := windows_isSome (e := e) (·.cross)
    fun stat hstat => (hfull.2 stat hstat).2
  have hlegacy : ¬MechanismVersion.v3 = MechanismVersion.legacy := by decide
  have hdim : (10 : ℕ) > 0 := by decide
  unfold StateEnv.buildStateFromSenderPos
  rw [hnum, hcross]
  have hnum := windows_length hnum
  have hcross := windows_length hcross
  rw [hfull.1] at hnum hcross
  simp only [Option.bind_some, hv3.version, hv3.iotFeatureDim, if_neg hlegacy, if_pos hdim,
    if_true]
  have hcostLength : (if e.featureMode = .full then
      e.currentCostVector.map fun v => springClamp v 0 1
    else List.replicate e.env.config.shards 0).length = e.env.config.shards := by
    split
    · rw [List.length_map, hcosts]
    · exact List.length_replicate
  rw [if_neg]
  · rfl
  · simp only [List.length_append, List.length_map, List.length_range, hcostLength, inputDim,
      stateDim, if_pos hdim, if_true, List.length_nil]
    omega

/-- A shard of the tables has a reward. -/
theorem exists_placeLocalReward (config : OfflineConfig) (rewardMode : OfflineRewardMode)
    (info : SenderPosInfo) (communicationCostWeight : ℚ) {shardLoad : List ℕ} {vector : List ℚ}
    {chosen : ℕ} (hload : chosen < shardLoad.length) (hvector : chosen < vector.length) :
    ∃ reward, placeLocalReward config rewardMode shardLoad vector info chosen
      communicationCostWeight = some reward := by
  unfold placeLocalReward
  rw [List.getElem?_eq_getElem hload, Option.bind_some, List.getElem?_eq_getElem hvector]
  dsimp only
  split
  · split
    · exact ⟨_, rfl⟩
    · exact ⟨_, rfl⟩
  · exact ⟨_, rfl⟩

/-- An address that is not placed is decided and recorded. -/
theorem decideAddress_isSome (log1p : ℚ → ℚ) (hash : Address → ℕ) (policy : PolicyFn)
    {rewardMode : OfflineRewardMode} {e : StateEnv} (hv3 : V3Env rewardMode e.env)
    (hshards : 0 < e.env.config.shards) (hfull : FullWindows e.env) {costRelations : WeightMap}
    (batchRelated : RelatedMap) (batchPlacement : BatchPlacement) (iotFeatures : List ℚ)
    (communicationCostWeight : ℚ) {addr : Address} (fallbackRelated : Option Address)
    (hnew : ¬(addr = "" ∨ addr ∈ e.env.addrShard))
    (hcosts : (currentCostVector e.env.config.shards e.env.addrShard costRelations addr).isSome) :
    ∃ a, decideAddress log1p hash policy rewardMode e costRelations batchRelated batchPlacement
      iotFeatures communicationCostWeight addr fallbackRelated = some a := by
  apply Option.isSome_iff_exists.mp
  obtain ⟨vector, hvector⟩ := Option.isSome_iff_exists.mp hcosts
  have hlength := currentCostVector_length hvector
  unfold decideAddress
  rw [if_neg hnew]
  dsimp only
  rw [hvector, Option.bind_some]
  generalize e.env.buildSenderPos addr fallbackRelated batchPlacement batchRelated = info
  obtain ⟨state, hstate⟩ := Option.isSome_iff_exists.mp (buildStateFromSenderPos_isSome log1p
    (e := { e with currentCostVector := vector }) hv3 hlength hshards hfull info.senderPos
    (springAddressFlagFromRelatedCount info.relatedCount) iotFeatures)
  rw [hstate, Option.bind_some]
  have hlt := (safePolicyOutput_allowed hash e.env
    (policy e.env addr info (e.env.buildCandidateActionMask hash addr info.senderPos)) addr
    info.senderPos (buildCandidateActionMask_isActionMask hash hshards addr info.senderPos)).1
  generalize (e.env.safePolicyOutput hash _ addr info.senderPos _).action.toNat = chosen at hlt ⊢
  have hchosen : chosen < e.env.shardLoad.length := by
    rw [hv3.length]
    exact hlt
  obtain ⟨reward, hreward⟩ := exists_placeLocalReward e.env.config rewardMode info
    communicationCostWeight hchosen (by rw [hlength]; exact hlt : chosen < vector.length)
  obtain ⟨shardLoad, hload, hload'⟩ := indexAdd_length hv3.length hlt 1
  rw [hreward, Option.bind_some, hload, Option.bind_some, Option.isSome_map]
  exact buildStateFromSenderPos_isSome log1p
    (e := { e with
      env := { e.env with
        addrShard := e.env.addrShard.insert addr chosen
        shardLoad := shardLoad }
      currentCostVector := vector })
    ⟨hv3.version, hv3.rewardMode, hv3.iotFeatureDim, hload'⟩ hlength hshards hfull _ _ _

/-- Two addresses on the first shard. -/
def placedTwo (shards : ℕ) : StateEnv where
  env := { SpringOfflineEnv.new
      { shards := shards, mechanismVersion := .v3, sceneCostMode := .cross, maxBlockSize := 1000,
        senderPosMode := 0, iotFeatureDim := 10, capacityBacklogMode := 0, candidateTopK := 0,
        capacityGuard := 0, capacityGuardFactor := 6 / 5, candidateLoadWeight := 1 } with
    addrShard := ((∅ : AddrShard).insert "a" 0).insert "b" 0
    shardLoad := 2 :: List.replicate (shards - 1) 0 }
  featureMode := .full
  txBatchSize := 1000
  currentCostVector := []

/-- The third address is decided there. -/
def decideThird (shards : ℕ) : Option RolloutAction :=
  decideAddress id (fun _ => 0) (fun _ _ _ _ => ⟨0, 0, 0, 0, 0, "policy"⟩) .iotDenseBalanced
    (placedTwo shards) (fun _ => ∅) (fun _ => ∅) ∅ [] 0 "c" none

theorem placedTwo_v3 {shards : ℕ} (h : 0 < shards) :
    V3Env .iotDenseBalanced (placedTwo shards).env where
  version := rfl
  rewardMode := rfl
  iotFeatureDim := rfl
  length := by
    change (2 :: List.replicate (shards - 1) 0).length = shards
    rw [List.length_cons, List.length_replicate]
    omega

theorem decideThird_isSome (shards : ℕ) (h : 0 < shards) :
    ∃ a, decideThird shards = some a := by
  refine decideAddress_isSome _ _ _ (placedTwo_v3 h) h ⟨rfl, fun stat hstat => ?_⟩ _ _ _ _ _ ?_ ?_
  · obtain rfl := List.eq_of_mem_replicate hstat
    exact ⟨List.length_replicate, List.length_replicate⟩
  · change ¬("c" = "" ∨ "c" ∈ ((∅ : AddrShard).insert "a" 0).insert "b" 0)
    decide
  · have hfree : ¬((((∅ : AList fun _ : Address => ℚ).entries.map fun e =>
        (e.1, e.2)).mergeSort fun e e' => e.1 ≤ e'.1).map (·.2)).sum > offlineEps := by
      change ¬((([] : List (Address × ℚ)).mergeSort _).map (·.2)).sum > offlineEps
      rw [List.mergeSort_nil]
      exact not_lt.mpr offlineEps_pos.le
    rw [currentCostVector, if_neg hfree]
    rfl

theorem placedTwo_sum (shards : ℕ) : (placedTwo shards).env.shardLoad.sum = 2 := by
  change (2 :: List.replicate (shards - 1) 0).sum = 2
  simp

/-- On two shards the reward is reconstructed. -/
theorem reconstruct_two_shards : ∃ a part,
    decideThird 2 = some a ∧ candidateParts .cross a a.action = some part ∧
      part.raw = a.localReward := by
  obtain ⟨a, ha⟩ := decideThird_isSome 2 (by decide)
  obtain ⟨part, -, hpart, -, -, hiff⟩ := reconstruct_reward (placedTwo_v3 (by decide)) ha 1 1 1 0
  exact ⟨a, part, ha, hpart, hiff.mpr (.inl (by decide))⟩

/-- **Too many shards**: the shares fall under the guard, the counts do not. -/
theorem reconstruct_many_shards : ∃ a part,
    decideThird 1000000000 = some a ∧ candidateParts .cross a a.action = some part ∧
      part.raw ≠ a.localReward := by
  have hshards : 0 < 1000000000 := by decide
  obtain ⟨a, ha⟩ := decideThird_isSome _ hshards
  have hv3 := placedTwo_v3 hshards
  have hrecorded := decideAddress_recorded hv3 ha
  obtain ⟨part, hpart, -⟩ := hrecorded.candidateParts hv3.length hrecorded.action
  refine ⟨a, part, ha, hpart, fun hraw => ?_⟩
  have hsum := placedTwo_sum 1000000000
  rcases (hrecorded.rebuilt_iff hv3.length hpart).mp hraw with hfew | hnone | hmean
  · exact absurd hfew (lt_irrefl 1000000000)
  · rw [hsum] at hnone
    exact absurd hnone (by decide)
  · rw [hsum] at hmean
    change _ * 1000000000 = 2 at hmean
    omega

end BlockEmulator
