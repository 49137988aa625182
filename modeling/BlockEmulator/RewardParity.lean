import BlockEmulator.OfflineLoads
import BlockEmulator.SpringReward
import Mathlib.Tactic.Linarith

/-!
# The reward of an epoch on both sides (`spring_reward`)

The environment computes the reward of a batch from three lists of loads; the
supervisor that of an epoch from the statistics of the shards. Each takes the loads
whose spread counts from a place of its own.

* `max_clamped` — the largest of the clamped shares is the largest share, clamped.
* `springReward_eq` — **the rewards agree** where the supervisor makes a record.
* `reward_parity` — and it makes one, or the environment gives nothing, in every epoch
  with a transaction that a placement decided.
* `second_phases_unrewarded` — not so where only second phases were executed.
-/

namespace BlockEmulator

/-! ## The environment's side -/

/-- `reward_mode`, stripped and in lower case. -/
inductive OfflineRewardMode where
  /-- `"paper"` -/
  | paper
  /-- `"enhanced"` -/
  | enhanced
  /-- `"iot"` -/
  | iot
  /-- `"iot_dense"` -/
  | iotDense
  /-- `"iot_dense_balanced"` -/
  | iotDenseBalanced
  /-- any other text -/
  | unknown
  deriving DecidableEq

/-- `IOT_GLOBAL_REWARD_MODES`. -/
def iotGlobalRewardModes : List OfflineRewardMode := [.iot, .iotDense, .iotDenseBalanced]

/-- The arguments of `spring_reward`. -/
structure SpringRewardArgs where
  /-- `effective_loads` -/
  effectiveLoads : List ℚ
  /-- `cross_loads` -/
  crossLoads : List ℚ
  /-- `balance_loads` -/
  balanceLoads : Option (List ℚ)
  /-- `lambda_weight` -/
  lambdaWeight : ℚ
  /-- `beta` -/
  beta : ℚ
  /-- `load_penalty_weight` -/
  loadPenaltyWeight : ℚ
  /-- `active_shard_bonus_weight` -/
  activeShardBonusWeight : ℚ
  /-- `hotspot_penalty_weight` -/
  hotspotPenaltyWeight : ℚ
  /-- `hotspot_threshold` -/
  hotspotThreshold : ℚ
  /-- `min_active_load_share` -/
  minActiveLoadShare : ℚ
  /-- `backlog_penalty` -/
  backlogPenalty : ℚ
  /-- `backlog_penalty_weight` -/
  backlogPenaltyWeight : ℚ
  /-- `reward_mode` -/
  rewardMode : OfflineRewardMode
  /-- `communication_cost` -/
  communicationCost : ℚ
  /-- `iot_cstr_weight` -/
  iotCstrWeight : ℚ
  /-- `iot_balance_weight` -/
  iotBalanceWeight : ℚ
  /-- `iot_comm_cost_weight` -/
  iotCommCostWeight : ℚ
  /-- `iot_hotspot_weight` -/
  iotHotspotWeight : ℚ

/-- The dictionary that `spring_reward` returns beside the reward. -/
structure SpringRewardMetrics where
  /-- `"effective_tx"` -/
  effectiveTx : ℚ
  /-- `"cross_tx"` -/
  crossTx : ℚ
  /-- `"cross_rate"` -/
  crossRate : ℚ
  /-- `"raw_load_variance"` -/
  rawLoadVariance : ℚ
  /-- `"normalized_load_variance"` -/
  normalizedLoadVariance : ℚ
  /-- `"r_cstr"` -/
  rCstr : ℚ
  /-- `"r_wlb"` -/
  rWlb : ℚ
  /-- `"abs_load_diff"` -/
  absLoadDiff : ℚ
  /-- `"active_shards"` -/
  activeShards : ℕ
  /-- `"active_shard_ratio"` -/
  activeShardRatio : ℚ
  /-- `"max_load_share"` -/
  maxLoadShare : ℚ
  /-- `"hotspot_penalty"` -/
  hotspotPenalty : ℚ
  /-- `"load_aware_bonus"` -/
  loadAwareBonus : ℚ
  /-- `"backlog_penalty"` -/
  backlogPenalty : ℚ
  /-- `"communication_cost"` -/
  communicationCost : ℚ
  /-- `"reward_load_total"` -/
  rewardLoadTotal : ℚ
  /-- `"reward_mode"` -/
  rewardMode : OfflineRewardMode
  deriving DecidableEq

/-- The dictionary of a batch that executed nothing. -/
def SpringRewardMetrics.zero (rewardMode : OfflineRewardMode) : SpringRewardMetrics where
  effectiveTx := 0
  crossTx := 0
  crossRate := 0
  rawLoadVariance := 0
  normalizedLoadVariance := 0
  rCstr := 0
  rWlb := 0
  absLoadDiff := 0
  activeShards := 0
  activeShardRatio := 0
  maxLoadShare := 0
  hotspotPenalty := 0
  loadAwareBonus := 0
  backlogPenalty := 0
  communicationCost := 0
  rewardLoadTotal := 0
  rewardMode := rewardMode

/-- `spring_reward`, with the loads on which the balance is measured given: `none` is
the `ValueError` for an unknown mode. -/
def springRewardOn (exp : ℚ → ℚ) (a : SpringRewardArgs) (loadBasis : List ℚ) (loadTotal : ℚ) :
    Option (ℚ × SpringRewardMetrics) :=
  let effectiveTx := a.effectiveLoads.sum
  let crossTx := a.crossLoads.sum
  let shardCount := max 1 a.effectiveLoads.length
  let crossRate := springClamp (crossTx / effectiveTx) 0 1
  let rCstr := springClamp (1 - crossRate) 0 1
  let avgLoad := loadTotal / shardCount
  let rawAbsDiff := (loadBasis.map fun load => |load - avgLoad|).sum
  let rawVar := (loadBasis.map fun load => (load - avgLoad) * (load - avgLoad)).sum / shardCount
  let normVar := rawVar / (avgLoad * avgLoad + offlineEps)
  let normVar := normVar / (1 + normVar)
  let normalizedAbsDiff := if avgLoad > offlineEps then rawAbsDiff / (avgLoad + offlineEps) else 0
  let balanceScore := springClamp (1 - normVar) 0 1
  let rWlb := springClamp (exp (-a.beta * normalizedAbsDiff) * balanceScore) 0 1
  let loadShares := loadBasis.map fun load => springClamp (load / (loadTotal + offlineEps)) 0 1
  let activeThreshold := springClamp a.minActiveLoadShare 0 1
  let activeShards := loadShares.countP fun share => decide (share ≥ activeThreshold)
  let activeShardRatio := (activeShards : ℚ) / shardCount
  let maxLoadShare := loadShares.max?.getD 0
  let hotspotThreshold := springClamp a.hotspotThreshold 0 (1 - offlineEps)
  let hotspotPenalty := springClamp
    ((maxLoadShare - hotspotThreshold) / (1 - hotspotThreshold + offlineEps)) 0 1
  let loadAwareBonus :=
    a.activeShardBonusWeight * activeShardRatio - a.hotspotPenaltyWeight * hotspotPenalty
  let baseReward := a.lambdaWeight * rCstr + (1 - a.lambdaWeight) * rWlb
  let backlogPenalty := springClamp a.backlogPenalty 0 1
  let communicationCost := springClamp a.communicationCost 0 1
  let reward : Option ℚ :=
    if a.rewardMode = .paper then some baseReward
    else if a.rewardMode = .enhanced then
      some (baseReward - a.loadPenaltyWeight * normVar + loadAwareBonus -
        a.backlogPenaltyWeight * backlogPenalty)
    else if a.rewardMode ∈ iotGlobalRewardModes then
      some (a.iotCstrWeight * rCstr + a.iotBalanceWeight * rWlb -
        a.iotCommCostWeight * communicationCost - a.iotHotspotWeight * hotspotPenalty)
    else none
  reward.map fun reward =>
    (reward,
      { effectiveTx := effectiveTx
        crossTx := crossTx
        crossRate := crossRate
        rawLoadVariance := rawVar
        normalizedLoadVariance := normVar
        rCstr := rCstr
        rWlb := rWlb
        absLoadDiff := normalizedAbsDiff
        activeShards := activeShards
        activeShardRatio := activeShardRatio
        maxLoadShare := maxLoadShare
        hotspotPenalty := hotspotPenalty
        loadAwareBonus := loadAwareBonus
        backlogPenalty := backlogPenalty
        communicationCost := communicationCost
        rewardLoadTotal := loadTotal
        rewardMode := a.rewardMode })

/-- `spring_reward`. -/
def springReward (exp : ℚ → ℚ) (a : SpringRewardArgs) : Option (ℚ × SpringRewardMetrics) :=
  let loadBasis := a.balanceLoads.getD a.effectiveLoads
  let loadBasis :=
    if loadBasis.length ≠ max 1 a.effectiveLoads.length then a.effectiveLoads else loadBasis
  if a.effectiveLoads.sum ≤ offlineEps then some (0, .zero a.rewardMode)
  else if loadBasis.sum ≤ offlineEps then
    -- nothing to balance: the effective loads stand in
    springRewardOn exp a a.effectiveLoads a.effectiveLoads.sum
  else springRewardOn exp a loadBasis loadBasis.sum

/-! ## The spread of the loads -/

theorem springClamp_eq_max {lo hi : ℚ} (h : lo ≤ hi) (value : ℚ) :
    springClamp value lo hi = max lo (min value hi) := by
  rw [springClamp]
  split
  · rename_i hlo
    rw [min_eq_left (hlo.le.trans h), max_eq_left hlo.le]
  · rename_i hlo
    split
    · rename_i hhi
      rw [min_eq_right hhi.le, max_eq_right h]
    · rename_i hhi
      rw [min_eq_left (not_lt.mp hhi), max_eq_right (not_lt.mp hlo)]

theorem springClamp_mono {lo hi : ℚ} (h : lo ≤ hi) : Monotone fun v => springClamp v lo hi := by
  intro v w hvw
  simp only [springClamp_eq_max h]
  exact max_le_max le_rfl (min_le_min hvw le_rfl)

theorem foldl_max_map {f : ℚ → ℚ} (hf : Monotone f) (l : List ℚ) (m : ℚ) :
    (l.map f).foldl max (f m) = f (l.foldl max m) := by
  induction l generalizing m with
  | nil => rfl
  | cons x l ih =>
    rw [List.map_cons, List.foldl_cons, List.foldl_cons, ← hf.map_max, ih]

/-- The largest of the clamped shares is the largest share, from zero on, clamped. -/
theorem max_clamped (shares : List ℚ) :
    ((shares.map fun share => springClamp share 0 1).max?).getD 0 =
      springClamp (shares.foldl max 0) 0 1 := by
  have hmono := springClamp_mono zero_le_one
  cases shares with
  | nil => rfl
  | cons share shares =>
    have hstart : springClamp share 0 1 = springClamp (max 0 share) 0 1 := by
      rw [hmono.map_max]
      exact (max_eq_right (springClamp_mem zero_le_one share).1).symm
    rw [List.map_cons, List.max?_cons', Option.getD_some, List.foldl_cons, hstart]
    exact foldl_max_map hmono shares (max 0 share)

/-- The loop of the supervisor over the shares. -/
theorem foldl_share (loads : List ℚ) (total m : ℚ) :
    loads.foldl (fun m load =>
        let share := load / (total + rewardEps)
        if share > m then share else m) m =
      (loads.map fun load => load / (total + rewardEps)).foldl max m := by
  induction loads generalizing m with
  | nil => rfl
  | cons load loads ih =>
    rw [List.foldl_cons, ih, List.map_cons, List.foldl_cons]
    congr 1
    simp only [gt_iff_lt]
    split
    · rename_i h
      exact (max_eq_right h.le).symm
    · rename_i h
      exact (max_eq_left (not_lt.mp h)).symm

/-! ## The same epoch on both sides -/

/-- The stage loads: the transactions in the blocks. -/
def stageLoads (p : SpringConfig) (shardStats : ShardStats) : List ℕ :=
  (List.range p.shardNum).map fun sid => (shardStats.get sid).numTx

/-- The effective loads. -/
def effectiveLoads (p : SpringConfig) (shardStats : ShardStats) : List ℚ :=
  (List.range p.shardNum).map fun sid => (shardStats.get sid).effectiveTx

/-- The cross-shard loads. -/
def crossLoads (p : SpringConfig) (shardStats : ShardStats) : List ℚ :=
  (List.range p.shardNum).map fun sid => (shardStats.get sid).crossTx

/-- The transactions that a placement decided: inner-shard ones and first phases. -/
def decidedTx (p : SpringConfig) (shardStats : ShardStats) : ℕ :=
  ((List.range p.shardNum).map fun sid => (shardStats.get sid).innerTx).sum +
    ((List.range p.shardNum).map fun sid => (shardStats.get sid).relay1Tx).sum

/-- The mean communication cost. -/
def meanCommunicationCost (p : SpringConfig) (shardStats : ShardStats) : ℚ :=
  let sum := ((List.range p.shardNum).map fun sid => (shardStats.get sid).communicationCostSum).sum
  let count :=
    ((List.range p.shardNum).map fun sid => (shardStats.get sid).communicationCostCount).sum
  if count > 0 then sum / count else 0

/-- The environment is asked for the reward of the same loads, with the same weights, in
the mode of the supervisor. The arguments of the enhanced mode are left open. -/
structure SameEpoch (p : SpringConfig) (shardStats : ShardStats) (a : SpringRewardArgs) :
    Prop where
  /-- the effective loads -/
  effective : a.effectiveLoads = effectiveLoads p shardStats
  /-- the cross-shard loads -/
  cross : a.crossLoads = crossLoads p shardStats
  /-- the loads to balance: `reward_loads` -/
  balance : a.balanceLoads.getD a.effectiveLoads =
    if p.springMechanismVersion = .v3 then (stageLoads p shardStats).map fun load : ℕ => (load : ℚ)
    else effectiveLoads p shardStats
  /-- the communication cost -/
  cost : a.communicationCost = meanCommunicationCost p shardStats
  /-- λ -/
  lambda : a.lambdaWeight = p.springRewardLambda
  /-- β -/
  beta : a.beta = p.springRewardBeta
  /-- the threshold -/
  threshold : a.hotspotThreshold = p.springIOTHotspotThreshold
  /-- the weights -/
  cstr : a.iotCstrWeight = p.springIOTCSTRWeight
  /-- the weights -/
  wlb : a.iotBalanceWeight = p.springIOTBalanceWeight
  /-- the weights -/
  commCost : a.iotCommCostWeight = p.springIOTCommCostWeight
  /-- the weights -/
  hotspot : a.iotHotspotWeight = p.springIOTHotspotWeight
  /-- the mode -/
  mode : if p.springIOTMode = 1 then a.rewardMode ∈ iotGlobalRewardModes
    else a.rewardMode = .paper

/-- What both sides record of the reward, but for the reward itself. -/
structure SameReward (r : SpringFeedbackRewardRecord) (m : SpringRewardMetrics) : Prop where
  /-- the executed transactions -/
  effectiveTx : m.effectiveTx = r.effectiveTx
  /-- those across shards -/
  crossTx : m.crossTx = r.crossTx
  /-- the cross rate -/
  crossRate : m.crossRate = r.crossRate
  /-- its term in the reward -/
  rCstr : m.rCstr = r.rCSTR
  /-- the variance -/
  rawLoadVariance : m.rawLoadVariance = r.rawLoadVariance
  /-- and normalized -/
  normalizedLoadVariance : m.normalizedLoadVariance = r.normalizedLoadVariance
  /-- the deviation from the mean -/
  absLoadDiff : m.absLoadDiff = r.absLoadDiff
  /-- the balance -/
  rWlb : m.rWlb = r.rWLB
  /-- the largest share -/
  maxLoadShare : m.maxLoadShare = r.maxLoadShare
  /-- the hotspot -/
  hotspotPenalty : m.hotspotPenalty = r.hotspotPenalty
  /-- the communication cost -/
  communicationCost : m.communicationCost = r.communicationCost

variable {p : SpringConfig} {shardStats : ShardStats} {a : SpringRewardArgs}

/-- The call of the environment for the loads of an epoch, with its default weights for the
enhanced mode. -/
def rewardArgs (p : SpringConfig) (shardStats : ShardStats) (rewardMode : OfflineRewardMode) :
    SpringRewardArgs where
  effectiveLoads := effectiveLoads p shardStats
  crossLoads := crossLoads p shardStats
  balanceLoads := some
    (if p.springMechanismVersion = .v3 then
      (stageLoads p shardStats).map fun load : ℕ => (load : ℚ)
    else effectiveLoads p shardStats)
  lambdaWeight := p.springRewardLambda
  beta := p.springRewardBeta
  loadPenaltyWeight := 0
  activeShardBonusWeight := 0
  hotspotPenaltyWeight := 0
  hotspotThreshold := p.springIOTHotspotThreshold
  minActiveLoadShare := 3 / 100
  backlogPenalty := 0
  backlogPenaltyWeight := 0
  rewardMode := rewardMode
  communicationCost := meanCommunicationCost p shardStats
  iotCstrWeight := p.springIOTCSTRWeight
  iotBalanceWeight := p.springIOTBalanceWeight
  iotCommCostWeight := p.springIOTCommCostWeight
  iotHotspotWeight := p.springIOTHotspotWeight

theorem rewardArgs_same (p : SpringConfig) (shardStats : ShardStats) :
    SameEpoch p shardStats
      (rewardArgs p shardStats (if p.springIOTMode = 1 then .iotDenseBalanced else .paper)) where
  effective := rfl
  cross := rfl
  balance := rfl
  cost := rfl
  lambda := rfl
  beta := rfl
  threshold := rfl
  cstr := rfl
  wlb := rfl
  commCost := rfl
  hotspot := rfl
  mode := by
    split
    · exact List.mem_cons_of_mem _ (List.mem_cons_of_mem _ List.mem_cons_self)
    · rfl

theorem effectiveLoads_length (p : SpringConfig) (shardStats : ShardStats) :
    (effectiveLoads p shardStats).length = p.shardNum := by
  simp [effectiveLoads]

/-- The loads on which the balance is measured. -/
def balanceLoads (p : SpringConfig) (shardStats : ShardStats) : List ℚ :=
  if p.springMechanismVersion = .v3 then (stageLoads p shardStats).map fun load : ℕ => (load : ℚ)
  else effectiveLoads p shardStats

theorem balanceLoads_length (p : SpringConfig) (shardStats : ShardStats) :
    (balanceLoads p shardStats).length = p.shardNum := by
  rw [balanceLoads]
  split
  · simp [stageLoads]
  · exact effectiveLoads_length p shardStats

/-- A total that is positive is above the threshold, whichever loads are balanced. -/
theorem balanceLoads_sum (heff : offlineEps < (effectiveLoads p shardStats).sum)
    (hstage : p.springMechanismVersion = .v3 → 0 < (stageLoads p shardStats).sum) :
    offlineEps < (balanceLoads p shardStats).sum := by
  rw [balanceLoads]
  split
  · rename_i hv
    have hone : (1 : ℚ) ≤ ((stageLoads p shardStats).sum : ℕ) := by exact_mod_cast hstage hv
    have hsum : ((stageLoads p shardStats).map fun load : ℕ => (load : ℚ)).sum =
        ((stageLoads p shardStats).sum : ℕ) :=
      (map_list_sum (Nat.castRingHom ℚ) (stageLoads p shardStats)).symm
    rw [hsum]
    have heps : offlineEps < 1 := by norm_num [offlineEps]
    exact heps.trans_le hone
  · exact heff

/-- With something executed there is a shard. -/
theorem shardNum_pos (heff : offlineEps < (effectiveLoads p shardStats).sum) : 0 < p.shardNum := by
  rcases Nat.eq_zero_or_pos p.shardNum with h | h
  · rw [effectiveLoads, h] at heff
    norm_num [offlineEps] at heff
  · exact h

/-- The environment measures the balance on the loads of the supervisor. -/
theorem springReward_basis (exp : ℚ → ℚ) (h : SameEpoch p shardStats a)
    (heff : offlineEps < (effectiveLoads p shardStats).sum)
    (hstage : p.springMechanismVersion = .v3 → 0 < (stageLoads p shardStats).sum) :
    springReward exp a =
      springRewardOn exp a (balanceLoads p shardStats) (balanceLoads p shardStats).sum := by
  have hbalance : a.balanceLoads.getD a.effectiveLoads = balanceLoads p shardStats := h.balance
  have hlen : (balanceLoads p shardStats).length = max 1 a.effectiveLoads.length := by
    have hpos := shardNum_pos heff
    rw [balanceLoads_length, h.effective, effectiveLoads_length]
    omega
  rw [springReward]
  simp only [hbalance]
  rw [if_neg (not_not.mpr hlen), if_neg (h.effective ▸ not_le.mpr heff),
    if_neg (not_le.mpr (balanceLoads_sum heff hstage))]

theorem offlineEps_eq : offlineEps = rewardEps := rfl

theorem spread_maxLoadShare (shardNum : ℕ) (loads : List ℚ) {total : ℚ} (h : rewardEps < total) :
    (spread shardNum loads total).maxLoadShare =
      ((loads.map fun load => springClamp (load / (total + rewardEps)) 0 1).max?).getD 0 := by
  have hfold := foldl_share loads total 0
  have hmax := max_clamped (loads.map fun load => load / (total + rewardEps))
  rw [List.map_map] at hmax
  simp only [spread, if_pos h]
  rw [hfold, ← hmax]
  rfl

/-- The stage loads, as the supervisor makes rationals of them. -/
theorem cast_loads (loads : List ℕ) :
    (List.map (fun load => load) do
      let a ← loads
      pure (a : ℚ)) = loads.map fun load : ℕ => (load : ℚ) := by
  rw [List.map_id', bind_pure_comp, List.map_eq_map]

/-- What the supervisor records of an epoch with a decided transaction. -/
theorem springBuildFeedbackRewardRecord_some (exp : ℚ → ℚ) (epoch : ℕ)
    (hlambda : 0 ≤ p.springRewardLambda ∧ p.springRewardLambda ≤ 1)
    (hbeta : 0 < p.springRewardBeta) (hdecided : 0 < decidedTx p shardStats)
    (heff : rewardEps < (effectiveLoads p shardStats).sum) :
    let crossRate :=
      springClamp ((crossLoads p shardStats).sum / (effectiveLoads p shardStats).sum) 0 1
    let rCSTR := springClamp (1 - crossRate) 0 1
    let s := spread p.shardNum (balanceLoads p shardStats) (balanceLoads p shardStats).sum
    let rWLB := springClamp (exp (-p.springRewardBeta * s.normalizedAbsDiff) * s.balanceScore) 0 1
    let hotspotThreshold := springClamp p.springIOTHotspotThreshold 0 (1 - rewardEps)
    let hotspotPenalty := springClamp
      ((s.maxLoadShare - hotspotThreshold) / (1 - hotspotThreshold + rewardEps)) 0 1
    let communicationCost := springClamp (meanCommunicationCost p shardStats) 0 1
    ∃ r, springBuildFeedbackRewardRecord p exp epoch shardStats = some r ∧
      r.effectiveTx = (effectiveLoads p shardStats).sum ∧
      r.crossTx = (crossLoads p shardStats).sum ∧ r.crossRate = crossRate ∧ r.rCSTR = rCSTR ∧
      r.rawLoadVariance = s.rawVar ∧ r.normalizedLoadVariance = s.normVar ∧
      r.absLoadDiff = s.normalizedAbsDiff ∧ r.rWLB = rWLB ∧ r.maxLoadShare = s.maxLoadShare ∧
      r.hotspotPenalty = hotspotPenalty ∧ r.communicationCost = communicationCost ∧
      r.reward =
        if p.springIOTMode = 1 then
          p.springIOTCSTRWeight * rCSTR + p.springIOTBalanceWeight * rWLB -
            p.springIOTCommCostWeight * communicationCost -
            p.springIOTHotspotWeight * hotspotPenalty
        else p.springRewardLambda * rCSTR + (1 - p.springRewardLambda) * rWLB := by
  have hl : ¬(p.springRewardLambda < 0 ∨ p.springRewardLambda > 1) := by
    rintro (h | h)
    · exact absurd hlambda.1 (not_le.mpr h)
    · exact absurd hlambda.2 (not_le.mpr h)
  have hdecided' : ¬(((List.range p.shardNum).map fun sid => (shardStats.get sid).innerTx).sum +
      ((List.range p.shardNum).map fun sid => (shardStats.get sid).relay1Tx).sum = 0) :=
    hdecided.ne'
  rw [springBuildFeedbackRewardRecord]
  simp only [List.map_map, Function.comp_def, cast_loads, if_neg hl, if_neg (not_le.mpr hbeta),
    if_neg hdecided']
  rw [if_neg fun h => hdecided' (by rw [h.2.1, h.2.2.1])]
  -- the loads to balance, by the version
  by_cases hv : p.springMechanismVersion = .v3
  · simp only [balanceLoads, if_pos hv, stageLoads, List.map_map, Function.comp_def]
    exact ⟨_, if_neg (not_le.mpr heff), rfl, rfl, rfl, rfl, rfl, rfl, rfl, rfl, rfl, rfl, rfl, rfl⟩
  · simp only [balanceLoads, if_neg hv]
    exact ⟨_, if_neg (not_le.mpr heff), rfl, rfl, rfl, rfl, rfl, rfl, rfl, rfl, rfl, rfl, rfl, rfl⟩

/-- The mode of the environment selects the formula of the supervisor. -/
theorem SameEpoch.select (h : SameEpoch p shardStats a) (paper enhanced iot : ℚ) :
    (if a.rewardMode = .paper then some paper
      else if a.rewardMode = .enhanced then some enhanced
      else if a.rewardMode ∈ iotGlobalRewardModes then some iot
      else none) = some (if p.springIOTMode = 1 then iot else paper) := by
  have hmode := h.mode
  split at hmode
  · rename_i hiot
    have hpaper : a.rewardMode ≠ .paper := by
      intro heq
      rw [heq] at hmode
      exact absurd hmode (by decide)
    have henhanced : a.rewardMode ≠ .enhanced := by
      intro heq
      rw [heq] at hmode
      exact absurd hmode (by decide)
    rw [if_neg hpaper, if_neg henhanced, if_pos hmode, if_pos hiot]
  · rename_i hiot
    rw [if_pos hmode, if_neg hiot]

/-- Where the supervisor has an epoch to reward, the reward is the environment's. -/
theorem springReward_eq (exp : ℚ → ℚ) (epoch : ℕ) (h : SameEpoch p shardStats a)
    (hlambda : 0 ≤ p.springRewardLambda ∧ p.springRewardLambda ≤ 1)
    (hbeta : 0 < p.springRewardBeta) (hdecided : 0 < decidedTx p shardStats)
    (heff : offlineEps < (effectiveLoads p shardStats).sum)
    (hstage : p.springMechanismVersion = .v3 → 0 < (stageLoads p shardStats).sum) :
    ∃ r m, springBuildFeedbackRewardRecord p exp epoch shardStats = some r ∧
      springReward exp a = some (r.reward, m) ∧ SameReward r m := by
  obtain ⟨r, hr, heffTx, hcrossTx, hrate, hcstr, hraw, hnorm, hdiff, hwlb, hshare, hhot, hcost,
    hreward⟩ := springBuildFeedbackRewardRecord_some exp epoch hlambda hbeta hdecided heff
  have hshards : max 1 (effectiveLoads p shardStats).length = p.shardNum := by
    have hpos := shardNum_pos heff
    rw [effectiveLoads_length]
    omega
  have hmax := spread_maxLoadShare p.shardNum (balanceLoads p shardStats)
    (balanceLoads_sum heff hstage)
  rw [springReward_basis exp h heff hstage, springRewardOn]
  simp only [offlineEps_eq, h.effective, h.cross, h.cost, h.lambda, h.beta, h.threshold, h.cstr,
    h.wlb, h.commCost, h.hotspot, hshards]
  rw [← hmax, h.select, Option.map_some]
  exact ⟨r, _, hr, congrArg some (Prod.ext hreward.symm rfl), heffTx.symm, hcrossTx.symm,
    hrate.symm, hcstr.symm, hraw.symm, hnorm.symm, hdiff.symm, hwlb.symm, hshare.symm, hhot.symm,
    hcost.symm⟩

/-- **The rewards agree**: in an epoch with a decided transaction both sides compute the
same reward, or the executed transactions are too few for either. -/
theorem reward_parity (exp : ℚ → ℚ) (epoch : ℕ) (h : SameEpoch p shardStats a)
    (hlambda : 0 ≤ p.springRewardLambda ∧ p.springRewardLambda ≤ 1)
    (hbeta : 0 < p.springRewardBeta) (hdecided : 0 < decidedTx p shardStats)
    (hstage : p.springMechanismVersion = .v3 → 0 < (stageLoads p shardStats).sum) :
    if (effectiveLoads p shardStats).sum ≤ offlineEps then
      springBuildFeedbackRewardRecord p exp epoch shardStats = none ∧
        springReward exp a = some (0, .zero a.rewardMode)
    else ∃ r m, springBuildFeedbackRewardRecord p exp epoch shardStats = some r ∧
      springReward exp a = some (r.reward, m) ∧ SameReward r m := by
  split
  · rename_i hle
    refine ⟨?_, ?_⟩
    · rw [springBuildFeedbackRewardRecord]
      simp only [List.map_map, Function.comp_def]
      split
      · rfl
      · split
        · rfl
        · exact if_pos hle
    · rw [springReward]
      exact if_pos (h.effective ▸ hle)
  · rename_i hgt
    exact springReward_eq exp epoch h hlambda hbeta hdecided (not_le.mp hgt) hstage

/-- One inner-shard transaction, and one across the two shards. -/
def mixedEpoch : ShardStats :=
  (Finmap.singleton 0 ⟨2, 1, 1, 0, 1 / 2, 3 / 2, 1 / 5, 1, [1]⟩).insert 1
    ⟨1, 0, 0, 1, 1 / 2, 1 / 2, 0, 0, []⟩

/-- It is rewarded, on its stages, on both sides. -/
theorem mixedEpoch_rewarded :
    let p := { SpringConfig.default 2 with springMechanismVersion := .v3 }
    ∃ r m, springBuildFeedbackRewardRecord p (fun _ => 1) 1 mixedEpoch = some r ∧
      springReward (fun _ => 1) (rewardArgs p mixedEpoch .iotDenseBalanced) =
        some (r.reward, m) ∧ SameReward r m := by
  intro p
  have h := reward_parity (fun _ => 1) 1 (rewardArgs_same p mixedEpoch)
    ⟨by decide +kernel, by decide +kernel⟩ (by decide +kernel) (by decide +kernel)
    fun _ => by decide +kernel
  rwa [if_neg (by decide +kernel)] at h

/-- Only a second phase is executed. -/
def secondPhaseEpoch : ShardStats :=
  Finmap.singleton 1 ⟨1, 0, 0, 1, 1 / 2, 1 / 2, 0, 0, []⟩

/-- The supervisor has no reward for it, though loads were executed. -/
theorem second_phases_unrewarded :
    ¬∀ (p : SpringConfig) (exp : ℚ → ℚ) (epoch : ℕ) (shardStats : ShardStats)
      (a : SpringRewardArgs), SameEpoch p shardStats a →
        0 ≤ p.springRewardLambda ∧ p.springRewardLambda ≤ 1 → 0 < p.springRewardBeta →
        0 < (effectiveLoads p shardStats).sum → 0 < (crossLoads p shardStats).sum →
        0 < (stageLoads p shardStats).sum →
        ∃ r m, springBuildFeedbackRewardRecord p exp epoch shardStats = some r ∧
          springReward exp a = some (r.reward, m) ∧ SameReward r m := by
  intro h
  obtain ⟨r, m, hr, -, -⟩ := h (.default 2) (fun _ => 1) 1 secondPhaseEpoch _
    (rewardArgs_same _ _) ⟨by decide +kernel, by decide +kernel⟩ (by decide +kernel)
    (by decide +kernel) (by decide +kernel) (by decide +kernel)
  have hnone :
      (springBuildFeedbackRewardRecord (.default 2) (fun _ => 1) 1 secondPhaseEpoch).isSome =
        false := by
    decide +kernel
  rw [hr] at hnone
  cases hnone

end BlockEmulator
