import BlockEmulator.CandidateParity
import BlockEmulator.Fallible
import Mathlib.Data.List.GetD
import Mathlib.Tactic.Positivity

/-!
# The state vector on both sides (`build_state_from_sender_pos`)

Five windows of loads, oldest first, for two kinds of loads; the sender position; in the
legacy layout a flag; the loads so far; the features of the scene; in the third version
the costs by shard. Go keeps for each shard the blocks that it has, Python five rows that
start at zero.

* `springGetStat_eq` — the windows that a shard does not have count as empty.
* `state_parity` — **the vectors are the same**, in every layout that the supervisor
  loads.
* `legacy_without_features` — not so in the legacy layout with the features switched off,
  which neither loader accepts.
-/

namespace BlockEmulator

open Fallible

/-! ## The environment's side -/

/-- The environment, with what the state vector reads beside it. -/
structure StateEnv where
  /-- the environment -/
  env : SpringOfflineEnv
  /-- `feature_mode` -/
  featureMode : FeatureMode
  /-- `tx_batch_size` -/
  txBatchSize : ℕ
  /-- `current_cost_vector` -/
  currentCostVector : List ℚ

/-- `state_dim`. -/
def stateDim (shards iotFeatureDim : ℕ) : ℕ :=
  let baseDim := 11 * shards + 1
  let baseDim := if iotFeatureDim > 0 then baseDim + shards else baseDim
  baseDim + iotFeatureDim

/-- `input_dim`, in the current layout: without the flag in the third version. -/
def inputDim (shards iotFeatureDim : ℕ) (version : MechanismVersion) : ℕ :=
  stateDim shards iotFeatureDim + if version = .v3 then shards - 1 else 0

/-- `normalize_state_value`. -/
def normalizeStateValue (log1p : ℚ → ℚ) (value : ℚ) (maxBlockSize txBatchSize : ℕ) : ℚ :=
  let denom : ℚ := ((max maxBlockSize txBatchSize : ℕ) : ℚ)
  let denom := if denom ≤ 0 then 100 else denom
  springClamp (log1p (max 0 value) / log1p (denom * 4)) 0 1

namespace StateEnv

variable (log1p : ℚ → ℚ) (e : StateEnv)

/-- One of the two loops over `recent_stats`; `none` is an `IndexError`. -/
def windows (loads : OfflineStat → List ℚ) : Option (List ℚ) :=
  (e.env.recentStats.mapM fun stat =>
    (List.range e.env.config.shards).mapM fun sid => (loads stat)[sid]?).map List.flatten

/-- `build_state_from_sender_pos`; `none` is an error of Python. -/
def buildStateFromSenderPos (senderPos : List ℚ) (flag : ℚ) (iotFeatures : List ℚ) :
    Option (List ℚ) :=
  let c := e.env.config
  let shards := List.range c.shards
  let normalizeCount := fun v => normalizeStateValue log1p v c.maxBlockSize e.txBatchSize
  (e.windows (·.num)).bind fun num =>
  (e.windows (·.cross)).bind fun cross =>
    let pos := shards.map fun sid =>
      springClamp (if sid < senderPos.length then senderPos.getD sid 0 else 0) 0 1
    let flags := if c.mechanismVersion = .legacy then [if flag ≠ 0 then (1 : ℚ) else 0] else []
    let totalLoad := e.env.shardLoad.sum
    let iot :=
      if c.iotFeatureDim > 0 then
        (shards.map fun sid =>
          let load := if sid < e.env.shardLoad.length then e.env.shardLoad.getD sid 0 else 0
          springClamp (if (totalLoad : ℚ) > offlineEps then (load : ℚ) / totalLoad else 0) 0 1) ++
        (List.range c.iotFeatureDim).map fun idx =>
          let value := if idx < iotFeatures.length then iotFeatures.getD idx 0 else 0
          -- the number of related addresses stays
          let value := if e.featureMode = .noIot ∧ idx > 0 then 0 else value
          springClamp value 0 1
      else []
    let costs :=
      if c.mechanismVersion = .v3 then
        if e.featureMode = .full then e.currentCostVector.map fun v => springClamp v 0 1
        else List.replicate c.shards 0
      else []
    let state := num.map normalizeCount ++ cross.map normalizeCount ++ pos ++ flags ++ iot ++ costs
    if state.length ≠ inputDim c.shards c.iotFeatureDim c.mechanismVersion then none
    else some state

end StateEnv

/-! ## The same state on both sides -/

/-- What `ReadConfigFile` accepts of the version and its switches. -/
structure SpringConfig.Accepted (p : SpringConfig) : Prop where
  /-- the third version places real accounts by ten features -/
  v3 : p.springMechanismVersion = .v3 →
    p.springIOTIdentityMode = 2 ∧ p.springIOTMode = 1 ∧ p.springIOTFeatureDim = 10 ∧
      p.springSceneCostMode ≠ .legacy ∧ p.springOnlineTrain = 0
  /-- the ablation switches require the third version -/
  legacy : p.springMechanismVersion = .legacy →
    p.springFeatureMode = .full ∧ p.springSceneCostMode = .legacy

/-- The features that the supervisor passes: none without scenes, and in the third
version with the costs behind them. -/
def stateFeatures (p : SpringConfig) (features cost : List ℚ) : List ℚ :=
  if springIOTEnabled p then
    if p.springMechanismVersion = .v3 then features ++ cost else features
  else []

/-- The last five blocks of a shard, behind empty ones. -/
def lastFive (arr : List SpringBlockStat) : List SpringBlockStat :=
  (List.replicate 5 SpringBlockStat.zero ++ arr).drop arr.length

/-- A row of the environment, for the blocks that the supervisor has. -/
def windowRow (shards : ℕ) (springStats : ℕ → List SpringBlockStat) (i : ℕ) : OfflineStat :=
  let stat := fun sid => (lastFive (springStats sid)).getD i .zero
  { num := (List.range shards).map fun sid => (stat sid).numTx
    cross := (List.range shards).map fun sid => (stat sid).crossTx }

/-- The environment at the state of the supervisor. -/
def offlineState (p : SpringConfig) (mode : ℕ) (springStats : ℕ → List SpringBlockStat)
    (springShardLoad : List ℕ) (cost : List ℚ) : StateEnv where
  env := { SpringOfflineEnv.new (offlineConfig p mode) with
    shardLoad := springShardLoad
    recentStats := (List.range 5).map (windowRow p.shardNum springStats) }
  featureMode := p.springFeatureMode
  txBatchSize := p.txBatchSize
  currentCostVector := cost

variable {p : SpringConfig} {springStats : ℕ → List SpringBlockStat}

/-! ## The windows -/

/-- A window that a shard does not have counts as empty. -/
theorem springGetStat_eq (springStats : ℕ → List SpringBlockStat) (sid : ℕ) {back : ℕ}
    (h : back < 5) :
    springGetStat springStats sid back = (lastFive (springStats sid)).getD (4 - back) .zero := by
  rw [springGetStat, lastFive, List.getD_eq_getElem?_getD, List.getD_eq_getElem?_getD,
    List.getElem?_drop]
  split
  · rename_i hlt
    rw [List.getElem?_append_right (by simp; omega), List.length_replicate]
    congr 2
    omega
  · rename_i hge
    rw [List.getElem?_append_left (by simp; omega), List.getElem?_replicate, if_pos (by omega)]
    rfl

/-- The rows of the environment are the windows of the supervisor, oldest first. -/
theorem windows_eq (mode : ℕ) (springShardLoad : List ℕ) (cost : List ℚ)
    (loads : OfflineStat → List ℚ) (load : SpringBlockStat → ℚ)
    (hloads : ∀ i, loads (windowRow p.shardNum springStats i) =
      (List.range p.shardNum).map fun sid => load ((lastFive (springStats sid)).getD i .zero)) :
    (offlineState p mode springStats springShardLoad cost).windows loads =
      some ([4, 3, 2, 1, 0].flatMap fun back => (List.range p.shardNum).map fun sid =>
        load (springGetStat springStats sid back)) := by
  have hrow : ∀ stat ∈ (List.range 5).map (windowRow p.shardNum springStats),
      ((List.range p.shardNum).mapM fun sid => (loads stat)[sid]?) = some (loads stat) := by
    intro stat hstat
    obtain ⟨i, -, rfl⟩ := List.mem_map.mp hstat
    rw [hloads i]
    refine mapM_some fun sid hsid => ?_
    rw [List.getElem?_map, List.getElem?_range (List.mem_range.mp hsid)]
    rfl
  have hbacks : [4, 3, 2, 1, 0] = (List.range 5).map (4 - ·) := rfl
  rw [StateEnv.windows]
  change ((((List.range 5).map (windowRow p.shardNum springStats)).mapM fun stat =>
    (List.range p.shardNum).mapM fun sid => (loads stat)[sid]?).map List.flatten) = _
  rw [mapM_some hrow, Option.map_some, List.map_map, ← List.flatMap_def, hbacks,
    List.flatMap_map]
  refine congrArg some (List.flatMap_congr fun i hi => ?_)
  rw [Function.comp_apply, hloads i]
  refine List.map_congr_left fun sid _ => ?_
  have hi' := List.mem_range.mp hi
  rw [springGetStat_eq springStats sid (by omega), show 4 - (4 - i) = i by omega]

/-- Loads are normalized alike where they are not negative. -/
theorem normalizeStateValue_eq (log1p : ℚ → ℚ) (p : SpringConfig) {v : ℚ} (h : 0 ≤ v) :
    normalizeStateValue log1p v p.maxBlockSizeGlobal p.txBatchSize =
      springNormalizeStateValue log1p p v := by
  have hmax : ((max p.maxBlockSizeGlobal p.txBatchSize : ℕ) : ℚ) =
      if p.txBatchSize > p.maxBlockSizeGlobal then (p.txBatchSize : ℚ)
      else p.maxBlockSizeGlobal := by
    split
    · rename_i hgt
      rw [max_eq_right (le_of_lt hgt)]
    · rename_i hle
      rw [max_eq_left (not_lt.mp hle)]
  rw [normalizeStateValue, springNormalizeStateValue, max_eq_right h, hmax]

/-- So the windows enter the two vectors alike. -/
theorem normalize_windows (log1p : ℚ → ℚ) (p : SpringConfig) (load : SpringBlockStat → ℚ)
    (hload : ∀ sid back, 0 ≤ load (springGetStat springStats sid back)) :
    ([4, 3, 2, 1, 0].flatMap fun back => (List.range p.shardNum).map fun sid =>
        load (springGetStat springStats sid back)).map
      (fun v => normalizeStateValue log1p v p.maxBlockSizeGlobal p.txBatchSize) =
    [4, 3, 2, 1, 0].flatMap fun back => (List.range p.shardNum).map fun sid =>
      springNormalizeStateValue log1p p (load (springGetStat springStats sid back)) := by
  rw [List.map_flatMap]
  refine List.flatMap_congr fun back _ => ?_
  rw [List.map_map]
  exact List.map_congr_left fun sid _ => normalizeStateValue_eq log1p p (hload sid back)

/-- A block never counts a negative number of cross-shard transactions. -/
theorem springBlockStat_crossTx_nonneg (p : SpringConfig) (rows : SceneRows) (b : BlockInfoMsg) :
    0 ≤ (springBlockStat p rows b).crossTx := by
  simp only [springBlockStat]
  positivity

theorem springGetStat_crossTx_nonneg (h : ∀ sid, ∀ st ∈ springStats sid, 0 ≤ st.crossTx)
    (sid back : ℕ) : 0 ≤ (springGetStat springStats sid back).crossTx := by
  rw [springGetStat]
  split
  · rename_i hlt
    rw [List.getD_eq_getElem _ _ (by omega)]
    exact h sid _ (List.getElem_mem _)
  · exact le_rfl

/-! ## The features -/

theorem ite_getD {α : Type} (l : List α) (i : ℕ) (d : α) :
    (if i < l.length then l.getD i d else d) = l.getD i d := by
  split
  · rfl
  · rename_i h
    exact (getD_out d (not_lt.mp h)).symm

/-- The costs behind the features, by shard. -/
theorem features_append (features cost : List ℚ) (noIot : Prop) [Decidable noIot]
    (hfeatures : features ≠ []) :
    ((List.range (features.length + cost.length)).map fun idx =>
        springClamp (if noIot ∧ idx > 0 then 0 else (features ++ cost).getD idx 0) 0 1) =
      ((List.range features.length).map fun idx =>
        springClamp (if noIot ∧ idx > 0 then 0 else features.getD idx 0) 0 1) ++
      if noIot then List.replicate cost.length 0 else cost.map fun v => springClamp v 0 1 := by
  have hpos := List.length_pos_iff.mpr hfeatures
  rw [List.range_add, List.map_append, List.map_map]
  congr 1
  · refine List.map_congr_left fun idx hidx => ?_
    rw [List.getD_append _ _ _ _ (List.mem_range.mp hidx)]
  · split
    · rename_i hno
      refine List.eq_replicate_iff.mpr ⟨by simp, fun x hx => ?_⟩
      obtain ⟨idx, -, rfl⟩ := List.mem_map.mp hx
      rw [Function.comp_apply, if_pos ⟨hno, by omega⟩]
      rfl
    · rename_i hfull
      refine List.ext_getElem (by simp) fun idx h₁ h₂ => ?_
      have hidx : idx < cost.length := by simpa using h₂
      rw [List.getElem_map, List.getElem_map, List.getElem_range, Function.comp_apply,
        if_neg fun h => hfull h.1, List.getD_append_right _ _ _ _ (by omega),
        Nat.add_sub_cancel_left, List.getD_eq_getElem _ _ hidx]

/-! ## The vector -/

/-- There are loads so far for one side when there are for the other. -/
theorem share_eq (totalLoad : ℕ) (load : ℚ) :
    (if (totalLoad : ℚ) > offlineEps then load / totalLoad else 0) =
      if totalLoad > 0 then load / totalLoad else 0 := by
  by_cases h : totalLoad > 0
  · have hone : (1 : ℚ) ≤ totalLoad := by exact_mod_cast h
    rw [if_pos h, if_pos (lt_of_lt_of_le (by norm_num [offlineEps]) hone)]
  · rw [if_neg h, Nat.eq_zero_of_not_pos h, if_neg (by norm_num [offlineEps])]

/-- Only the legacy layout has the flag. -/
theorem flags_eq (version : MechanismVersion) (flag : ℚ) :
    (if version = .legacy then [if flag ≠ 0 then 1 else 0] else []) =
      if version ≠ .v3 then [if flag ≠ 0 then 1 else flag] else [] := by
  cases version with
  | legacy =>
    by_cases h : flag = 0
    · simp [h]
    · simp [h]
  | v3 => simp

section

variable (log1p : ℚ → ℚ) (p : SpringConfig) (springStats : ℕ → List SpringBlockStat)
  (springShardLoad : List ℕ) (senderPos : List ℚ) (flag : ℚ) (features cost : List ℚ)

/-- The vector up to the flag. -/
def stateHead : List ℚ :=
  ([4, 3, 2, 1, 0].flatMap fun back => (List.range p.shardNum).map fun sid =>
    springNormalizeStateValue log1p p (springGetStat springStats sid back).numTx) ++
  ([4, 3, 2, 1, 0].flatMap fun back => (List.range p.shardNum).map fun sid =>
    springNormalizeStateValue log1p p (springGetStat springStats sid back).crossTx) ++
  ((List.range p.shardNum).map fun sid => springClamp (senderPos.getD sid 0) 0 1) ++
  if p.springMechanismVersion ≠ .v3 then [if flag ≠ 0 then 1 else flag] else []

/-- The shares of the shards in the loads so far. -/
def loadShares : List ℚ :=
  (List.range p.shardNum).map fun sid =>
    springClamp
      (if springShardLoad.sum > 0 then
        ((springShardLoad.getD sid 0 : ℕ) : ℚ) / (springShardLoad.sum : ℕ) else 0) 0 1

/-- What the environment has behind the flag. -/
def stateTail : List ℚ :=
  (if springConfiguredIOTFeatureDim p > 0 then
    loadShares p springShardLoad ++
      (List.range (springConfiguredIOTFeatureDim p)).map fun idx =>
        springClamp (if p.springFeatureMode = .noIot ∧ idx > 0 then 0 else features.getD idx 0) 0 1
  else []) ++
  if p.springMechanismVersion = .v3 then
    if p.springFeatureMode = .full then cost.map fun v => springClamp v 0 1
    else List.replicate p.shardNum 0
  else []

end

theorem buildStateFromSenderPos_eq (log1p : ℚ → ℚ) (mode : ℕ)
    (hcross : ∀ sid, ∀ st ∈ springStats sid, 0 ≤ st.crossTx) (springShardLoad : List ℕ)
    (senderPos : List ℚ) (flag : ℚ) (features cost : List ℚ) :
    (offlineState p mode springStats springShardLoad cost).buildStateFromSenderPos log1p senderPos
        flag features =
      let state := stateHead log1p p springStats senderPos flag ++
        stateTail p springShardLoad features cost
      if state.length ≠
          inputDim p.shardNum (springConfiguredIOTFeatureDim p) p.springMechanismVersion then none
      else some state := by
  have hnum := windows_eq mode springShardLoad cost (·.num) (fun st => (st.numTx : ℚ))
    fun i => (rfl : (windowRow p.shardNum springStats i).num = _)
  have hcr := windows_eq mode springShardLoad cost (·.cross) (·.crossTx)
    fun i => (rfl : (windowRow p.shardNum springStats i).cross = _)
  have hnorm := normalize_windows log1p p (fun st => (st.numTx : ℚ)) fun sid back =>
    Nat.cast_nonneg (springGetStat springStats sid back).numTx
  have hcrnorm := normalize_windows log1p p (·.crossTx) (springGetStat_crossTx_nonneg hcross)
  rw [StateEnv.buildStateFromSenderPos, hnum, Option.bind_some, hcr, Option.bind_some]
  simp only [ite_getD, share_eq]
  rw [stateHead, stateTail, ← hnorm, ← hcrnorm, ← flags_eq]
  simp only [List.append_assoc]
  rfl

theorem configuredDim_v3 (hp : p.Accepted) (hv : p.springMechanismVersion = .v3) :
    springConfiguredIOTFeatureDim p = 10 := by
  obtain ⟨-, hiot, hdim, -⟩ := hp.v3 hv
  rw [springConfiguredIOTFeatureDim, hiot, hdim]
  rfl

theorem configuredDim_pos (h : p.springIOTMode = 1) : 0 < springConfiguredIOTFeatureDim p := by
  rw [springConfiguredIOTFeatureDim, if_neg (not_not.mpr h)]
  split
  · exact Nat.succ_pos 9
  · omega

/-- The two tails, by the layout. -/
theorem stateTail_eq (hp : p.Accepted) (springShardLoad : List ℕ) {features cost : List ℚ}
    (hcost : cost.length = p.shardNum)
    (hfeatures : p.springMechanismVersion = .v3 → features.length = 10) :
    let extraFeatures := stateFeatures p features cost
    let featureDim :=
      (if p.springIOTMode = 1 ∧ springConfiguredIOTFeatureDim p > 0 then
        springConfiguredIOTFeatureDim p else extraFeatures.length) +
      if p.springMechanismVersion = .v3 then p.shardNum else 0
    stateTail p springShardLoad features cost =
      (if p.springIOTMode = 1 ∧ featureDim > 0 then loadShares p springShardLoad else []) ++
      (List.range featureDim).map fun idx =>
        springClamp
          (if p.springMechanismVersion = .v3 ∧ p.springFeatureMode = .noIot ∧ idx > 0 then 0
            else extraFeatures.getD idx 0) 0 1 := by
  intro extraFeatures featureDim
  by_cases hv : p.springMechanismVersion = .v3
  · obtain ⟨-, hiot, -⟩ := hp.v3 hv
    have hdim := configuredDim_v3 hp hv
    have hext : extraFeatures = features ++ cost := by
      simp [extraFeatures, stateFeatures, springIOTEnabled, hiot, hv]
    have hfd : featureDim = features.length + cost.length := by
      simp [featureDim, hiot, hdim, hv, hfeatures hv, hcost]
    have hne : features ≠ [] := by
      rintro rfl
      exact absurd (hfeatures hv) (by decide)
    have hcosts : (if p.springFeatureMode = .full then cost.map fun v => springClamp v 0 1
        else List.replicate p.shardNum 0) =
        if p.springFeatureMode = .noIot then List.replicate cost.length 0
        else cost.map fun v => springClamp v 0 1 := by
      cases hmode : p.springFeatureMode with
      | full => simp
      | noIot => simp [hcost]
    have hpos : p.springIOTMode = 1 ∧ featureDim > 0 := by
      refine ⟨hiot, ?_⟩
      rw [hfd, hfeatures hv]
      omega
    rw [stateTail, if_pos (by omega), if_pos hv, hcosts, if_pos hpos, hext, hfd,
      List.append_assoc]
    simp only [hv, true_and]
    rw [features_append features cost _ hne, hdim, hfeatures hv]
  · have hl : p.springMechanismVersion = .legacy := by
      cases h : p.springMechanismVersion with
      | legacy => rfl
      | v3 => exact absurd h hv
    have hfull := (hp.legacy hl).1
    by_cases hiot : p.springIOTMode = 1
    · have hdim := configuredDim_pos hiot
      have hext : extraFeatures = features := by
        simp [extraFeatures, stateFeatures, springIOTEnabled, hiot, hv]
      have hfd : featureDim = springConfiguredIOTFeatureDim p := by
        simp [featureDim, hiot, hdim, hv]
      rw [stateTail, if_pos hdim, if_neg hv, hext, hfd, if_pos ⟨hiot, hdim⟩, List.append_nil]
      simp [hv, hfull]
    · have hdim : springConfiguredIOTFeatureDim p = 0 := by
        rw [springConfiguredIOTFeatureDim, if_pos hiot]
      have hfd : featureDim = 0 := by
        simp [featureDim, extraFeatures, stateFeatures, springIOTEnabled, hiot, hv]
      rw [stateTail, if_neg (by omega), if_neg hv, hfd, if_neg fun h => hiot h.1]
      rfl

theorem stateHead_length (log1p : ℚ → ℚ) (p : SpringConfig)
    (springStats : ℕ → List SpringBlockStat) (senderPos : List ℚ) (flag : ℚ) :
    (stateHead log1p p springStats senderPos flag).length =
      11 * p.shardNum + if p.springMechanismVersion = .v3 then 0 else 1 := by
  have hflags : (if p.springMechanismVersion ≠ .v3 then [if flag ≠ 0 then 1 else flag]
      else []).length = if p.springMechanismVersion = .v3 then 0 else 1 := by
    by_cases hv : p.springMechanismVersion = .v3
    · simp [hv]
    · simp [hv]
  rw [stateHead, List.length_append, hflags]
  simp only [List.length_append, List.length_map, List.length_range, List.flatMap_cons,
    List.flatMap_nil, List.length_nil]
  omega

/-- The environment has the length that it checks for. -/
theorem state_length (log1p : ℚ → ℚ) (hp : p.Accepted) (hshards : 0 < p.shardNum)
    (springShardLoad : List ℕ) (senderPos : List ℚ) (flag : ℚ) {features cost : List ℚ}
    (hcost : cost.length = p.shardNum) :
    (stateHead log1p p springStats senderPos flag ++
      stateTail p springShardLoad features cost).length =
    inputDim p.shardNum (springConfiguredIOTFeatureDim p) p.springMechanismVersion := by
  rw [List.length_append, stateHead_length, stateTail, List.length_append, inputDim, stateDim]
  by_cases hv : p.springMechanismVersion = .v3
  · have hcosts : (if p.springFeatureMode = .full then cost.map fun v => springClamp v 0 1
        else List.replicate p.shardNum 0).length = p.shardNum := by
      split
      · rw [List.length_map, hcost]
      · rw [List.length_replicate]
    have hdim := configuredDim_v3 hp hv
    have hpos : springConfiguredIOTFeatureDim p > 0 := by omega
    simp only [if_pos hv, if_pos hpos, hcosts, List.length_append, loadShares, List.length_map,
      List.length_range]
    omega
  · rw [if_neg hv, if_neg hv, if_neg hv]
    split
    · rw [List.length_append, loadShares]
      simp only [List.length_map, List.length_range, List.length_nil]
      omega
    · simp only [List.length_nil]
      omega

/-- **The vectors are the same**: the same length, and the same entry at every position. -/
theorem state_parity (log1p : ℚ → ℚ) (mode : ℕ) (hp : p.Accepted) (hshards : 0 < p.shardNum)
    (hcross : ∀ sid, ∀ st ∈ springStats sid, 0 ≤ st.crossTx) (springShardLoad : List ℕ)
    (senderPos : List ℚ) (flag : ℚ) (features cost : List ℚ) (hcost : cost.length = p.shardNum)
    (hfeatures : p.springMechanismVersion = .v3 → features.length = 10) :
    (offlineState p mode springStats springShardLoad cost).buildStateFromSenderPos log1p senderPos
        flag features =
      some (springBuildStateFromSenderPos log1p p springStats springShardLoad senderPos flag
        (stateFeatures p features cost)) := by
  rw [buildStateFromSenderPos_eq log1p mode hcross]
  simp only
  rw [if_neg (not_not.mpr (state_length log1p hp hshards springShardLoad senderPos flag hcost)),
    stateTail_eq hp springShardLoad hcost hfeatures, stateHead, springBuildStateFromSenderPos]
  simp only [List.append_assoc]
  rfl

/-- One block, of shard 0. -/
def oneWindow : ℕ → List SpringBlockStat :=
  fun sid => if sid = 0 then [{ SpringBlockStat.zero with numTx := 3, crossTx := 1 / 2 }] else []

theorem oneWindow_nonneg : ∀ sid, ∀ st ∈ oneWindow sid, 0 ≤ st.crossTx := by
  intro sid st hst
  rw [oneWindow] at hst
  split at hst
  · obtain rfl := List.mem_singleton.mp hst
    norm_num
  · exact absurd hst List.not_mem_nil

/-- The third version, on real accounts. -/
def v3Config (shards : ℕ) : SpringConfig :=
  { SpringConfig.default shards with
    springIOTIdentityMode := 2
    springMechanismVersion := .v3
    springSceneCostMode := .cross }

theorem v3Config_accepted (shards : ℕ) : (v3Config shards).Accepted where
  v3 := fun _ => ⟨rfl, rfl, rfl, SceneCostMode.noConfusion, rfl⟩
  legacy := fun h => MechanismVersion.noConfusion h

/-- Two shards, one block: 36 entries. -/
theorem two_shards_state :
    (offlineState (v3Config 2) 0 oneWindow [1, 2] [1 / 4, 3 / 4]).buildStateFromSenderPos id [1, 0]
        1 (List.replicate 10 (1 / 2)) =
      some (springBuildStateFromSenderPos id (v3Config 2) oneWindow [1, 2] [1, 0] 1
        (stateFeatures (v3Config 2) (List.replicate 10 (1 / 2)) [1 / 4, 3 / 4])) :=
  state_parity id 0 (v3Config_accepted 2) (by decide) oneWindow_nonneg [1, 2] [1, 0] 1 _ _ rfl
    fun _ => rfl

/-- The legacy layout, with the features switched off: neither loader accepts it. -/
def legacyNoIot : SpringConfig := { SpringConfig.default 1 with springFeatureMode := .noIot }

/-- Then the environment drops the features, and the supervisor does not. -/
theorem legacy_without_features :
    ¬∀ (log1p : ℚ → ℚ) (p : SpringConfig) (mode : ℕ) (springStats : ℕ → List SpringBlockStat)
      (springShardLoad : List ℕ) (senderPos : List ℚ) (flag : ℚ) (features cost : List ℚ),
      0 < p.shardNum → (∀ sid, ∀ st ∈ springStats sid, 0 ≤ st.crossTx) →
        cost.length = p.shardNum → features.length = 10 →
        (offlineState p mode springStats springShardLoad cost).buildStateFromSenderPos log1p
            senderPos flag features =
          some (springBuildStateFromSenderPos log1p p springStats springShardLoad senderPos flag
            (stateFeatures p features cost)) := by
  intro h
  have hsame := h id legacyNoIot 0 oneWindow [0] [0] 0 (List.replicate 10 1) [0] (by decide)
    oneWindow_nonneg rfl rfl
  revert hsame
  decide +kernel

end BlockEmulator
