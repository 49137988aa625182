import BlockEmulator.RewardParity
import BlockEmulator.StateParity

/-!
# The local reward on both sides (`_place_address`)

Each placement is rewarded at once, for the related addresses that it joins, the load of
its shard and the scene costs that it leaves on other shards.

* `sum_others` — the costs on other shards, one by one, are the sum less one entry.
* `costVector_nonneg` — costs are never negative, so that the difference is not cut off.
* `local_reward_parity` — **the rewards and the load penalties agree**, for every
  decision, and are what the supervisor records.
-/

namespace BlockEmulator

/-! ## The environment's side -/

/-- `IOT_DENSE_REWARD_MODES`. -/
def iotDenseRewardModes : List OfflineRewardMode := [.iotDense, .iotDenseBalanced]

/-- `local_action_reward`. -/
def localActionReward (chosenShard : ℕ) (relatedKnown : Bool) (relatedShard : ℤ)
    (relatedWeight : ℚ) (shardLoadBefore : ℕ) (loadMeanBefore : ℚ) : ℚ × ℚ :=
  let reward : ℚ := 0
  let reward :=
    if relatedKnown then
      if (chosenShard : ℤ) = relatedShard then reward + 12 / 10 * relatedWeight
      else reward - 1 * relatedWeight
    else reward
  if loadMeanBefore > 1 / 1000000000 then
    let loadPenalty := shardLoadBefore / loadMeanBefore
    if loadPenalty > 1 then
      let overload := loadPenalty - 1
      let reward := reward - 70 / 100 * overload
      if loadPenalty > 125 / 100 then (reward - 35 / 100 * (loadPenalty - 125 / 100), loadPenalty)
      else (reward, loadPenalty)
    else (reward + 8 / 100 * (1 - loadPenalty), loadPenalty)
  else (reward, 0)

/-- `iot_dense_action_reward`. -/
def iotDenseActionReward (chosenShard : ℕ) (senderPos : List ℚ) (communicationCostWeight : ℚ)
    (shardLoadBefore : ℕ) (loadMeanBefore lowLoadBonusWeight lowLoadBonusCap : ℚ) : ℚ × ℚ :=
  let anchorMass :=
    if chosenShard < senderPos.length then springClamp (senderPos.getD chosenShard 0) 0 1 else 0
  let crossPenalty := if senderPos.sum > offlineEps then 1 - anchorMass else 0
  let reward := 14 / 10 * anchorMass - 8 / 10 * crossPenalty
  let reward := reward - 45 / 100 * springClamp communicationCostWeight 0 1 * crossPenalty
  if loadMeanBefore > 1 / 1000000000 then
    let loadPenalty := shardLoadBefore / loadMeanBefore
    if loadPenalty > 1 then
      let overload := loadPenalty - 1
      let reward := reward - 55 / 100 * overload
      if loadPenalty > 15 / 10 then (reward - 35 / 100 * (loadPenalty - 15 / 10), loadPenalty)
      else (reward, loadPenalty)
    else
      let underuseGap := 1 - loadPenalty
      let reward := reward + 10 / 100 * underuseGap
      let bonusCap := max 0 lowLoadBonusCap
      if lowLoadBonusWeight > 0 ∧ bonusCap > 0 then
        (reward + min bonusCap (lowLoadBonusWeight * underuseGap), loadPenalty)
      else (reward, loadPenalty)
  else (reward, 0)

/-- The local reward and the load penalty of `_place_address`; `none` is an
`IndexError`. -/
def placeLocalReward (config : OfflineConfig) (rewardMode : OfflineRewardMode)
    (shardLoad : List ℕ) (currentCostVector : List ℚ) (info : SenderPosInfo) (chosenShard : ℕ)
    (communicationCostWeight : ℚ) : Option (ℚ × ℚ) :=
  (shardLoad[chosenShard]?).bind fun shardLoadBefore =>
    let loadMeanBefore := if shardLoad ≠ [] then (shardLoad.sum : ℚ) / shardLoad.length else 0
    if rewardMode ∈ iotDenseRewardModes ∧ config.iotFeatureDim > 0 then
      let bonus : ℚ × ℚ := if rewardMode = .iotDenseBalanced then (25 / 100, 18 / 100) else (0, 0)
      let r := iotDenseActionReward chosenShard info.senderPos
        (if config.mechanismVersion = .legacy then communicationCostWeight else 0) shardLoadBefore
        loadMeanBefore bonus.1 bonus.2
      if config.mechanismVersion = .v3 ∧ config.sceneCostMode = .cross then
        (currentCostVector[chosenShard]?).map fun own =>
          (r.1 - 45 / 100 * max 0 (currentCostVector.sum - own), r.2)
      else some r
    else
      some (localActionReward chosenShard info.relatedKnown info.relatedShard info.relatedWeight
        shardLoadBefore loadMeanBefore)

/-- `current_cost_vector` of an address, from `cost_relations`; `none` is an
`IndexError`. -/
def currentCostVector (shards : ℕ) (addrShard : AddrShard) (costRelations : WeightMap)
    (addr : Address) : Option (List ℚ) :=
  let peers := (costRelations addr).entries.map fun e => (e.1, e.2)
  let sorted := peers.mergeSort fun e e' => e.1 ≤ e'.1
  let totalCost := (sorted.map (·.2)).sum
  if totalCost > offlineEps then
    sorted.foldlM (fun vector (e : Address × ℚ) =>
      match addrShard.lookup e.1 with
      | none => some vector
      | some sid => indexAdd vector sid (e.2 / totalCost)) (List.replicate shards 0)
  else some (List.replicate shards 0)

/-! ## The same terms -/

/-- The costs that are not of one index. -/
theorem sum_others_from (l : List ℚ) (i k : ℕ) :
    ((l.zipIdx k).map fun e => if e.2 ≠ i then e.1 else 0).sum +
      (if k ≤ i then l.getD (i - k) 0 else 0) = l.sum := by
  induction l generalizing k with
  | nil => simp
  | cons x l ih =>
    have h := ih (k + 1)
    rw [List.zipIdx_cons, List.map_cons, List.sum_cons, List.sum_cons]
    rcases lt_trichotomy k i with hlt | rfl | hgt
    · have hsub : i - k = i - (k + 1) + 1 := by omega
      rw [if_pos (show k + 1 ≤ i from hlt)] at h
      rw [if_pos (show (x, k).2 ≠ i from hlt.ne), if_pos hlt.le, hsub, List.getD_cons_succ]
      linarith
    · rw [if_neg (by omega)] at h
      rw [if_neg (not_not.mpr rfl), if_pos le_rfl, Nat.sub_self, List.getD_cons_zero]
      linarith
    · rw [if_neg (by omega)] at h
      rw [if_pos (show (x, k).2 ≠ i from hgt.ne'), if_neg (not_le.mpr hgt)]
      linarith

/-- So the sum over the other shards is the sum less one entry. -/
theorem sum_others (l : List ℚ) (i : ℕ) :
    (l.zipIdx.map fun e => if e.2 ≠ i then e.1 else 0).sum = l.sum - l.getD i 0 := by
  have h := sum_others_from l i 0
  rw [if_pos (Nat.zero_le i), Nat.sub_zero] at h
  linarith

/-- With no negative cost nothing is cut off. -/
theorem max_others {l : List ℚ} (hl : ∀ c ∈ l, 0 ≤ c) {i : ℕ} (hi : i < l.length) :
    max 0 (l.sum - l.getD i 0) = l.sum - l.getD i 0 := by
  rw [List.getD_eq_getElem _ _ hi]
  exact max_eq_right (sub_nonneg.mpr (List.single_le_sum hl _ (List.getElem_mem hi)))

/-- The dense rewards, with the bonus of the balanced mode. -/
theorem iotDenseActionReward_eq (chosen : ℕ) (senderPos : List ℚ) (cost : ℚ) (load : ℕ)
    (mean : ℚ) :
    iotDenseActionReward chosen senderPos cost load mean (25 / 100) (18 / 100) =
      springIOTDenseActionReward chosen senderPos cost load mean := by
  have hcap : max (0 : ℚ) (18 / 100) = 18 / 100 := by norm_num
  have hbonus : (25 / 100 : ℚ) > 0 ∧ (18 / 100 : ℚ) > 0 := by norm_num
  simp only [iotDenseActionReward, springIOTDenseActionReward, offlineEps, hcap, if_pos hbonus]
  split
  · split
    · split
      · rfl
      · rfl
    · exact Prod.ext (add_assoc _ _ _) rfl
  · rfl

/-- `SenderPosInfo`, for what the supervisor knows. -/
def SenderPos.info (pos : SenderPos) : SenderPosInfo where
  senderPos := pos.senderPos
  relatedSummary := pos.relatedSummary
  relatedKnown := pos.relatedKnown
  relatedShard := (pos.relatedShard.map fun (sid : ℕ) => (sid : ℤ)).getD (-1)
  relatedWeight := pos.relatedWeight
  relatedInCurrentBatch := pos.relatedInCurrentBatch
  relatedCount := pos.relatedCount

/-- The rewards without scenes: no shard is the shard `-1`. -/
theorem localActionReward_eq (chosen : ℕ) (pos : SenderPos) (load : ℕ) (mean : ℚ) :
    localActionReward chosen pos.info.relatedKnown pos.info.relatedShard pos.info.relatedWeight
        load mean =
      springLocalActionReward chosen pos.relatedKnown pos.relatedShard pos.relatedWeight load
        mean := by
  have hshard : (chosen : ℤ) = pos.info.relatedShard ↔ pos.relatedShard = some chosen := by
    rw [SenderPos.info]
    cases pos.relatedShard with
    | none => simp
    | some sid => simp [eq_comm]
  simp only [localActionReward, springLocalActionReward, SenderPos.info, zero_add, zero_sub,
    one_mul] at hshard ⊢
  simp only [hshard]
  split
  · split
    · split
      · rfl
      · rfl
    · rfl
  · rfl

/-! ## The same sender position -/

/-- The first shard with the most related addresses, on both sides. -/
theorem major_eq (counts : List ℕ) :
    counts.zipIdx.foldl (fun (m : ℕ × ℤ) (e : ℕ × ℕ) => if e.1 > m.1 then (e.1, (e.2 : ℤ)) else m)
        (0, -1) =
      ((majorOf counts).2, ((majorOf counts).1.map fun (sid : ℕ) => (sid : ℤ)).getD (-1)) := by
  rw [majorOf]
  suffices h : ∀ (l : List (ℕ × ℕ)) (m : ℕ × ℤ) (m' : Option ℕ × ℕ), m.1 = m'.2 →
      m.2 = (m'.1.map fun (sid : ℕ) => (sid : ℤ)).getD (-1) →
      let r := l.foldl (fun (m : ℕ × ℤ) (e : ℕ × ℕ) => if e.1 > m.1 then (e.1, (e.2 : ℤ)) else m) m
      let r' := l.foldl
        (fun (m : Option ℕ × ℕ) (e : ℕ × ℕ) => if m.2 < e.1 then (some e.2, e.1) else m) m'
      r.1 = r'.2 ∧ r.2 = (r'.1.map fun (sid : ℕ) => (sid : ℤ)).getD (-1) by
    obtain ⟨h₁, h₂⟩ := h counts.zipIdx (0, -1) (none, 0) rfl rfl
    exact Prod.ext h₁ h₂
  intro l
  induction l with
  | nil => exact fun m m' h₁ h₂ => ⟨h₁, h₂⟩
  | cons e l ih =>
    intro m m' h₁ h₂
    rw [List.foldl_cons, List.foldl_cons, h₁]
    by_cases hlt : m'.2 < e.1
    · rw [if_pos hlt, if_pos hlt]
      exact ih _ _ rfl rfl
    · rw [if_neg hlt, if_neg hlt]
      exact ih m m' h₁ h₂

/-- What the environment knows of the related addresses is what the supervisor knows. -/
theorem buildSenderPos_info {p : SpringConfig} {mode : ℕ} {env : SpringOfflineEnv}
    (hconfig : env.config = offlineConfig p mode) {related : RelatedMap} (hproper : related.Proper)
    (batch : BatchPlacement) {addr : Address} {fallback : Option Address}
    (hfallback : ∀ peer, fallback = some peer → peer ≠ addr) :
    env.buildSenderPos addr fallback batch related =
      (springBuildSenderPos p env.addrShard addr (fallback.getD "") batch related).info := by
  have hsummary := (buildSenderPos_eq hconfig hproper batch hfallback).2
  have hshards : env.config.shards = p.shardNum := by rw [hconfig]; rfl
  have hcount := countRelated_eq hconfig batch
    (sortedAddresses (relatedSet p addr (fallback.getD "") related))
    ⟨List.replicate p.shardNum 0, 0, false⟩
  unfold SpringOfflineEnv.buildSenderPos springBuildSenderPos at hsummary ⊢
  dsimp only at hcount hsummary ⊢
  rw [relatedSet_eq hconfig, relatedSet_filter p hproper hfallback] at hsummary ⊢
  rw [hshards, hcount]
  dsimp only
  rw [hsummary, major_eq, SenderPos.info]
  have hknown : ∀ major : Option ℕ,
      ((major.map fun (sid : ℕ) => (sid : ℤ)).getD (-1) ≥ 0) = (major.isSome = true) := by
    intro major
    cases major with
    | none => simp
    | some sid => simp
  simp only [hknown]

/-! ## The costs of an address -/

/-- Costs by peer, none negative. -/
def CostsNonneg (relations : WeightMap) : Prop := ∀ a, ∀ e ∈ (relations a).entries, 0 ≤ e.2

/-- Every peer adds a share that is not negative. -/
theorem foldlM_costs_nonneg {t : AddrShard} {total : ℚ} (htotal : 0 ≤ total)
    (peers : List (Address × ℚ)) (hpeers : ∀ e ∈ peers, 0 ≤ e.2) {start vector : List ℚ}
    (hstart : ∀ c ∈ start, 0 ≤ c)
    (h : peers.foldlM (fun vector (e : Address × ℚ) =>
      match t.lookup e.1 with
      | none => some vector
      | some sid => indexAdd vector sid (e.2 / total)) start = some vector) :
    (∀ c ∈ vector, 0 ≤ c) ∧ vector.length = start.length := by
  induction peers generalizing start with
  | nil =>
    obtain rfl := Option.some.inj h
    exact ⟨hstart, rfl⟩
  | cons e peers ih =>
    have hrest : ∀ e' ∈ peers, 0 ≤ e'.2 := fun e' he' => hpeers e' (List.mem_cons_of_mem _ he')
    rw [List.foldlM_cons] at h
    obtain ⟨next, hnext, h⟩ := Option.bind_eq_some_iff.mp h
    split at hnext
    · obtain rfl := Option.some.inj hnext
      exact ih hrest hstart h
    · have hshare : 0 ≤ e.2 / total := div_nonneg (hpeers e List.mem_cons_self) htotal
      obtain ⟨hnonneg, hlen⟩ := indexAdd_nonneg hstart hshare hnext
      obtain ⟨hvector, hlen'⟩ := ih hrest hnonneg h
      exact ⟨hvector, hlen'.trans hlen⟩

/-- The costs of an address by shard: one entry for each, and none negative. -/
theorem costVector_nonneg {p : SpringConfig} {t : AddrShard} {relations : WeightMap}
    (hcosts : CostsNonneg relations) {addr : Address} {vector : List ℚ}
    (h : costVector p t relations addr = some vector) :
    (∀ c ∈ vector, 0 ≤ c) ∧ vector.length = p.shardNum := by
  have hzero : ∀ c ∈ List.replicate p.shardNum (0 : ℚ), 0 ≤ c := fun c hc =>
    (List.eq_of_mem_replicate hc).ge
  unfold costVector at h
  dsimp only at h
  split at h
  · rename_i hv
    have hpeers : ∀ e ∈ (((relations addr).entries.map fun e => (e.1, e.2)).mergeSort
        fun e e' => e.1 ≤ e'.1), 0 ≤ e.2 := by
      intro e he
      obtain ⟨e', he', rfl⟩ := List.mem_map.mp (List.mem_mergeSort.mp he)
      exact hcosts addr e' he'
    obtain ⟨hvector, hlen⟩ :=
      foldlM_costs_nonneg (le_trans (by norm_num) hv.2.le) _ hpeers hzero h
    exact ⟨hvector, hlen.trans List.length_replicate⟩
  · obtain rfl := Option.some.inj h
    exact ⟨hzero, List.length_replicate⟩

theorem CostsNonneg.add {relations : WeightMap} (h : CostsNonneg relations) (a b : Address)
    {cost : ℚ} (hcost : 0 ≤ cost) : CostsNonneg (relations.add a b cost) := by
  intro a' e he
  rw [WeightMap.add, Function.update_apply] at he
  split at he
  · rw [AList.entries_insert, List.mem_cons] at he
    rcases he with rfl | he
    · refine add_nonneg ?_ hcost
      cases hb : (relations a).lookup b with
      | none => exact le_rfl
      | some v => exact h a ⟨b, v⟩ (AList.mem_lookup_iff.mp hb)
    · exact h a e ((List.kerase_sublist b (relations a).entries).subset he)
  · exact h a' e he

/-- The costs in the scene data are not negative, so neither are those of a batch. -/
theorem realCostRelations_nonneg (p : SpringConfig) {rows : SceneRows}
    (hrows : ∀ n feature, rows n = some feature → 0 ≤ feature.communicationCostWeight)
    (txs : List Transaction) : CostsNonneg (realCostRelations p rows txs) := by
  have hempty : CostsNonneg fun _ => ∅ := fun a e he => absurd he List.not_mem_nil
  rw [realCostRelations]
  split
  · generalize (fun _ => ∅ : WeightMap) = relations at hempty
    induction txs generalizing relations with
    | nil => exact hempty
    | cons tx txs ih =>
      refine ih _ ?_
      have hcost : 0 ≤ ((rows tx.nonce).map (·.communicationCostWeight)).getD 0 := by
        cases hrow : rows tx.nonce with
        | none => exact le_rfl
        | some feature => exact hrows tx.nonce feature hrow
      dsimp only
      split
      · exact hempty
      · exact (hempty.add _ _ hcost).add _ _ hcost
  · exact hempty

/-- The vector of the environment is that of the supervisor. -/
theorem currentCostVector_eq {p : SpringConfig} (hv : p.springMechanismVersion = .v3)
    (t : AddrShard) (relations : WeightMap) (addr : Address) :
    currentCostVector p.shardNum t relations addr = costVector p t relations addr := by
  simp only [currentCostVector, costVector, hv, true_and]
  rfl

/-! ## The reward of a decision -/

/-- What a caller passes of the costs, and the vector of the environment. Only the third
version reads the vector. -/
structure SceneCosts (p : SpringConfig) (shards : ℕ) (iotCosts : Option (List ℚ))
    (vector : List ℚ) : Prop where
  /-- the vector comes behind the cost of the scene -/
  passed : p.springMechanismVersion = .v3 → ∃ cost, iotCosts = some (cost :: vector)
  /-- one entry for each shard -/
  length : p.springMechanismVersion = .v3 → vector.length = shards
  /-- no cost is negative -/
  nonneg : p.springMechanismVersion = .v3 → ∀ c ∈ vector, 0 ≤ c

section

variable {H : Type} (E : SpringEnv H)

theorem ppoLocalReward_eq (mode : ℕ) {rewardMode : OfflineRewardMode}
    (hmode : E.p.springIOTMode = 1 → rewardMode = .iotDenseBalanced) (st : PlacementState)
    (pos : SenderPos) {chosen : ℕ} (hchosen : chosen < st.springShardLoad.length)
    {iotCosts : Option (List ℚ)} {vector : List ℚ}
    (hcosts : SceneCosts E.p st.springShardLoad.length iotCosts vector) :
    placeLocalReward (offlineConfig E.p mode) rewardMode st.springShardLoad vector pos.info chosen
        ((iotCosts.getD []).headD 0) =
      some (ppoLocalReward E st pos chosen iotCosts) := by
  have hne : st.springShardLoad ≠ [] := List.ne_nil_of_length_pos (by omega)
  have hload : st.springShardLoad[chosen]? = some (st.springShardLoad.getD chosen 0) := by
    rw [List.getElem?_eq_getElem hchosen, List.getD_eq_getElem _ _ hchosen]
  have hmean : (if st.springShardLoad ≠ [] then
      (st.springShardLoad.sum : ℚ) / st.springShardLoad.length else 0) =
      springMeanInt st.springShardLoad := by
    rw [if_pos hne, springMeanInt, if_neg (by omega)]
  rw [placeLocalReward, ppoLocalReward, hload, Option.bind_some]
  dsimp only
  rw [hmean]
  by_cases hiot : E.p.springIOTMode = 1
  · have hdense : rewardMode ∈ iotDenseRewardModes ∧ (offlineConfig E.p mode).iotFeatureDim > 0 :=
      ⟨by rw [hmode hiot]; decide, configuredDim_pos hiot⟩
    have henabled : springIOTEnabled E.p = true := decide_eq_true hiot
    rw [if_pos hdense, if_pos (hmode hiot), if_pos henabled, iotDenseActionReward_eq]
    by_cases hv : E.p.springMechanismVersion = .v3
    · obtain ⟨cost, rfl⟩ := hcosts.passed hv
      have hi : chosen < vector.length := by rw [hcosts.length hv]; exact hchosen
      have hlegacy : ¬(offlineConfig E.p mode).mechanismVersion = .legacy := by
        rw [offlineConfig, hv]
        exact MechanismVersion.noConfusion
      have hothers : (vector.zipIdx.map fun e => if e.2 ≠ chosen then e.1 else 0).sum =
          max 0 (vector.sum - vector[chosen]) := by
        rw [sum_others, ← max_others (hcosts.nonneg hv) hi, List.getD_eq_getElem _ _ hi]
      rw [if_pos hv, if_neg hlegacy]
      by_cases hcross : E.p.springSceneCostMode = .cross
      · rw [if_pos ⟨hv, hcross⟩, List.getElem?_eq_getElem hi, Option.map_some]
        simp only [if_pos hcross, hothers]
        rfl
      · rw [if_neg fun h => hcross h.2]
        simp only [if_neg hcross]
        rfl
    · have hlegacy : (offlineConfig E.p mode).mechanismVersion = .legacy := by
        rw [offlineConfig]
        cases h : E.p.springMechanismVersion with
        | legacy => rfl
        | v3 => exact absurd h hv
      rw [if_neg hv, if_pos hlegacy, if_neg fun h => hv h.1]
      rfl
  · have hdim : ¬(offlineConfig E.p mode).iotFeatureDim > 0 := by
      rw [offlineConfig, springConfiguredIOTFeatureDim, if_pos hiot]
      exact lt_irrefl 0
    have henabled : ¬springIOTEnabled E.p = true := fun h => hiot (of_decide_eq_true h)
    rw [if_neg fun h => hdim h.2, if_neg henabled, localActionReward_eq]

/-- The action that a decision returns, when it returns one. -/
theorem eq_of_ite_some {α β : Type} {c : Prop} [Decidable c] {x x' z : α} {y w : β}
    (h : (if c then (x, none) else (x', some y)) = (z, some w)) : y = w := by
  split at h
  · cases h
  · cases h
    rfl

/-- What the supervisor records of a decision is the reward of its shard. -/
theorem springPlaceAddressPPOSequential_reward {s : Placing} {addr related : Address}
    {batchRelated : RelatedMap} {extraFeatures : List ℚ} {iotCosts : Option (List ℚ)}
    {s' : Placing} {a : SpringTrainAction}
    (h : springPlaceAddressPPOSequential E s addr related batchRelated extraFeatures iotCosts =
      some (s', some a)) :
    let pos := springBuildSenderPos E.p s.1.springAddrShard addr related s.2 batchRelated
    a.action < s.1.springShardLoad.length ∧ a.senderPos = pos.senderPos ∧
      (a.localReward, a.loadPenalty) = ppoLocalReward E s.1 pos a.action iotCosts := by
  intro pos
  unfold springPlaceAddressPPOSequential at h
  split at h
  · cases h
  · split at h
    · cases h
    · dsimp only [springCallPythonBatch] at h
      generalize E.callPython _ _ = results at h
      split at h
      all_goals
        split at h
        · cases h
        · obtain ⟨t, ht, hrecord⟩ := Option.map_eq_some_iff.mp h
          obtain rfl := eq_of_ite_some hrecord
          unfold commitPlacement at ht
          split at ht
          · rename_i hlt
            exact ⟨hlt, rfl, rfl⟩
          · cases ht

/-- **The local rewards agree**, for every sender position, shard, loads and costs; and
they are what is recorded. -/
theorem local_reward_parity (mode : ℕ) {rewardMode : OfflineRewardMode}
    (hmode : E.p.springIOTMode = 1 → rewardMode = .iotDenseBalanced) :
    (∀ (st : PlacementState) (pos : SenderPos) (chosen : ℕ) (iotCosts : Option (List ℚ))
      (vector : List ℚ), chosen < st.springShardLoad.length →
        SceneCosts E.p st.springShardLoad.length iotCosts vector →
        placeLocalReward (offlineConfig E.p mode) rewardMode st.springShardLoad vector pos.info
            chosen ((iotCosts.getD []).headD 0) =
          some (ppoLocalReward E st pos chosen iotCosts)) ∧
    ∀ (s : Placing) (addr related : Address) (batchRelated : RelatedMap) (extraFeatures : List ℚ)
      (iotCosts : Option (List ℚ)) (vector : List ℚ) (s' : Placing) (a : SpringTrainAction),
      springPlaceAddressPPOSequential E s addr related batchRelated extraFeatures iotCosts =
        some (s', some a) →
      SceneCosts E.p s.1.springShardLoad.length iotCosts vector →
      let pos := springBuildSenderPos E.p s.1.springAddrShard addr related s.2 batchRelated
      placeLocalReward (offlineConfig E.p mode) rewardMode s.1.springShardLoad vector pos.info
          a.action ((iotCosts.getD []).headD 0) =
        some (a.localReward, a.loadPenalty) := by
  refine ⟨fun st pos chosen iotCosts vector hchosen hcosts =>
    ppoLocalReward_eq E mode hmode st pos hchosen hcosts, ?_⟩
  intro s addr related batchRelated extraFeatures iotCosts vector s' a h hcosts pos
  obtain ⟨hlt, -, hreward⟩ := springPlaceAddressPPOSequential_reward E h
  rw [ppoLocalReward_eq E mode hmode s.1 pos hlt hcosts, hreward]

end

/-- The third version on two shards; Python answers with shard 0. -/
def v3Env : SpringEnv FreeHash :=
  { tableEnv with
    p := { v3Config 2 with springCandidateTopK := 0 }
    callPython := fun _ _ =>
      some [{ SpringBatchInferResult.zero with batchID := 1, source := "python_ppo" }] }

/-- Half of the costs are on the other shard. -/
theorem v3Env_costs : SceneCosts v3Env.p 2 (some [1 / 5, 1 / 2, 1 / 2]) [1 / 2, 1 / 2] where
  passed := fun _ => ⟨1 / 5, rfl⟩
  length := fun _ => rfl
  nonneg := fun _ => by decide +kernel

/-- The first address is placed, and rewarded alike. -/
theorem first_address_rewarded : ∃ s' a,
    springPlaceAddressPPOSequential v3Env (.new v3Env.p, ∅) plainTransaction.sender "" (fun _ => ∅)
      [] (some [1 / 5, 1 / 2, 1 / 2]) = some (s', some a) ∧
    placeLocalReward (offlineConfig v3Env.p 0) .iotDenseBalanced [0, 0] [1 / 2, 1 / 2]
        (springBuildSenderPos v3Env.p ∅ plainTransaction.sender "" ∅ fun _ => ∅).info a.action
        (1 / 5) = some (a.localReward, a.loadPenalty) := by
  have hplaced : (springPlaceAddressPPOSequential v3Env (.new v3Env.p, ∅) plainTransaction.sender ""
      (fun _ => ∅) [] (some [1 / 5, 1 / 2, 1 / 2])).any (·.2.isSome) = true := by
    decide +kernel
  obtain ⟨⟨s', action⟩, hr, hsome⟩ := (Option.any_eq_true _ _).mp hplaced
  obtain ⟨a, rfl⟩ := Option.isSome_iff_exists.mp hsome
  exact ⟨s', a, hr, (local_reward_parity v3Env 0 fun _ => rfl).2 _ _ _ _ _ _ _ s' a hr v3Env_costs⟩

end BlockEmulator
