import BlockEmulator.MaskGuarantees
import BlockEmulator.RecordedDecision

/-!
# A replayed decision

The restored environment has the pressures and the scores of the supervisor. It has its mask
exactly if the two guards, which compare with thresholds of their own, agree on the shards
that either of them keeps.

* `mem_guardAllowed_iff` — which shards the guard lets pass.
* `maskAllows_iff` — **the mask**, cut or not: the best of them.
* `restored_pressures` — the shares have the pressures of the placements.
* `restored_mask` — the mask of the restored environment, as one of the supervisor.
* `decision_replayed` — **when a decision is replayed.**
-/

namespace BlockEmulator

open Selection

/-! ## What the guard lets pass -/

namespace CandidateView

variable (v : CandidateView)

/-- The mean of the pressures. -/
def meanLoad : ℚ := meanLoadOf v.p v.springStats (decide (0 < v.springShardLoad.sum))

/-- The guard lets a shard pass. -/
def GuardLets (sid : ℕ) : Prop :=
  v.p.springCapacityGuard = 0 ∨ v.meanLoad ≤ 1 / 1000000000 ∨
    pressureOf v sid ≤ v.meanLoad * max 1 v.p.springCapacityGuardFactor

instance : DecidablePred v.GuardLets := fun _ =>
  inferInstanceAs (Decidable (_ ∨ _ ∨ _))

variable {v}

/-- Not every shard is above the mean. -/
theorem exists_le_meanLoad (hlen : v.springShardLoad.length = v.p.shardNum) (hp : 0 < v.p.shardNum) :
    ∃ sid < v.p.shardNum, pressureOf v sid ≤ v.meanLoad := by
  have hne : List.range v.p.shardNum ≠ [] := by
    rw [Ne, List.range_eq_nil]
    exact hp.ne'
  have hpos : (v.p.shardNum : ℚ) ≠ 0 := by exact_mod_cast hp.ne'
  have hsum : ((List.range v.p.shardNum).map (pressureOf v)).sum =
      ((List.range v.p.shardNum).map fun _ => v.meanLoad).sum := by
    rw [List.map_const', List.sum_replicate, List.length_range, nsmul_eq_mul, meanLoad,
      ← sum_pressureOf hlen, mul_div_cancel₀ _ hpos]
  obtain ⟨sid, hsid, hle⟩ := List.exists_le_of_sum_le hne _ _ hsum.le
  exact ⟨sid, List.mem_range.mp hsid, hle⟩

/-- The pressures have their mean. -/
theorem take_pressures (hlen : v.springShardLoad.length = v.p.shardNum) :
    (v.springCandidateLoadPressures.take v.p.shardNum).sum / v.p.shardNum = v.meanLoad := by
  rw [springCandidateLoadPressures_eq hlen, List.take_of_length_le (by simp), sum_pressureOf hlen]
  rfl

/-- A pressure, read at a shard. -/
theorem springCandidateLoadPressures_getD (hlen : v.springShardLoad.length = v.p.shardNum)
    {sid : ℕ} (hsid : sid < v.p.shardNum) :
    v.springCandidateLoadPressures.getD sid 0 = pressureOf v sid := by
  rw [springCandidateLoadPressures_eq hlen, getD_map_range _ _ hsid]

/-- The guard that is on, above the mean it reads: the shards up to the threshold. A factor of
one or more cannot close every shard. -/
theorem guardedMask_on (hlen : v.springShardLoad.length = v.p.shardNum) (hp : 0 < v.p.shardNum)
    (hoff : v.p.springCapacityGuard ≠ 0) (hlow : ¬ v.meanLoad ≤ 1 / 1000000000) :
    v.guardedMask = some ((List.range v.p.shardNum).map fun sid =>
      if v.springCandidateLoadPressures.getD sid 0 ≤
        v.meanLoad * max 1 v.p.springCapacityGuardFactor then 1 else 0) := by
  have hfactor : (if v.p.springCapacityGuardFactor < 1 then 1 else v.p.springCapacityGuardFactor) =
      max 1 v.p.springCapacityGuardFactor := by
    split
    next hlt => rw [max_eq_left hlt.le]
    next hge => rw [max_eq_right (not_lt.mp hge)]
  let threshold := v.meanLoad * max 1 v.p.springCapacityGuardFactor
  have hcount : springActionMaskCount ((List.range v.p.shardNum).map fun sid =>
      if v.springCandidateLoadPressures.getD sid 0 ≤ threshold then 1 else 0) > 0 := by
    obtain ⟨low, hlt, hle⟩ := exists_le_meanLoad hlen hp
    have hmean : 0 ≤ v.meanLoad := (by norm_num : (0 : ℚ) ≤ 1 / 1000000000).trans (not_le.mp hlow).le
    have hscaled : v.meanLoad ≤ threshold := le_mul_of_one_le_right hmean (le_max_left _ _)
    have hmem : low ∈ (List.range v.p.shardNum).filter fun sid =>
        v.springCandidateLoadPressures.getD sid 0 ≤ threshold := by
      refine List.mem_filter.mpr ⟨List.mem_range.mpr hlt, decide_eq_true ?_⟩
      rw [springCandidateLoadPressures_getD hlen hlt]
      exact hle.trans hscaled
    rw [springActionMaskCount_map]
    exact List.length_pos_of_mem hmem
  rw [guardedMask, if_pos ⟨hoff, hlen ▸ hp⟩]
  dsimp only
  rw [take_pressures hlen, if_pos (not_le.mp hlow), hfactor]
  exact if_pos hcount

/-- **Which shards the guard lets pass.** -/
theorem mem_guardAllowed_iff (hlen : v.springShardLoad.length = v.p.shardNum)
    (hp : 0 < v.p.shardNum) {sid : ℕ} :
    sid ∈ v.guardAllowed ↔ sid < v.p.shardNum ∧ v.GuardLets sid := by
  have hall : v.guardedMask = none → (∀ sid, v.GuardLets sid) →
      (sid ∈ v.guardAllowed ↔ sid < v.p.shardNum ∧ v.GuardLets sid) := by
    intro hnone hlets
    rw [mem_guardAllowed, guardMask, hnone, Option.getD_none, maskAllows_replicate, and_self]
    exact (and_iff_left (hlets sid)).symm
  by_cases hoff : v.p.springCapacityGuard = 0
  · exact hall (by rw [guardedMask, if_neg fun h => h.1 hoff]) fun sid => .inl hoff
  by_cases hlow : v.meanLoad ≤ 1 / 1000000000
  · refine hall ?_ fun sid => .inr (.inl hlow)
    rw [guardedMask, if_pos ⟨hoff, hlen ▸ hp⟩]
    dsimp only
    rw [take_pressures hlen, if_neg (not_lt.mpr hlow)]
  · rw [mem_guardAllowed, guardMask, guardedMask_on hlen hp hoff hlow, Option.getD_some,
      maskAllows_map]
    constructor
    · rintro ⟨hsid, -, hle⟩
      rw [springCandidateLoadPressures_getD hlen hsid] at hle
      exact ⟨hsid, .inr (.inr hle)⟩
    · rintro ⟨hsid, hlets⟩
      refine ⟨hsid, hsid, ?_⟩
      rw [springCandidateLoadPressures_getD hlen hsid]
      exact (hlets.resolve_left hoff).resolve_left hlow

/-! ## The mask -/

/-- How many shards a mask can have. -/
def cutSize (p : SpringConfig) : ℕ :=
  if 0 < p.springCandidateTopK ∧ p.springCandidateTopK < p.shardNum then p.springCandidateTopK
  else p.shardNum

/-- **The mask**: the best of what the guard lets pass. -/
theorem maskAllows_iff (v : CandidateView) (hlen : v.springShardLoad.length = v.p.shardNum) (hp : 0 < v.p.shardNum)
    (addr : Address) (senderPos : List ℚ) {sid : ℕ} :
    MaskAllows (v.springBuildCandidateActionMask addr senderPos) sid ↔
      sid ∈ best (candidateLess (v.springCandidateScores addr senderPos)) (cutSize v.p)
        ((List.range v.p.shardNum).filter v.GuardLets) := by
  have hallowed : v.guardAllowed = (List.range v.p.shardNum).filter v.GuardLets := by
    rw [guardAllowed]
    refine List.filter_congr fun sid hsid => decide_eq_decide.mpr ?_
    have hsid := List.mem_range.mp hsid
    rw [← and_iff_right (a := sid < v.p.shardNum) (b := v.GuardLets sid) hsid,
      ← mem_guardAllowed_iff hlen hp, mem_guardAllowed]
    exact (and_iff_right hsid).symm
  rw [← hallowed, cutSize]
  split
  next hcut => exact maskAllows_cut hcut.1 hcut.2 addr senderPos
  next hcut =>
    have hsize : v.guardAllowed.length ≤ v.p.shardNum :=
      (List.length_filter_le _ _).trans_eq List.length_range
    rw [maskAllows_guard hp hcut, mem_best_of_length_le hsize]

/-- Every entry of a mask is zero or one. -/
theorem springBuildCandidateActionMask_le (v : CandidateView) (addr : Address)
    (senderPos : List ℚ) : ∀ x ∈ v.springBuildCandidateActionMask addr senderPos, x ≤ 1 := by
  have hones : ∀ x ∈ List.replicate v.p.shardNum 1, x ≤ 1 := fun x hx =>
    (List.eq_of_mem_replicate hx).le
  have hnormal : ∀ mask, ∀ x ∈ springNormalizeActionMask v.p.shardNum mask, x ≤ 1 := by
    intro mask x hx
    unfold springNormalizeActionMask at hx
    dsimp only at hx
    split at hx
    · exact hones x hx
    · obtain ⟨sid, -, rfl⟩ := List.mem_map.mp hx
      split
      · exact le_rfl
      · exact Nat.zero_le 1
  unfold springBuildCandidateActionMask
  dsimp only
  split
  · exact fun x hx => absurd hx List.not_mem_nil
  · split
    · exact hones
    · split
      · exact hnormal _
      · exact hnormal _

end CandidateView

/-- Masks of zeros and ones are the same if they allow the same. -/
theorem mask_eq_iff {shards : ℕ} {a b : List ℕ} (ha : a.length = shards) (hb : b.length = shards)
    (ha' : ∀ x ∈ a, x ≤ 1) (hb' : ∀ x ∈ b, x ≤ 1) :
    a = b ↔ ∀ sid, MaskAllows a sid ↔ MaskAllows b sid := by
  constructor
  · rintro rfl sid
    exact Iff.rfl
  · intro hsame
    refine List.ext_getElem (ha.trans hb.symm) fun sid hsid hsid' => ?_
    have hat := hsame sid
    rw [MaskAllows, MaskAllows, List.getD_eq_getElem _ _ hsid, List.getD_eq_getElem _ _ hsid'] at hat
    have hle := ha' _ (List.getElem_mem hsid)
    have hle' := hb' _ (List.getElem_mem hsid')
    omega

/-! ## The restored environment -/

section Restored

variable {H : Type} (F : HashFns H) (config : ParamsConfig) {p : SpringConfig}
  (d : RecordedDecision p)

/-- A share is between zero and one. -/
theorem loadShares_eq (p : SpringConfig) (loads : List ℕ) :
    loadShares p loads = (List.range p.shardNum).map fun sid =>
      if loads.sum > 0 then ((loads.getD sid 0 : ℕ) : ℚ) / (loads.sum : ℕ) else 0 := by
  refine List.map_congr_left fun sid _ => ?_
  split
  · exact springClamp_share loads sid
  · exact springClamp_eq_self le_rfl zero_le_one

/-- The shares add up to one, once something is placed. -/
theorem sum_loadShares {loads : List ℕ} (hlen : loads.length = p.shardNum) :
    (loadShares p loads).sum = if loads.sum > 0 then 1 else 0 := by
  rw [loadShares_eq]
  split
  next hpos =>
    have hne : ((loads.sum : ℕ) : ℚ) ≠ 0 := by exact_mod_cast hpos.ne'
    simp only [div_eq_mul_inv, List.sum_map_mul_right]
    rw [← hlen, map_getD_range, ← Nat.cast_list_sum, mul_inv_cancel₀ hne]
  next => simp

/-- What a shard has of the placements, by its share. -/
theorem restored_placement {sid : ℕ} (hsid : sid < p.shardNum) :
    (if (loadShares p d.springShardLoad).sum > offlineEps ∧
        sid < (loadShares p d.springShardLoad).length then
      (loadShares p d.springShardLoad).getD sid 0 / (loadShares p d.springShardLoad).sum *
        placementScale p else 0) =
      if d.springShardLoad.sum > 0 then
        ((d.springShardLoad.getD sid 0 : ℕ) : ℚ) / (d.springShardLoad.sum : ℕ) *
          placementScale p else 0 := by
  rw [sum_loadShares d.length, RecordedDecision.loadShares_length, loadShares_eq,
    getD_map_range _ _ hsid]
  by_cases hpos : d.springShardLoad.sum > 0
  · have heps : (1 : ℚ) > offlineEps := by norm_num [offlineEps]
    simp only [if_pos hpos, if_pos (And.intro heps hsid), div_one]
  · have heps : ¬ (0 : ℚ) > offlineEps := by norm_num [offlineEps]
    simp only [if_neg hpos, if_neg fun h : (0 : ℚ) > offlineEps ∧ sid < p.shardNum => heps h.1]

/-- What a shard has of the recent blocks: the windows are the last five of them, the oldest
first. -/
theorem restored_recent {sid : ℕ} (hsid : sid < p.shardNum) :
    (((d.restored config).recentStats.filter fun num => sid < num.length).map
      fun num => num.getD sid 0).sum / max 1 ((d.restored config).recentStats.length : ℚ) =
      ((List.range 5).map fun back =>
        ((springGetStat d.springStats sid back).numTx : ℚ)).sum / 5 := by
  have hfilter : (d.restored config).recentStats.filter (fun num => decide (sid < num.length)) =
      (d.restored config).recentStats := by
    refine List.filter_eq_self.mpr fun num hnum => decide_eq_true ?_
    obtain ⟨i, -, rfl⟩ := List.mem_map.mp hnum
    rwa [List.length_map, List.length_range]
  have hread : (fun num : List ℚ => num.getD sid 0) ∘ (fun i => (List.range p.shardNum).map
      fun sid => ((springGetStat d.springStats sid (4 - i)).numTx : ℚ)) =
      fun i => ((springGetStat d.springStats sid (4 - i)).numTx : ℚ) :=
    funext fun i => getD_map_range _ _ hsid
  have hcount : max 1 ((d.restored config).recentStats.length : ℚ) = 5 := by
    simp [RecordedDecision.restored]
  rw [hfilter, hcount, RecordedDecision.restored, List.map_map, hread]
  congr 1
  simp only [List.range_succ, List.range_zero, List.nil_append, List.cons_append, List.map_cons,
    List.map_nil, List.sum_cons, List.sum_nil]
  ring

/-- **The shares have the pressures of the placements.** -/
theorem restored_pressures :
    (d.restored config).candidateLoadPressures = (d.view F).springCandidateLoadPressures := by
  rw [springCandidateLoadPressures_eq d.length, ReplayEnv.candidateLoadPressures]
  refine List.map_congr_left fun sid hsid => ?_
  have hsid : sid < p.shardNum := List.mem_range.mp hsid
  have hscale : max 1 ((d.restored config).config.maxBlockSize : ℚ) = placementScale p :=
    (placementScale_eq p).symm
  have hpressure := pressureOf_nonneg (d.view F) sid
  rw [pressureOf] at hpressure ⊢
  dsimp only
  rw [hscale, restored_recent config d hsid]
  change max 0 ((if (loadShares p d.springShardLoad).sum > offlineEps ∧
        sid < (loadShares p d.springShardLoad).length then
        (loadShares p d.springShardLoad).getD sid 0 / (loadShares p d.springShardLoad).sum *
          placementScale p else 0) + _) = _
  rw [restored_placement d hsid]
  exact max_eq_right hpressure

/-- `SpringCapacityGuardFactor`, as it is replayed. -/
def ParamsConfig.replayFactor : ℚ := max 1 (config.springCapacityGuardFactor.getD 0)

/-- The parameters with which the supervisor would decide as the replay does. -/
def RecordedDecision.replayParams : SpringConfig :=
  { p with
    springCapacityGuard := if (d.view F).meanLoad > offlineEps then p.springCapacityGuard else 0
    springCapacityGuardFactor := config.replayFactor }

/-- What the candidate functions would look at then. -/
def RecordedDecision.replayView : CandidateView :=
  { d.view F with p := d.replayParams F config }

/-- An environment that looks at the same. -/
theorem RecordedDecision.sameView :
    SameView 0 (d.replayView F config)
      (offlineState (d.replayParams F config) 0 d.springStats d.springShardLoad []).env where
  config := rfl
  load := rfl
  length := d.length
  windows := by
    refine ⟨by simp [offlineState], fun back hback sid hsid => ?_⟩
    have hsid : sid < p.shardNum := hsid
    have hrow : (offlineState (d.replayParams F config) 0 d.springStats d.springShardLoad
        []).env.recentStats[4 - back]? = some (windowRow p.shardNum d.springStats (4 - back)) := by
      rw [offlineState, List.getElem?_map, List.getElem?_range (by omega)]
      rfl
    rw [hrow, Option.bind_some, windowRow, List.getElem?_map, List.getElem?_range hsid,
      springGetStat_eq _ _ hback]
    rfl

variable {config} {d} {hash : Address → ℕ}

/-- The scores of the restored environment. -/
theorem restored_scores (hweight : 0 ≤ p.springCandidateLoadWeight)
    (hhash : hash d.address = addr2ShardWithShardNum F d.address p.shardNum)
    (senderPos : List ℚ) :
    (d.restored config).candidateScores hash d.address senderPos =
      (d.view F).springCandidateScores d.address senderPos := by
  have hsame := candidateScores_eq (d.sameView F config) hhash senderPos
  rw [SpringOfflineEnv.candidateScores_under, candidateLoadPressures_eq (d.sameView F config)] at hsame
  rw [ReplayEnv.candidateScores, restored_pressures F]
  refine Eq.trans ?_ hsame
  unfold scoresUnder
  have hsame : (restoredConfig config p).candidateLoadWeight =
      (offlineConfig (d.replayParams F config) 0).candidateLoadWeight :=
    (max_eq_right hweight).symm
  dsimp only [RecordedDecision.restored]
  rw [hsame]
  rfl

/-- A mask of ones is normal. -/
theorem normalizeActionMask_replicate (shards : ℕ) :
    normalizeActionMask (List.replicate shards 1) shards = List.replicate shards 1 := by
  have hmap : (List.range shards).map (fun sid =>
      if 0 < (List.replicate shards 1).getD sid 0 then 1 else 0) = List.replicate shards 1 := by
    refine List.eq_replicate_iff.mpr ⟨by simp, fun x hx => ?_⟩
    obtain ⟨sid, hsid, rfl⟩ := List.mem_map.mp hx
    exact if_pos (maskAllows_replicate.mpr (List.mem_range.mp hsid))
  rw [normalizeActionMask_eq List.length_replicate, springNormalizeActionMask, hmap]
  exact ite_self _

/-- What the guard depends on. -/
theorem guardUnder_congr {a b : OfflineConfig} (hshards : a.shards = b.shards)
    (hguard : a.capacityGuard = b.capacityGuard)
    (hfactor : a.capacityGuardFactor = b.capacityGuardFactor) {P Q : Prop} [Decidable P]
    [Decidable Q] (htracked : P ↔ Q) (pressures : List ℚ) :
    guardUnder a pressures P = guardUnder b pressures Q := by
  unfold guardUnder
  simp only [hshards, hguard, hfactor, htracked]

/-- What the scores depend on. -/
theorem scoresUnder_congr {a b : OfflineConfig} (hshards : a.shards = b.shards)
    (hweight : a.candidateLoadWeight = b.candidateLoadWeight) (pressures : List ℚ)
    (hash : Address → ℕ) (addr : Address) (senderPos : List ℚ) :
    scoresUnder a pressures hash addr senderPos = scoresUnder b pressures hash addr senderPos := by
  unfold scoresUnder
  simp only [hshards, hweight]

/-- What the mask depends on: without a cut and with a guard that closes nothing, it is as if
there were no guard. -/
theorem maskUnder_congr {a b : OfflineConfig} (hshards : a.shards = b.shards)
    (htopK : a.candidateTopK = b.candidateTopK)
    (hweight : a.candidateLoadWeight = b.candidateLoadWeight) {guarded : Option (List ℕ)}
    (hguard : a.capacityGuard = b.capacityGuard ∨ guarded = none) (pressures : List ℚ)
    (hash : Address → ℕ) (addr : Address) (senderPos : List ℚ) :
    maskUnder a pressures hash guarded addr senderPos =
      maskUnder b pressures hash guarded addr senderPos := by
  have hscores := scoresUnder_congr hshards hweight pressures hash addr senderPos
  rcases hguard with hguard | rfl
  · unfold maskUnder
    simp only [hshards, htopK, hguard, hscores]
  · by_cases hcut : b.candidateTopK = 0
    · have hones : ∀ c : OfflineConfig, c.shards = b.shards → c.candidateTopK = 0 →
          maskUnder c pressures hash none addr senderPos = List.replicate b.shards 1 := by
        intro c hc htop
        have hnot : ¬ (c.candidateTopK > 0 ∧ c.candidateTopK < c.shards) := by omega
        rw [maskUnder]
        dsimp only
        rw [if_neg hnot, Option.getD_none, normalizeActionMask_replicate, ite_self, hc]
        split
        next hzero => rw [hzero, List.replicate_zero]
        next => rfl
      rw [hones a hshards (htopK.trans hcut), hones b rfl hcut]
    · unfold maskUnder
      simp only [hshards, htopK, hcut, hscores, false_and, if_false]

/-- **The mask of the restored environment**, as one of the supervisor. -/
theorem restored_mask (hshards : 0 < p.shardNum) (hweight : 0 ≤ p.springCandidateLoadWeight)
    (hhash : hash d.address = addr2ShardWithShardNum F d.address p.shardNum)
    (senderPos : List ℚ) :
    (d.restored config).buildCandidateActionMask hash d.address senderPos =
      (d.replayView F config).springBuildCandidateActionMask d.address senderPos := by
  let aux := (offlineState (d.replayParams F config) 0 d.springStats d.springShardLoad []).env
  have hsame : aux.buildCandidateActionMask hash d.address senderPos =
      (d.replayView F config).springBuildCandidateActionMask d.address senderPos := by
    refine buildCandidateActionMask_eq (d.sameView F config) hhash senderPos fun hon hdiffer => ?_
    by_cases hhigh : (d.view F).meanLoad > offlineEps
    · exact absurd hdiffer.2 (not_le.mpr hhigh)
    · exact hon (if_neg hhigh)
  have hpressures : aux.candidateLoadPressures = (d.view F).springCandidateLoadPressures :=
    (candidateLoadPressures_eq (d.sameView F config)).trans rfl
  have hfactor : (restoredConfig config p).capacityGuardFactor = aux.config.capacityGuardFactor :=
    (max_eq_right (le_max_left _ _)).symm
  have hload : (restoredConfig config p).candidateLoadWeight = aux.config.candidateLoadWeight :=
    (max_eq_right hweight).symm
  have htracked : (d.restored config).shardLoad ≠ [] ↔ aux.shardLoad ≠ [] := by
    have hshares : 0 < (loadShares p d.springShardLoad).length := by
      rw [RecordedDecision.loadShares_length]
      exact hshards
    have hcounts : 0 < d.springShardLoad.length := by
      rw [d.length]
      exact hshards
    exact iff_of_true (List.ne_nil_of_length_pos hshares) (List.ne_nil_of_length_pos hcounts)
  rw [← hsame, SpringOfflineEnv.buildCandidateActionMask_under, SpringOfflineEnv.guarded_under,
    ReplayEnv.buildCandidateActionMask, ReplayEnv.guarded, restored_pressures F, hpressures]
  by_cases hhigh : (d.view F).meanLoad > offlineEps
  · have hguard : (restoredConfig config p).capacityGuard = aux.config.capacityGuard :=
      (if_pos hhigh).symm
    rw [guardUnder_congr (a := (d.restored config).config) (b := aux.config)
      rfl hguard hfactor htracked]
    exact maskUnder_congr (a := (d.restored config).config) (b := aux.config)
      rfl rfl hload (.inl hguard) _ _ _ _
  · have hoff : aux.config.capacityGuard = 0 := if_neg hhigh
    have hmean : (d.view F).springCandidateLoadPressures.sum / (max 1 p.shardNum : ℕ) =
        (d.view F).meanLoad := by
      rw [max_eq_right hshards, springCandidateLoadPressures_eq d.length]
      exact sum_pressureOf d.length
    have haux : guardUnder aux.config (d.view F).springCandidateLoadPressures (aux.shardLoad ≠ []) =
        none := if_neg fun h => h.1 hoff
    have hrestored : guardUnder (d.restored config).config
        (d.view F).springCandidateLoadPressures ((d.restored config).shardLoad ≠ []) = none := by
      unfold guardUnder
      split
      · exact if_neg (hmean.le.trans (not_lt.mp hhigh)).not_gt
      · rfl
    rw [haux, hrestored]
    exact maskUnder_congr (a := (d.restored config).config) (b := aux.config)
      rfl rfl hload (.inr rfl) _ _ _ _

/-- The best candidate of the restored environment. -/
theorem restored_best (hweight : 0 ≤ p.springCandidateLoadWeight)
    (hhash : hash d.address = addr2ShardWithShardNum F d.address p.shardNum)
    (senderPos : List ℚ) {mask : List ℕ} (hmask : mask.length = p.shardNum) :
    (d.restored config).bestCandidateAction hash d.address senderPos mask =
      (d.view F).springBestCandidateShard d.address senderPos mask := by
  have hsame := bestCandidateAction_eq (d.sameView F config) hhash senderPos hmask
  rw [SpringOfflineEnv.bestCandidateAction, candidateScores_eq (d.sameView F config) hhash] at hsame
  rw [ReplayEnv.bestCandidateAction, restored_scores F hweight hhash]
  exact hsame

/-! ## When a decision is replayed -/

/-- The guard of the replay lets a shard pass. -/
def RecordedDecision.ReplayLets (config : ParamsConfig) (d : RecordedDecision p) (sid : ℕ) :
    Prop :=
  p.springCapacityGuard = 0 ∨ (d.view F).meanLoad ≤ offlineEps ∨
    pressureOf (d.view F) sid ≤ (d.view F).meanLoad * config.replayFactor

instance : DecidablePred (d.ReplayLets F config) := fun _ =>
  inferInstanceAs (Decidable (_ ∨ _ ∨ _))

/-- **The guards agree**: of the shards that one of them lets pass, the best pass both. -/
def RecordedDecision.GuardsAgree (config : ParamsConfig) (d : RecordedDecision p) : Prop :=
  ∀ sid ∈ best (CandidateView.candidateLess
      ((d.view F).springCandidateScores d.address d.pos.senderPos)) (CandidateView.cutSize p)
      ((List.range p.shardNum).filter fun sid =>
        (d.view F).GuardLets sid || d.ReplayLets F config sid),
    (d.view F).GuardLets sid ∧ d.ReplayLets F config sid

/-- The guard of the replay is that of the supervisor with the parameters of the replay. -/
theorem RecordedDecision.replayView_lets (d : RecordedDecision p) {sid : ℕ} :
    (d.replayView F config).GuardLets sid ↔ d.ReplayLets F config sid := by
  have hmean : (d.replayView F config).meanLoad = (d.view F).meanLoad := rfl
  have hpressure : pressureOf (d.replayView F config) sid = pressureOf (d.view F) sid := rfl
  have hfactor : max 1 config.replayFactor = config.replayFactor := max_eq_right (le_max_left _ _)
  have hguard : (d.replayView F config).p.springCapacityGuard =
      if (d.view F).meanLoad > offlineEps then p.springCapacityGuard else 0 := rfl
  have hfactor' : (d.replayView F config).p.springCapacityGuardFactor = config.replayFactor := rfl
  rw [CandidateView.GuardLets, RecordedDecision.ReplayLets, hmean, hpressure, hguard, hfactor',
    hfactor]
  by_cases hhigh : (d.view F).meanLoad > offlineEps
  · have hnot : ¬ (d.view F).meanLoad ≤ 1 / 1000000000 := by
      rw [offlineEps] at hhigh
      exact not_le.mpr ((by norm_num : (1 : ℚ) / 1000000000 < 1 / 100000000).trans hhigh)
    rw [if_pos hhigh, or_iff_right hnot, or_iff_right (not_le.mpr hhigh)]
  · rw [if_neg hhigh]
    exact iff_of_true (.inl rfl) (.inr (.inl (not_lt.mp hhigh)))

/-- The replay has no greater factor. -/
theorem replayFactor_le {params : SpringConfig} (hread : config.read params = some p) :
    config.replayFactor ≤ max 1 p.springCapacityGuardFactor := by
  obtain ⟨version, -, rfl⟩ := Option.map_eq_some_iff.mp hread
  dsimp only
  rw [ParamsConfig.replayFactor, ParamsConfig.readFactor]
  refine max_le (le_max_left _ _) ?_
  split
  next hpos =>
    split
    next hlt => exact hlt.le.trans (le_max_left _ _)
    next => exact le_max_right _ _
  next hneg => exact (not_lt.mp hneg).trans (zero_le_one.trans (le_max_left _ _))

/-- One guard is within the other. -/
theorem guards_nested {params : SpringConfig} (hread : config.read params = some p) :
    (∀ sid, d.ReplayLets F config sid → (d.view F).GuardLets sid) ∨
      ∀ sid, (d.view F).GuardLets sid → d.ReplayLets F config sid := by
  by_cases hhigh : (d.view F).meanLoad ≤ offlineEps
  · exact .inr fun sid _ => .inr (.inl hhigh)
  · refine .inl fun sid hlets => ?_
    rcases hlets with hoff | hlow | hle
    · exact .inl hoff
    · exact absurd hlow hhigh
    · have hmean : 0 ≤ (d.view F).meanLoad :=
        (by norm_num [offlineEps] : (0 : ℚ) ≤ offlineEps).trans (not_le.mp hhigh).le
      exact .inr (.inr (hle.trans (mul_le_mul_of_nonneg_left (replayFactor_le hread) hmean)))

/-- The guards agree where the factor is positive, and the mean not between their bounds. -/
theorem RecordedDecision.guardsAgree_of_pos {params : SpringConfig}
    (hread : config.read params = some p) (hpos : 0 < config.springCapacityGuardFactor.getD 0)
    (hmean : ¬ GuardsDiffer (d.view F).meanLoad) : d.GuardsAgree F config := by
  have hfactor : max 1 p.springCapacityGuardFactor = config.replayFactor := by
    obtain ⟨version, -, rfl⟩ := Option.map_eq_some_iff.mp hread
    dsimp only
    rw [ParamsConfig.replayFactor, ParamsConfig.readFactor, if_pos hpos]
    split
    next hlt => rw [max_self, max_eq_left hlt.le]
    next => rfl
  have hbounds : (d.view F).meanLoad ≤ 1 / 1000000000 ↔ (d.view F).meanLoad ≤ offlineEps := by
    constructor
    · intro hle
      exact hle.trans (by norm_num [offlineEps])
    · intro hle
      by_contra hgt
      exact hmean ⟨not_le.mp hgt, hle⟩
  have hlets : ∀ sid, (d.view F).GuardLets sid ↔ d.ReplayLets F config sid := by
    intro sid
    rw [CandidateView.GuardLets, RecordedDecision.ReplayLets, hbounds, ← hfactor]
    rfl
  intro sid hsid
  have hpass := (List.mem_filter.mp (subset_of_best hsid)).2
  rw [Bool.or_eq_true, decide_eq_true_iff, decide_eq_true_iff, hlets, or_self] at hpass
  exact ⟨(hlets sid).mpr hpass, hpass⟩

/-- The masks of the two sets of parameters are the same exactly if the guards agree. -/
theorem masks_eq_iff {params : SpringConfig} (hread : config.read params = some p)
    (hshards : 0 < p.shardNum) :
    (d.replayView F config).springBuildCandidateActionMask d.address d.pos.senderPos =
      d.actionMask F ↔ d.GuardsAgree F config := by
  have hmask := fun v : CandidateView =>
    springBuildCandidateActionMask_length v d.address d.pos.senderPos
  have hones := fun v : CandidateView =>
    v.springBuildCandidateActionMask_le d.address d.pos.senderPos
  let scores := (d.view F).springCandidateScores d.address d.pos.senderPos
  have hgo : ∀ sid, MaskAllows (d.actionMask F) sid ↔
      sid ∈ best (CandidateView.candidateLess scores) (CandidateView.cutSize p)
        ((List.range p.shardNum).filter (d.view F).GuardLets) := fun sid =>
    (d.view F).maskAllows_iff d.length hshards d.address d.pos.senderPos
  have hreplay : ∀ sid, MaskAllows ((d.replayView F config).springBuildCandidateActionMask
        d.address d.pos.senderPos) sid ↔
      sid ∈ best (CandidateView.candidateLess scores) (CandidateView.cutSize p)
        ((List.range p.shardNum).filter (d.ReplayLets F config)) := by
    intro sid
    have hfilter : (List.range p.shardNum).filter (d.ReplayLets F config) =
        (List.range p.shardNum).filter (d.replayView F config).GuardLets :=
      List.filter_congr fun sid _ => decide_eq_decide.mpr (d.replayView_lets F).symm
    rw [hfilter]
    exact (d.replayView F config).maskAllows_iff d.length hshards d.address d.pos.senderPos
  have hnested : (∀ sid, decide (d.ReplayLets F config sid) = true →
        decide ((d.view F).GuardLets sid) = true) ∨
      ∀ sid, decide ((d.view F).GuardLets sid) = true →
        decide (d.ReplayLets F config sid) = true := by
    simpa only [decide_eq_true_iff] using guards_nested F hread
  have hsame := same_best_iff (l := List.range p.shardNum) (k := CandidateView.cutSize p)
    (CandidateView.candidateLess_ranks scores) hnested
  rw [mask_eq_iff (b := d.actionMask F) (hmask (d.replayView F config)) (hmask (d.view F))
    (hones _) (hones (d.view F))]
  simp only [hgo, hreplay]
  rw [forall_congr' fun _ => Iff.comm, hsame]
  simp only [decide_eq_true_iff]
  rfl

/-- The weight of the loads is not negative. -/
theorem ParamsConfig.Replayable.weight_nonneg {params : SpringConfig} (h : config.Replayable)
    (hread : config.read params = some p) : 0 ≤ p.springCandidateLoadWeight := by
  obtain ⟨_, _, _, _, _, weight, _, _, _, _, _, _, _, _, _, _, _, hweight⟩ := h.read_eq hread
  rw [hweight]
  exact le_max_left _ _

/-- **When a decision is replayed.** -/
theorem decision_replayed {log1p expm1 : ℚ → ℚ} (hlogs : InverseLogs log1p expm1)
    {params : SpringConfig} {layout : Option String} (hread : config.read params = some p)
    (hshards : 0 < p.shardNum) (hiot : p.springIOTMode = 1) (hlayout : OwnLayout p layout)
    (decimal : Char → Option ℕ)
    (hunsaturated : ∀ v ∈ (d.state log1p).take (5 * p.shardNum), v < 1) :
    (∃ env, restoreCandidateEnv log1p expm1 config (d.state log1p) p.shardNum layout = some env ∧
      env.buildCandidateActionMask (fun addr => addr2shard F decimal addr p.shardNum) d.address
        (((d.state log1p).drop (10 * p.shardNum)).take p.shardNum) = d.actionMask F ∧
      env.bestCandidateAction (fun addr => addr2shard F decimal addr p.shardNum) d.address
        (((d.state log1p).drop (10 * p.shardNum)).take p.shardNum) (d.actionMask F) =
        d.bestShard F) ↔
    config.Replayable ∧ springConfiguredIOTFeatureDim p = 10 ∧ d.GuardsAgree F config := by
  have hhash : addr2shard F decimal d.address p.shardNum =
      addr2ShardWithShardNum F d.address p.shardNum :=
    addr2shard_eq F decimal d.plain hshards
  generalize hdef : (fun addr => addr2shard F decimal addr p.shardNum) = hash
  have hhash : hash d.address = addr2ShardWithShardNum F d.address p.shardNum := by
    rw [← hdef]
    exact hhash
  have hmask (hweight : 0 ≤ p.springCandidateLoadWeight) :
      (d.restored config).buildCandidateActionMask hash d.address d.pos.senderPos =
        d.actionMask F ↔ d.GuardsAgree F config := by
    rw [restored_mask F hshards hweight hhash]
    exact masks_eq_iff F hread hshards
  rw [d.state_pos log1p hiot]
  constructor
  · rintro ⟨env, hrestore, hsame, -⟩
    obtain ⟨hconfig, hdim⟩ := restoreCandidateEnv_some hread hiot hlayout d hrestore
    have henv := restoreCandidateEnv_eq hlogs hread hshards hiot hlayout d hunsaturated hconfig hdim
    obtain rfl := Option.some.inj (hrestore.symm.trans henv)
    exact ⟨hconfig, hdim, (hmask (hconfig.weight_nonneg hread)).mp hsame⟩
  · rintro ⟨hconfig, hdim, hagree⟩
    have hweight := hconfig.weight_nonneg hread
    exact ⟨d.restored config,
      restoreCandidateEnv_eq hlogs hread hshards hiot hlayout d hunsaturated hconfig hdim,
      (hmask hweight).mpr hagree,
      restored_best F hweight hhash _ (springBuildCandidateActionMask_length (d.view F) _ _)⟩

end Restored

/-! ## Two shards -/

/-- A file that sets the guard, and some factor. -/
def guardFile (factor : ℚ) : ParamsConfig where
  springMechanismVersion := none
  blockSize := some 10
  txBatchSize := some 10
  springCandidateTopK := some 0
  springCapacityGuard := some 1
  springCapacityGuardFactor := some factor
  springCandidateLoadWeight := some 1

/-- What the supervisor makes of it, where it reads this factor. -/
def guardConfig (factor : ℚ) : SpringConfig :=
  { SpringConfig.default 2 with
    maxBlockSizeGlobal := 10
    txBatchSize := 10
    springCandidateTopK := 0
    springCapacityGuard := 1
    springCapacityGuardFactor := factor }

/-- Eleven placements, six of them in the first shard. -/
def guardDecision (factor : ℚ) : RecordedDecision (guardConfig factor) where
  springStats := fun _ => []
  springShardLoad := [6, 5]
  springAddrShard := ∅
  batchPlacement := ∅
  batchRelated := fun _ => ∅
  address := plainTransaction.sender
  related := plainTransaction.recipient
  extraFeatures := List.replicate 10 0
  length := rfl
  plain := by decide

theorem inverseLogs_id : InverseLogs id id where
  zero := rfl
  lt _ _ _ h := h
  inverse _ _ := rfl

/-- The decision is replayed with the factor of the defaults. -/
theorem two_shards_replayed :
    ∃ env, restoreCandidateEnv id id (guardFile (3 / 2)) ((guardDecision (3 / 2)).state id) 2 none =
        some env ∧
      env.buildCandidateActionMask (fun addr => addr2shard freeHash (fun _ => none) addr 2)
        plainTransaction.sender ((((guardDecision (3 / 2)).state id).drop 20).take 2) =
        (guardDecision (3 / 2)).actionMask freeHash ∧
      env.bestCandidateAction (fun addr => addr2shard freeHash (fun _ => none) addr 2)
        plainTransaction.sender ((((guardDecision (3 / 2)).state id).drop 20).take 2)
        ((guardDecision (3 / 2)).actionMask freeHash) =
        (guardDecision (3 / 2)).bestShard freeHash := by
  have hread : (guardFile (3 / 2)).read (SpringConfig.default 2) = some (guardConfig (3 / 2)) := by
    decide +kernel
  have hlayout : OwnLayout (guardConfig (3 / 2)) none := fun h => MechanismVersion.noConfusion h
  have hmean : ¬ GuardsDiffer ((guardDecision (3 / 2)).view freeHash).meanLoad := by
    unfold GuardsDiffer
    decide +kernel
  exact (decision_replayed freeHash (d := guardDecision (3 / 2)) inverseLogs_id hread (by decide)
    rfl hlayout (fun _ => none) (by decide +kernel)).mpr
    ⟨⟨by decide, rfl, ⟨10, rfl, by decide⟩, rfl, rfl, rfl, rfl⟩, rfl,
      RecordedDecision.guardsAgree_of_pos freeHash hread (by decide +kernel) hmean⟩

/-- **A factor of zero**, which the supervisor does not read, is replayed as one: the first
shard is closed. -/
theorem factor_zero_not_replayed :
    ¬ ∀ (log1p expm1 : ℚ → ℚ) (config : ParamsConfig) (params p : SpringConfig)
      (layout : Option String) (d : RecordedDecision p), InverseLogs log1p expm1 →
        config.read params = some p → 0 < p.shardNum → p.springIOTMode = 1 → OwnLayout p layout →
        (∀ v ∈ (d.state log1p).take (10 * p.shardNum), v < 1) →
        ∃ env, restoreCandidateEnv log1p expm1 config (d.state log1p) p.shardNum layout = some env ∧
          env.buildCandidateActionMask
            (fun addr => addr2shard freeHash (fun _ => none) addr p.shardNum) d.address
            (((d.state log1p).drop (10 * p.shardNum)).take p.shardNum) = d.actionMask freeHash ∧
          env.bestCandidateAction
            (fun addr => addr2shard freeHash (fun _ => none) addr p.shardNum) d.address
            (((d.state log1p).drop (10 * p.shardNum)).take p.shardNum) (d.actionMask freeHash) =
            d.bestShard freeHash := by
  intro h
  obtain ⟨env, hrestore, hmask, -⟩ := h id id (guardFile 0) (SpringConfig.default 2)
    (guardConfig (3 / 2)) none (guardDecision (3 / 2)) inverseLogs_id (by decide +kernel)
    (by decide) rfl (fun h => MechanismVersion.noConfusion h) (by decide +kernel)
  have hrestored : (restoreCandidateEnv id id (guardFile 0) ((guardDecision (3 / 2)).state id) 2
      none).map (fun env => env.buildCandidateActionMask
        (fun addr => addr2shard freeHash (fun _ => none) addr 2) plainTransaction.sender
        ((((guardDecision (3 / 2)).state id).drop 20).take 2)) = some [0, 1] := by
    decide +kernel
  have hgo : (guardDecision (3 / 2)).actionMask freeHash = [1, 1] := by decide +kernel
  rw [hgo] at hmask
  have hsame := hrestored.symm.trans (congrArg _ hrestore)
  rw [Option.map_some] at hsame
  have hlists : ([0, 1] : List ℕ) = [1, 1] := (Option.some.inj hsame).trans hmask
  exact absurd hlists (by decide)

end BlockEmulator
