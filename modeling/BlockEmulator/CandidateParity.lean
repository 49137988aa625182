import BlockEmulator.OfflineEnv
import BlockEmulator.PlacementTable
import Mathlib.Algebra.BigOperators.Ring.Finset
import Mathlib.Algebra.Order.BigOperators.Group.List
import Mathlib.Tactic.Ring
import Mathlib.Tactic.Linarith

/-!
# The candidate functions on both sides

Go and Python score, mask and choose candidates by functions written apart. On the same
configuration, counters and windows they agree, but for one comparison: the capacity guard
of Go applies from a mean load of `1e-9` on, that of Python from `1e-8` on.

* `candidateLoadPressures_eq`, `candidateScores_eq` — the pressures and the scores.
* `buildCandidateActionMask_eq` — the masks, where the mean load is not between the two.
* `buildSenderPos_eq` — the sender positions.
-/

namespace BlockEmulator

open SpringOfflineEnv

/-! ## The same configuration, the same windows -/

/-- What the constructor of the environment makes of the parameters. -/
def offlineConfig (p : SpringConfig) (capacityBacklogMode : ℕ) : OfflineConfig where
  shards := p.shardNum
  mechanismVersion := p.springMechanismVersion
  sceneCostMode := p.springSceneCostMode
  maxBlockSize := p.maxBlockSizeGlobal
  senderPosMode := p.springSenderPosMode
  iotFeatureDim := springConfiguredIOTFeatureDim p
  capacityBacklogMode := capacityBacklogMode
  candidateTopK := p.springCandidateTopK
  capacityGuard := p.springCapacityGuard
  capacityGuardFactor := max 1 p.springCapacityGuardFactor
  candidateLoadWeight := max 0 p.springCandidateLoadWeight

/-- The five windows of the environment hold what the supervisor last collected: the
last window is the last block. -/
def SameWindows (shards : ℕ) (springStats : ℕ → List SpringBlockStat)
    (recentStats : List OfflineStat) : Prop :=
  recentStats.length = 5 ∧ ∀ back < 5, ∀ sid < shards,
    (recentStats[4 - back]?.bind (·.num[sid]?)) =
      some ((springGetStat springStats sid back).numTx : ℚ)

/-- Both sides look at the same. -/
structure SameView (mode : ℕ) (v : CandidateView) (env : SpringOfflineEnv) : Prop where
  /-- the configuration -/
  config : env.config = offlineConfig v.p mode
  /-- the counters -/
  load : env.shardLoad = v.springShardLoad
  /-- one counter for each shard -/
  length : v.springShardLoad.length = v.p.shardNum
  /-- the windows -/
  windows : SameWindows v.p.shardNum v.springStats env.recentStats

variable {mode : ℕ} {v : CandidateView} {env : SpringOfflineEnv}

theorem SameView.shards (h : SameView mode v env) : env.config.shards = v.p.shardNum :=
  congrArg (·.shards) h.config

theorem SameView.capacityGuard (h : SameView mode v env) :
    env.config.capacityGuard = v.p.springCapacityGuard :=
  congrArg OfflineConfig.capacityGuard h.config

theorem SameView.candidateTopK (h : SameView mode v env) :
    env.config.candidateTopK = v.p.springCandidateTopK :=
  congrArg OfflineConfig.candidateTopK h.config

/-- One window, read at a shard. -/
theorem getD_of_bind {stat : OfflineStat} {sid : ℕ} {x : ℚ} (h : stat.num[sid]? = some x) :
    sid < stat.num.length ∧ stat.num.getD sid 0 = x := by
  obtain ⟨hlt, hx⟩ := List.getElem?_eq_some_iff.mp h
  exact ⟨hlt, by rw [List.getD_eq_getElem?_getD, h, Option.getD_some]⟩

/-- The sum over the windows. -/
theorem sum_windows {shards : ℕ} {springStats : ℕ → List SpringBlockStat}
    {recentStats : List OfflineStat} (h : SameWindows shards springStats recentStats) {sid : ℕ}
    (hs : sid < shards) :
    ((recentStats.filter fun stat => sid < stat.num.length).map fun stat =>
      stat.num.getD sid 0).sum =
      ((List.range 5).map fun back => ((springGetStat springStats sid back).numTx : ℚ)).sum := by
  obtain ⟨hlen, hw⟩ := h
  obtain ⟨a, b, c, d, e, rfl⟩ : ∃ a b c d e, recentStats = [a, b, c, d, e] := by
    match recentStats, hlen with
    | [a, b, c, d, e], _ => exact ⟨a, b, c, d, e, rfl⟩
  obtain ⟨he, he'⟩ := getD_of_bind (by simpa using hw 0 (by decide) sid hs)
  obtain ⟨hd, hd'⟩ := getD_of_bind (by simpa using hw 1 (by decide) sid hs)
  obtain ⟨hc, hc'⟩ := getD_of_bind (by simpa using hw 2 (by decide) sid hs)
  obtain ⟨hb, hb'⟩ := getD_of_bind (by simpa using hw 3 (by decide) sid hs)
  obtain ⟨ha, ha'⟩ := getD_of_bind (by simpa using hw 4 (by decide) sid hs)
  have hfilter : [a, b, c, d, e].filter (fun stat => decide (sid < stat.num.length)) =
      [a, b, c, d, e] := by
    simp [ha, hb, hc, hd, he]
  rw [hfilter]
  simp only [List.map_cons, List.map_nil, List.sum_cons, List.sum_nil, ha', hb', hc', hd', he',
    List.range_succ, List.range_zero, List.nil_append, List.cons_append]
  ring

/-! ## Pressures and scores -/

/-- The scale of the placement pressures. -/
def placementScale (p : SpringConfig) : ℚ :=
  if p.maxBlockSizeGlobal = 0 then 1 else p.maxBlockSizeGlobal

theorem placementScale_eq (p : SpringConfig) :
    placementScale p = max 1 (p.maxBlockSizeGlobal : ℚ) := by
  rw [placementScale]
  split
  next h => simp [h]
  next h =>
    have : (1 : ℚ) ≤ p.maxBlockSizeGlobal := by exact_mod_cast Nat.one_le_iff_ne_zero.mpr h
    rw [max_eq_right this]

theorem one_le_placementScale (p : SpringConfig) : 1 ≤ placementScale p := by
  rw [placementScale_eq]
  exact le_max_left _ _

/-- The pressure on one shard. -/
def pressureOf (v : CandidateView) (sid : ℕ) : ℚ :=
  (if v.springShardLoad.sum > 0 then
    (v.springShardLoad.getD sid 0 : ℚ) / v.springShardLoad.sum * placementScale v.p else 0) +
  ((List.range 5).map fun back => ((springGetStat v.springStats sid back).numTx : ℚ)).sum / 5

theorem pressureOf_nonneg (v : CandidateView) (sid : ℕ) : 0 ≤ pressureOf v sid := by
  have hscale := one_le_placementScale v.p
  have hrecent : 0 ≤ ((List.range 5).map fun back =>
      ((springGetStat v.springStats sid back).numTx : ℚ)).sum := by
    apply List.sum_nonneg
    intro x hx
    obtain ⟨back, -, rfl⟩ := List.mem_map.mp hx
    exact Nat.cast_nonneg _
  rw [pressureOf]
  split
  · positivity
  · positivity

theorem springCandidateLoadPressures_eq (hlen : v.springShardLoad.length = v.p.shardNum) :
    v.springCandidateLoadPressures = (List.range v.p.shardNum).map (pressureOf v) := by
  rw [CandidateView.springCandidateLoadPressures]
  apply List.map_congr_left
  intro sid hsid
  have hsid := List.mem_range.mp hsid
  simp only [hlen ▸ List.take_length, hlen, hsid, and_true, pressureOf, placementScale]

theorem candidateLoadPressures_eq (h : SameView mode v env) :
    env.candidateLoadPressures = v.springCandidateLoadPressures := by
  rw [springCandidateLoadPressures_eq h.length, SpringOfflineEnv.candidateLoadPressures]
  rw [h.shards]
  apply List.map_congr_left
  intro sid hsid
  have hsid := List.mem_range.mp hsid
  have hcount : (max 1 (env.recentStats.length : ℚ)) = 5 := by
    rw [h.windows.1]
    norm_num
  have htotal : ((v.springShardLoad.sum : ℚ) > offlineEps) ↔ v.springShardLoad.sum > 0 := by
    rw [offlineEps]
    constructor
    · intro hpos
      by_contra hzero
      rw [Nat.eq_zero_of_not_pos hzero] at hpos
      norm_num at hpos
    · intro hpos
      have : (1 : ℚ) ≤ v.springShardLoad.sum := by exact_mod_cast hpos
      linarith
  simp only [sum_windows h.windows hsid, hcount, h.load, h.length, hsid, and_true, htotal]
  have hscale : (max 1 (env.config.maxBlockSize : ℚ)) = placementScale v.p := by
    rw [placementScale_eq, h.config]
    rfl
  rw [hscale]
  exact max_eq_right (pressureOf_nonneg v sid)

theorem candidateScores_eq (h : SameView mode v env) {hash : Address → ℕ} {addr : Address}
    (hhash : hash addr = v.addr2Shard addr) (senderPos : List ℚ) :
    env.candidateScores hash addr senderPos = v.springCandidateScores addr senderPos := by
  rw [SpringOfflineEnv.candidateScores, CandidateView.springCandidateScores,
    candidateLoadPressures_eq h]
  have hweight : env.config.candidateLoadWeight =
      if v.p.springCandidateLoadWeight < 0 then 0 else v.p.springCandidateLoadWeight := by
    rw [h.config]
    simp only [offlineConfig]
    split
    next hneg => exact max_eq_left hneg.le
    next hpos => exact max_eq_right (not_lt.mp hpos)
  have hgetD : ∀ (l : List ℚ) (sid : ℕ), (if sid < l.length then l.getD sid 0 else 0) =
      l.getD sid 0 := by
    intro l sid
    split
    · rfl
    next hge =>
      rw [List.getD_eq_getElem?_getD, List.getElem?_eq_none (not_lt.mp hge), Option.getD_none]
  simp only [h.shards, hweight, hhash, hgetD, mul_comm (1000 : ℚ)]

/-! ## Masks -/

theorem normalizeActionMask_eq {shards : ℕ} {mask : List ℕ} (h : mask.length = shards) :
    normalizeActionMask mask shards = springNormalizeActionMask shards mask := by
  by_cases hs : shards = 0
  · subst hs
    rw [normalizeActionMask, if_pos rfl, springNormalizeActionMask]
    split
    · rfl
    · rfl
  · have hmap : ((List.range shards).map fun sid =>
        let value := if sid < mask.length then mask.getD sid 0 else 1
        if 0 < value then 1 else 0) =
        (List.range shards).map fun sid => if 0 < mask.getD sid 0 then 1 else 0 := by
      apply List.map_congr_left
      intro sid hsid
      have hsid : sid < mask.length := h ▸ List.mem_range.mp hsid
      simp only [hsid, if_true]
    rw [normalizeActionMask, if_neg hs, springNormalizeActionMask, hmap]
    generalize (List.range shards).map (fun sid => if 0 < mask.getD sid 0 then 1 else 0) = l
    have hany : l.any (· ≠ 0) = true ↔ springActionMaskCount l ≠ 0 := by
      rw [springActionMaskCount, List.any_eq_true, Ne, List.countP_eq_zero]
      simp [Nat.pos_iff_ne_zero]
    dsimp only
    by_cases hc : springActionMaskCount l = 0
    · rw [if_pos hc, if_neg (fun ha => hany.mp ha hc)]
    · rw [if_neg hc, if_pos (hany.mpr hc)]

/-- The scores by which the guard and the cut go are those of the sort on both sides. -/
theorem keyGe_eq (scores : List ℚ) : keyGe scores = fun i j => !CandidateView.candidateLess scores j i := by
  funext i j
  rw [keyGe, CandidateView.candidateLess]
  generalize scores.getD i 0 = x
  generalize scores.getD j 0 = y
  rcases lt_trichotomy x y with h | rfl | h
  · simp [h.ne, h.ne', not_lt_of_gt h, h]
  · simp [← decide_not]
  · simp [h, h.ne, h.le]

/-- The mean pressure, before anything is placed and later. -/
def meanLoadOf (p : SpringConfig) (springStats : ℕ → List SpringBlockStat) (placed : Bool) : ℚ :=
  ((if placed then placementScale p else 0) +
    ((List.range p.shardNum).map fun sid =>
      ((List.range 5).map fun back => ((springGetStat springStats sid back).numTx : ℚ)).sum).sum /
        5) / p.shardNum

/-- The one difference: the guard of Go applies, that of Python does not. -/
def GuardsDiffer (mean : ℚ) : Prop := 1 / 1000000000 < mean ∧ mean ≤ 1 / 100000000

/-- A list, read index by index. -/
theorem map_getD_range (l : List ℕ) :
    ((List.range l.length).map fun i => (l.getD i 0 : ℚ)) = l.map fun (x : ℕ) => (x : ℚ) := by
  apply List.ext_getElem
  · simp
  · intro i hi hi'
    have hlt : i < l.length := by simpa using hi
    simp [List.getD_eq_getElem?_getD, hlt]

theorem sum_pressureOf (hlen : v.springShardLoad.length = v.p.shardNum) :
    ((List.range v.p.shardNum).map (pressureOf v)).sum / v.p.shardNum =
      meanLoadOf v.p v.springStats (decide (0 < v.springShardLoad.sum)) := by
  rw [meanLoadOf]
  congr 1
  unfold pressureOf
  simp only [List.sum_map_add, div_eq_mul_inv, List.sum_map_mul_right]
  congr 1
  by_cases hpos : 0 < v.springShardLoad.sum
  · have hne : (v.springShardLoad.sum : ℚ) ≠ 0 := by exact_mod_cast hpos.ne'
    have hsum : ((List.range v.p.shardNum).map fun sid =>
        (v.springShardLoad.getD sid 0 : ℚ)).sum = v.springShardLoad.sum := by
      rw [← hlen, map_getD_range, Nat.cast_list_sum]
    simp only [gt_iff_lt, hpos, if_true, decide_true, List.sum_map_mul_right, hsum]
    rw [mul_inv_cancel₀ hne, one_mul]
  · simp [hpos]

/-- The guards agree, where the mean load is not between their bounds. -/
theorem guarded_eq (h : SameView mode v env)
    (hguard : v.p.springCapacityGuard ≠ 0 →
      ¬ GuardsDiffer (meanLoadOf v.p v.springStats (decide (0 < v.springShardLoad.sum)))) :
    env.guarded = v.guardedMask := by
  have hfactor : env.config.capacityGuardFactor =
      if v.p.springCapacityGuardFactor < 1 then 1 else v.p.springCapacityGuardFactor := by
    rw [h.config]
    simp only [offlineConfig]
    split
    next hlt => exact max_eq_left hlt.le
    next hge => exact max_eq_right (not_lt.mp hge)
  rw [SpringOfflineEnv.guarded, CandidateView.guardedMask, candidateLoadPressures_eq h, h.capacityGuard,
    h.load]
  by_cases hon : v.p.springCapacityGuard ≠ 0 ∧ v.springShardLoad ≠ []
  · have hlen : 0 < v.springShardLoad.length := List.length_pos_iff.mpr hon.2
    have hpos : 0 < v.p.shardNum := h.length ▸ hlen
    have hon' : v.p.springCapacityGuard ≠ 0 ∧ v.springShardLoad.length > 0 := ⟨hon.1, hlen⟩
    rw [if_pos hon, if_pos hon']
    have hone : max 1 v.p.shardNum = v.p.shardNum := max_eq_right hpos
    have hplen : v.springCandidateLoadPressures.length = v.p.shardNum := by
      simp [CandidateView.springCandidateLoadPressures]
    have htake : v.springCandidateLoadPressures.take v.p.shardNum =
        v.springCandidateLoadPressures := by
      rw [← hplen]
      exact List.take_length
    have hmean : v.springCandidateLoadPressures.sum / v.p.shardNum =
        meanLoadOf v.p v.springStats (decide (0 < v.springShardLoad.sum)) := by
      rw [springCandidateLoadPressures_eq h.length]
      exact sum_pressureOf h.length
    have hnot := hguard hon.1
    simp only [hone, h.shards, htake, hmean, hfactor]
    generalize meanLoadOf v.p v.springStats (decide (0 < v.springShardLoad.sum)) = mean at hnot ⊢
    -- above both bounds, or above none
    have hbounds : mean > offlineEps ↔ mean > 1 / 1000000000 := by
      rw [offlineEps]
      constructor
      · intro hgt
        have : (1 : ℚ) / 1000000000 < 1 / 100000000 := by norm_num
        exact this.trans hgt
      · intro hgt
        by_contra hle
        exact hnot ⟨hgt, not_lt.mp hle⟩
    simp only [hbounds]
    have hmap : ∀ threshold : ℚ,
        (v.springCandidateLoadPressures.map fun load => if load ≤ threshold then 1 else 0) =
        (List.range v.p.shardNum).map fun sid =>
          if v.springCandidateLoadPressures.getD sid 0 ≤ threshold then 1 else 0 := by
      intro threshold
      apply List.ext_getElem
      · simp [hplen]
      · intro i hi hi'
        have hlt : i < v.springCandidateLoadPressures.length := by simpa using hi
        simp [List.getD_eq_getElem?_getD, hlt]
    simp only [hmap]
    have hany : ∀ l : List ℕ, (l.any (· ≠ 0) = true) = (springActionMaskCount l > 0) := by
      intro l
      rw [springActionMaskCount, gt_iff_lt, List.countP_pos_iff, List.any_eq_true]
      simp [Nat.pos_iff_ne_zero]
    simp only [hany]
  · rw [if_neg hon, if_neg fun h' => hon ⟨h'.1, List.length_pos_iff.mp h'.2⟩]

theorem guardedMask_length {mask : List ℕ} (h : v.guardedMask = some mask) :
    mask.length = v.p.shardNum := by
  simp only [CandidateView.guardedMask, Option.ite_none_right_eq_some, Option.some.injEq] at h
  obtain ⟨-, -, -, rfl⟩ := h
  simp

/-- **The masks agree**, where the guards do. -/
theorem buildCandidateActionMask_eq (h : SameView mode v env) {hash : Address → ℕ}
    {addr : Address} (hhash : hash addr = v.addr2Shard addr) (senderPos : List ℚ)
    (hguard : v.p.springCapacityGuard ≠ 0 →
      ¬ GuardsDiffer (meanLoadOf v.p v.springStats (decide (0 < v.springShardLoad.sum)))) :
    env.buildCandidateActionMask hash addr senderPos =
      v.springBuildCandidateActionMask addr senderPos := by
  rw [SpringOfflineEnv.buildCandidateActionMask, CandidateView.springBuildCandidateActionMask]
  simp only [h.shards, h.candidateTopK, h.capacityGuard, guarded_eq h hguard, candidateScores_eq h hhash, keyGe_eq]
  split
  · rfl
  · split
    · rfl
    · have hmask : (v.guardedMask.getD (List.replicate v.p.shardNum 1)).length = v.p.shardNum := by
        cases hg : v.guardedMask with
        | none => simp
        | some mask => simpa using guardedMask_length hg
      generalize v.guardedMask.getD (List.replicate v.p.shardNum 1) = mask at hmask ⊢
      split
      · have hallowed : ((List.range v.p.shardNum).filter fun sid =>
            decide (sid < mask.length ∧ 0 < mask.getD sid 0)) =
            (List.range v.p.shardNum).filter fun sid => decide (0 < mask.getD sid 0) := by
          apply List.filter_congr
          intro sid hsid
          have hsid : sid < mask.length := hmask ▸ List.mem_range.mp hsid
          simp only [hsid, true_and]
        rw [normalizeActionMask_eq (by simp), hallowed, ← List.take_eq_take_min]
      · exact normalizeActionMask_eq hmask

/-- An index out of range reads as zero. -/
theorem getD_out {α : Type} {l : List α} {i : ℕ} (d : α) (h : l.length ≤ i) : l.getD i d = d := by
  rw [List.getD_eq_getElem?_getD, List.getElem?_eq_none h, Option.getD_none]

/-- **The best candidates agree.** -/
theorem bestCandidateAction_eq (h : SameView mode v env) {hash : Address → ℕ} {addr : Address}
    (hhash : hash addr = v.addr2Shard addr) (senderPos : List ℚ) {mask : List ℕ}
    (hmask : mask.length = v.p.shardNum) :
    env.bestCandidateAction hash addr senderPos mask =
      v.springBestCandidateShard addr senderPos mask := by
  rw [SpringOfflineEnv.bestCandidateAction, bestAllowedAction,
    CandidateView.springBestCandidateShard, candidateScores_eq h hhash, h.shards,
    normalizeActionMask_eq hmask]
  generalize springNormalizeActionMask v.p.shardNum mask = normalized
  generalize v.springCandidateScores addr senderPos = scores
  have hscore : (fun sid => if sid ≥ normalized.length ∨ normalized.getD sid 0 ≤ 0 then none
      else some (if sid < scores.length then scores.getD sid 0 else 0)) =
      fun sid => if normalized.getD sid 0 = 0 then none else some (scores.getD sid 0) := by
    funext sid
    have hskip : (sid ≥ normalized.length ∨ normalized.getD sid 0 ≤ 0) ↔
        normalized.getD sid 0 = 0 := by
      constructor
      · rintro (hout | hzero)
        · exact getD_out 0 hout
        · exact Nat.le_zero.mp hzero
      · exact fun hzero => .inr hzero.le
    have hread : (if sid < scores.length then scores.getD sid 0 else 0) = scores.getD sid 0 := by
      split
      · rfl
      next hout => exact (getD_out 0 (not_lt.mp hout)).symm
    simp only [hskip, hread]
  simp only [hscore]

theorem springNormalizeActionMask_length (shards : ℕ) (mask : List ℕ) :
    (springNormalizeActionMask shards mask).length = shards := by
  rw [springNormalizeActionMask]
  split
  · simp
  · simp

theorem springBuildCandidateActionMask_length (v : CandidateView) (addr : Address)
    (senderPos : List ℚ) :
    (v.springBuildCandidateActionMask addr senderPos).length = v.p.shardNum := by
  rw [CandidateView.springBuildCandidateActionMask]
  dsimp only
  split
  next hzero => simp [hzero]
  next =>
    split
    · simp
    · split
      · exact springNormalizeActionMask_length _ _
      · exact springNormalizeActionMask_length _ _

/-! ## Sender positions -/

/-- The relations of a batch are those of its transactions, without the empty address
and without an address itself. -/
def RelatedMap.Proper (related : RelatedMap) : Prop := ∀ a, ∀ b ∈ related a, b ≠ "" ∧ b ≠ a

theorem RelatedMap.Proper.add {related : RelatedMap} (h : related.Proper) (a b : Address) :
    (related.add a b).Proper := by
  intro x y hy
  unfold RelatedMap.add at hy
  split at hy
  · exact h x y hy
  next hadd =>
    have hne : a ≠ "" ∧ b ≠ "" ∧ a ≠ b := by grind
    by_cases hx : x = a
    · subst hx
      rw [Function.update_self, Finset.mem_insert] at hy
      rcases hy with rfl | hy
      · exact ⟨hne.2.1, hne.2.2.symm⟩
      · exact h x y hy
    · rw [Function.update_of_ne hx] at hy
      exact h x y hy

theorem springBuildBatchRelatedMap_proper (p : SpringConfig) (txs : List Transaction) :
    (springBuildBatchRelatedMap p txs).Proper := by
  unfold springBuildBatchRelatedMap
  have hstart : RelatedMap.Proper fun _ => ∅ := fun a b hb => by simp at hb
  generalize (fun _ => ∅ : RelatedMap) = related at hstart
  induction txs generalizing related with
  | nil => exact hstart
  | cons tx txs ih =>
    apply ih
    split
    · exact hstart.add _ _
    · exact (hstart.add _ _).add _ _

/-- The transaction, as the offline environment reads it with its scene. -/
def offlineTx (rows : SceneRows) (tx : Transaction) : OfflineTx where
  sender := tx.sender
  recipient := tx.recipient
  relatedAddresses := []
  relatedWeights := []
  iotFeatures := ((rows tx.nonce).map (·.features)).getD []
  communicationCostWeight := ((rows tx.nonce).map (·.communicationCostWeight)).getD 0
  realAccounts := ((rows tx.nonce).map (·.realAccounts)).getD false
  recipientIotFeatures := ((rows tx.nonce).map (·.recipientFeatures)).getD []
  recipientCommunicationCostWeight :=
    ((rows tx.nonce).map (·.recipientCommunicationCostWeight)).getD 0

theorem buildBatchRelated_eq (p : SpringConfig) (mode : ℕ) (rows : SceneRows)
    (txs : List Transaction) :
    buildBatchRelated (offlineConfig p mode) (txs.map (offlineTx rows)) =
      springBuildBatchRelatedMap p txs := by
  have hadd : ∀ (related : RelatedMap) (a b : Address),
      (if a ≠ "" ∧ b ≠ "" ∧ a ≠ b then Function.update related a (insert b (related a))
        else related) = related.add a b := by
    intro related a b
    rw [RelatedMap.add]
    by_cases h : a = "" ∨ b = "" ∨ a = b
    · rw [if_pos h, if_neg (by grind)]
    · rw [if_neg h, if_pos (by grind)]
  rw [buildBatchRelated, springBuildBatchRelatedMap, List.foldl_map]
  simp only [hadd]
  rfl

/-- The counters of both sides. -/
theorem countRelated_eq {p : SpringConfig} (hconfig : env.config = offlineConfig p mode)
    (batch : BatchPlacement) (keys : List Address) (c : SenderCount) :
    keys.foldl (countRelated env batch) (c.shardCounts, c.knownCount, c.relatedInCurrentBatch) =
      ((keys.foldl (countPeer p.shardNum batch env.addrShard) c).shardCounts,
        (keys.foldl (countPeer p.shardNum batch env.addrShard) c).knownCount,
        (keys.foldl (countPeer p.shardNum batch env.addrShard) c).relatedInCurrentBatch) := by
  have hshards : env.config.shards = p.shardNum := by rw [hconfig]; rfl
  have hone : ∀ (c : SenderCount) (peer : Address),
      countRelated env batch (c.shardCounts, c.knownCount, c.relatedInCurrentBatch) peer =
        ((countPeer p.shardNum batch env.addrShard c peer).shardCounts,
          (countPeer p.shardNum batch env.addrShard c peer).knownCount,
          (countPeer p.shardNum batch env.addrShard c peer).relatedInCurrentBatch) := by
    intro c peer
    unfold countRelated countPeer
    rw [hshards]
    cases batch.lookup peer with
    | none =>
      cases env.addrShard.lookup peer with
      | none => rfl
      | some sid => by_cases hsid : sid < p.shardNum <;> simp [Option.filter, hsid]
    | some sid =>
      by_cases hsid : sid < p.shardNum
      · simp [Option.filter, hsid]
      · cases env.addrShard.lookup peer with
        | none => simp [Option.filter, hsid]
        | some sid' =>
          by_cases hsid' : sid' < p.shardNum <;> simp [Option.filter, hsid, hsid']
  induction keys generalizing c with
  | nil => rfl
  | cons peer keys ih =>
    rw [List.foldl_cons, List.foldl_cons, hone]
    exact ih _

/-- The related addresses of both sides. -/
theorem relatedSet_eq {p : SpringConfig} (hconfig : env.config = offlineConfig p mode)
    (related : RelatedMap) (addr : Address) (fallback : Option Address) :
    env.relatedAddresses addr fallback related = relatedSet p addr (fallback.getD "") related := by
  have hpos : env.config.senderPosMode = p.springSenderPosMode := by rw [hconfig]; rfl
  cases fallback with
  | none => simp [SpringOfflineEnv.relatedAddresses, relatedSet]
  | some peer =>
    rw [SpringOfflineEnv.relatedAddresses, hpos, relatedSet, Option.getD_some]
    by_cases hne : peer = ""
    · simp [hne]
    · simp only [ne_eq, hne, not_false_eq_true, true_and, if_true]

/-- No address is related to itself, so the filter of the environment keeps them all. -/
theorem relatedSet_filter (p : SpringConfig) {related : RelatedMap} (hproper : related.Proper)
    {addr : Address} {fallback : Option Address}
    (hfallback : ∀ peer, fallback = some peer → peer ≠ addr) :
    (relatedSet p addr (fallback.getD "") related).filter
      (fun peer => peer ≠ "" ∧ peer ≠ addr) = relatedSet p addr (fallback.getD "") related := by
  refine Finset.filter_true_of_mem fun b hb => ?_
  unfold relatedSet at hb
  split at hb
  next hif =>
    rcases Finset.mem_insert.mp hb with rfl | hb
    · refine ⟨hif.1, ?_⟩
      cases fallback with
      | none => exact absurd rfl hif.1
      | some peer => exact hfallback peer rfl
    · exact hproper addr b hb
  · exact hproper addr b hb

/-- **The sender positions agree.** -/
theorem buildSenderPos_eq {p : SpringConfig} (hconfig : env.config = offlineConfig p mode)
    {related : RelatedMap} (hproper : related.Proper) (batch : BatchPlacement) {addr : Address}
    {fallback : Option Address} (hfallback : ∀ peer, fallback = some peer → peer ≠ addr) :
    let info := env.buildSenderPos addr fallback batch related
    let pos := springBuildSenderPos p env.addrShard addr (fallback.getD "") batch related
    info.senderPos = pos.senderPos ∧ info.relatedSummary = pos.relatedSummary := by
  have hshards : env.config.shards = p.shardNum := by rw [hconfig]; rfl
  have hcount := countRelated_eq hconfig batch
    (sortedAddresses (relatedSet p addr (fallback.getD "") related))
    ⟨List.replicate p.shardNum 0, 0, false⟩
  unfold SpringOfflineEnv.buildSenderPos springBuildSenderPos
  dsimp only at hcount ⊢
  rw [relatedSet_eq hconfig, relatedSet_filter p hproper hfallback, hshards, hcount]
  refine ⟨rfl, ?_⟩
  generalize sortedAddresses (relatedSet p addr (fallback.getD "") related) = keys
  rw [relatedSummary, List.length_take]
  by_cases hlong : keys.length > 8
  · rw [if_pos hlong, if_pos (by omega), Nat.min_eq_left hlong.le]
  · rw [if_neg hlong, if_neg (by omega)]

end BlockEmulator
