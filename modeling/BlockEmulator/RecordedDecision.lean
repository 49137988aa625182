import BlockEmulator.PlacementParity
import BlockEmulator.ReplayEnv

/-!
# A recorded decision and what is read from its state

The state that the supervisor records is laid out by shards: five windows for two kinds of
loads, the sender position, in the legacy layout a flag, the shares of the placements, and
the features. A window entry is a normalized count; the count can be recovered as long as the
entry is below its bound.

* `RecordedDecision` — the decision of an explicit run on real accounts.
* `RecordedDecision.state_eq` — its state, part by part.
* `restoreCount_clamp` — **a count is recovered** from its entry.
* `restoreCandidateEnv_eq` — **what is restored**: the shares and the windows, exactly where
  the configuration file can be replayed.
-/

namespace BlockEmulator

open Fallible

/-! ## Decisions -/

/-- What a decision of the supervisor is computed from, on real accounts. -/
structure RecordedDecision (p : SpringConfig) where
  /-- `springStats` -/
  springStats : ℕ → List SpringBlockStat
  /-- `springShardLoad` -/
  springShardLoad : List ℕ
  /-- `springAddrShard` -/
  springAddrShard : AddrShard
  /-- `batchPlacement` -/
  batchPlacement : BatchPlacement
  /-- `batchRelated` -/
  batchRelated : RelatedMap
  /-- `addr` -/
  address : Address
  /-- `related` -/
  related : Address
  /-- `extraFeatures` -/
  extraFeatures : List ℚ
  /-- one counter for each shard -/
  length : springShardLoad.length = p.shardNum
  /-- the address of a real account -/
  plain : address.IsPlain

namespace RecordedDecision

variable {H : Type} (F : HashFns H) (log1p : ℚ → ℚ) {p : SpringConfig} (d : RecordedDecision p)

/-- What the candidate functions of the supervisor look at. -/
def view : CandidateView where
  p := p
  addr2Shard := fun addr => addr2ShardWithShardNum F addr p.shardNum
  springShardLoad := d.springShardLoad
  springStats := d.springStats

/-- `springBuildSenderPos`. -/
def pos : SenderPos :=
  springBuildSenderPos p d.springAddrShard d.address d.related d.batchPlacement d.batchRelated

/-- `state`. -/
def state : List ℚ :=
  springBuildStateFromSenderPos log1p p d.springStats d.springShardLoad d.pos.senderPos
    (springAddressFlagFromRelatedCount d.pos.relatedCount) d.extraFeatures

/-- `actionMask`. -/
def actionMask : List ℕ :=
  (d.view F).springBuildCandidateActionMask d.address d.pos.senderPos

/-- The best candidate shard. -/
def bestShard : ℕ :=
  (d.view F).springBestCandidateShard d.address d.pos.senderPos (d.actionMask F)

end RecordedDecision

/-! ## The sender position -/

/-- Each shard has at most as many related addresses as there are. -/
theorem countPeer_le (shardNum : ℕ) (batchPlacement : BatchPlacement) (springAddrShard : AddrShard)
    (keys : List Address) {c : SenderCount}
    (h : c.shardCounts.length = shardNum ∧ ∀ x ∈ c.shardCounts, x ≤ c.knownCount) :
    let c' := keys.foldl (countPeer shardNum batchPlacement springAddrShard) c
    c'.shardCounts.length = shardNum ∧ ∀ x ∈ c'.shardCounts, x ≤ c'.knownCount := by
  have hmodify : ∀ (l : List ℕ) (i known : ℕ), (∀ x ∈ l, x ≤ known) →
      ∀ x ∈ l.modify i (· + 1), x ≤ known + 1 := by
    intro l i known hl x hx
    obtain ⟨j, hj, rfl⟩ := List.mem_iff_getElem.mp hx
    rw [List.length_modify] at hj
    rw [List.getElem_modify]
    have hle := hl _ (List.getElem_mem hj)
    split
    · exact Nat.succ_le_succ hle
    · exact Nat.le_succ_of_le hle
  induction keys generalizing c with
  | nil => exact h
  | cons peer keys ih =>
    refine ih ?_
    unfold countPeer
    split
    · exact ⟨(List.length_modify ..).trans h.1, hmodify _ _ _ h.2⟩
    · split
      · exact ⟨(List.length_modify ..).trans h.1, hmodify _ _ _ h.2⟩
      · exact h

/-- The sender position has an entry between zero and one for each shard. -/
theorem springBuildSenderPos_mem (p : SpringConfig) (springAddrShard : AddrShard)
    (addr related : Address) (batchPlacement : BatchPlacement) (batchRelated : RelatedMap) :
    let pos := springBuildSenderPos p springAddrShard addr related batchPlacement batchRelated
    pos.senderPos.length = p.shardNum ∧ ∀ x ∈ pos.senderPos, 0 ≤ x ∧ x ≤ 1 := by
  have hcount := countPeer_le p.shardNum batchPlacement springAddrShard
    (sortedAddresses (relatedSet p addr related batchRelated))
    (c := ⟨List.replicate p.shardNum 0, 0, false⟩)
    ⟨List.length_replicate, fun x hx => (List.eq_of_mem_replicate hx).le⟩
  unfold springBuildSenderPos
  dsimp only at hcount ⊢
  generalize (sortedAddresses (relatedSet p addr related batchRelated)).foldl
    (countPeer p.shardNum batchPlacement springAddrShard)
    ⟨List.replicate p.shardNum 0, 0, false⟩ = c at hcount ⊢
  split
  next hknown =>
    refine ⟨by rw [List.length_map, hcount.1], fun x hx => ?_⟩
    obtain ⟨count, hmem, rfl⟩ := List.mem_map.mp hx
    have hpos : (0 : ℚ) < c.knownCount := by exact_mod_cast hknown
    exact ⟨by positivity, (div_le_one hpos).mpr (by exact_mod_cast hcount.2 count hmem)⟩
  next => exact ⟨List.length_replicate, fun x hx => by
      rw [List.eq_of_mem_replicate hx]; exact ⟨le_rfl, zero_le_one⟩⟩

/-! ## The parts of the state -/

namespace RecordedDecision

variable {H : Type} (log1p : ℚ → ℚ) {p : SpringConfig} (d : RecordedDecision p)

/-- The windows of one kind of loads, the oldest first. -/
def windows (load : SpringBlockStat → ℚ) : List ℚ :=
  [4, 3, 2, 1, 0].flatMap fun back => (List.range p.shardNum).map fun sid =>
    load (springGetStat d.springStats sid back)

/-- What follows the shares. -/
def features : List ℚ :=
  (List.range (springConfiguredIOTFeatureDim p +
      if p.springMechanismVersion = .v3 then p.shardNum else 0)).map fun idx =>
    springClamp
      (if p.springMechanismVersion = .v3 ∧ p.springFeatureMode = .noIot ∧ idx > 0 then 0
        else d.extraFeatures.getD idx 0) 0 1

/-- The flag, in the legacy layout. -/
def flags : List ℚ :=
  if p.springMechanismVersion ≠ .v3 then
    [if springAddressFlagFromRelatedCount d.pos.relatedCount ≠ 0 then 1
      else springAddressFlagFromRelatedCount d.pos.relatedCount]
  else []

/-- **The state, part by part.** -/
theorem state_eq (hiot : p.springIOTMode = 1) :
    d.state log1p =
      d.windows (fun st => springNormalizeStateValue log1p p st.numTx) ++
      (d.windows (fun st => springNormalizeStateValue log1p p st.crossTx) ++
      (d.pos.senderPos ++ (d.flags ++ (loadShares p d.springShardLoad ++ d.features)))) := by
  have hdim := configuredDim_pos hiot
  obtain ⟨hlength, hmem⟩ : d.pos.senderPos.length = p.shardNum ∧
      ∀ x ∈ d.pos.senderPos, 0 ≤ x ∧ x ≤ 1 :=
    springBuildSenderPos_mem p d.springAddrShard d.address d.related d.batchPlacement
      d.batchRelated
  have hpos : ((List.range p.shardNum).map fun sid =>
      springClamp (d.pos.senderPos.getD sid 0) 0 1) = d.pos.senderPos := by
    refine List.ext_getElem (by simpa using hlength.symm) fun i _ hi => ?_
    obtain ⟨hlow, hhigh⟩ := hmem _ (List.getElem_mem hi)
    rw [List.getElem_map, List.getElem_range, List.getD_eq_getElem _ _ hi,
      springClamp_eq_self hlow hhigh]
  have hfeatures : p.springIOTMode = 1 ∧ springConfiguredIOTFeatureDim p +
      (if p.springMechanismVersion = .v3 then p.shardNum else 0) > 0 := ⟨hiot, by omega⟩
  unfold state springBuildStateFromSenderPos
  simp only [if_pos (And.intro hiot hdim), if_pos hfeatures, hpos]
  simp only [List.append_assoc]
  rfl

theorem windows_length (load : SpringBlockStat → ℚ) :
    (d.windows load).length = 5 * p.shardNum := by
  simp only [windows, List.flatMap_cons, List.flatMap_nil, List.length_append, List.length_map,
    List.length_range, List.length_nil]
  omega

theorem flags_length :
    d.flags.length = if p.springMechanismVersion = .v3 then 0 else 1 := by
  unfold flags
  by_cases hv : p.springMechanismVersion = .v3
  · simp [hv]
  · simp [hv]

theorem pos_length : d.pos.senderPos.length = p.shardNum :=
  (springBuildSenderPos_mem p d.springAddrShard d.address d.related d.batchPlacement
    d.batchRelated).1

@[simp] theorem loadShares_length (p : SpringConfig) (loads : List ℕ) :
    (loadShares p loads).length = p.shardNum := by
  rw [loadShares, List.length_map, List.length_range]

theorem state_length (hiot : p.springIOTMode = 1) :
    (d.state log1p).length = 12 * p.shardNum + springConfiguredIOTFeatureDim p +
      if p.springMechanismVersion = .v3 then p.shardNum else 1 := by
  rw [d.state_eq log1p hiot]
  simp only [List.length_append, windows_length, pos_length, flags_length, loadShares_length,
    features, List.length_map, List.length_range]
  split
  · omega
  · omega

/-- Every entry is between zero and one. -/
theorem state_mem (hiot : p.springIOTMode = 1) :
    ∀ v ∈ d.state log1p, 0 ≤ v ∧ v ≤ 1 := by
  have hclamp : ∀ x : ℚ, 0 ≤ springClamp x 0 1 ∧ springClamp x 0 1 ≤ 1 :=
    fun x => springClamp_mem zero_le_one x
  have hwindows : ∀ load : SpringBlockStat → ℚ, (∀ st, 0 ≤ load st ∧ load st ≤ 1) →
      ∀ v ∈ d.windows load, 0 ≤ v ∧ v ≤ 1 := by
    intro load hload v hv
    obtain ⟨back, -, hv⟩ := List.mem_flatMap.mp hv
    obtain ⟨sid, -, rfl⟩ := List.mem_map.mp hv
    exact hload _
  intro v hv
  rw [d.state_eq log1p hiot] at hv
  simp only [List.mem_append] at hv
  rcases hv with hv | hv | hv | hv | hv | hv
  · exact hwindows _ (fun st => hclamp _) v hv
  · exact hwindows _ (fun st => hclamp _) v hv
  · exact (springBuildSenderPos_mem p d.springAddrShard d.address d.related d.batchPlacement
      d.batchRelated).2 v hv
  · unfold flags springAddressFlagFromRelatedCount at hv
    split at hv
    · obtain rfl := List.mem_singleton.mp hv
      split
      · exact ⟨zero_le_one, le_rfl⟩
      · split
        · exact ⟨zero_le_one, le_rfl⟩
        · exact ⟨le_rfl, zero_le_one⟩
    · cases hv
  · rw [loadShares] at hv
    obtain ⟨sid, -, rfl⟩ := List.mem_map.mp hv
    exact hclamp _
  · rw [features] at hv
    obtain ⟨idx, -, rfl⟩ := List.mem_map.mp hv
    exact hclamp _

/-- The loads of the windows. -/
theorem state_windows (hiot : p.springIOTMode = 1) :
    (d.state log1p).take (5 * p.shardNum) =
      d.windows fun st => springNormalizeStateValue log1p p st.numTx := by
  rw [d.state_eq log1p hiot, ← d.windows_length fun st => springNormalizeStateValue log1p p st.numTx,
    List.take_left]

/-- The sender position. -/
theorem state_pos (hiot : p.springIOTMode = 1) :
    ((d.state log1p).drop (10 * p.shardNum)).take p.shardNum = d.pos.senderPos := by
  have hsplit : 10 * p.shardNum =
      (d.windows fun st => springNormalizeStateValue log1p p st.numTx).length +
      (d.windows fun st => springNormalizeStateValue log1p p st.crossTx).length := by
    rw [windows_length, windows_length]
    omega
  rw [d.state_eq log1p hiot, hsplit, ← List.drop_drop, List.drop_left, List.drop_left,
    ← d.pos_length, List.take_left]

/-- The shares. -/
theorem state_shares (hiot : p.springIOTMode = 1) :
    ((d.state log1p).drop (11 * p.shardNum +
      if p.springMechanismVersion = .v3 then 0 else 1)).take p.shardNum =
      loadShares p d.springShardLoad := by
  have hsplit : 11 * p.shardNum + (if p.springMechanismVersion = .v3 then 0 else 1) =
      (d.windows fun st => springNormalizeStateValue log1p p st.numTx).length +
      ((d.windows fun st => springNormalizeStateValue log1p p st.crossTx).length +
      (d.pos.senderPos.length + d.flags.length)) := by
    rw [windows_length, windows_length, pos_length, flags_length]
    omega
  rw [d.state_eq log1p hiot, hsplit, ← List.drop_drop, List.drop_left, ← List.drop_drop,
    List.drop_left, ← List.drop_drop, List.drop_left, List.drop_left]
  conv_lhs => rw [← loadShares_length p d.springShardLoad, List.take_left]

end RecordedDecision

/-! ## Counts -/

/-- What is used of the logarithm and its inverse. -/
structure InverseLogs (log1p expm1 : ℚ → ℚ) : Prop where
  /-- `log1p(0)` -/
  zero : log1p 0 = 0
  /-- a greater number has a greater logarithm -/
  lt : ∀ x y, 0 ≤ x → x < y → log1p x < log1p y
  /-- `expm1` undoes `log1p` -/
  inverse : ∀ x, 0 ≤ x → expm1 (log1p x) = x

section

variable {log1p expm1 : ℚ → ℚ}

@[simp] theorem pyRound_natCast (n : ℕ) : pyRound (n : ℚ) = n := by
  simp [pyRound]

/-- **A count is recovered** from its entry. -/
theorem restoreCount_clamp (h : InverseLogs log1p expm1) {denom : ℚ} (hdenom : 0 < denom) {n : ℕ}
    (hlt : springClamp (log1p n / log1p (denom * 4)) 0 1 < 1) :
    restoreCount log1p expm1 denom (springClamp (log1p n / log1p (denom * 4)) 0 1) =
      some (n : ℚ) := by
  have hscale : 0 < log1p (denom * 4) := by
    rw [← h.zero]
    exact h.lt _ _ le_rfl (by positivity)
  have hcount : 0 ≤ log1p n := by
    rcases (Nat.cast_nonneg n : (0 : ℚ) ≤ n).eq_or_lt with hzero | hpos
    · rw [← hzero, h.zero]
    · rw [← h.zero]
      exact (h.lt _ _ le_rfl hpos).le
  have hvalue : springClamp (log1p n / log1p (denom * 4)) 0 1 = log1p n / log1p (denom * 4) := by
    have hlow : ¬ log1p n / log1p (denom * 4) < 0 := not_lt.mpr (by positivity)
    rw [springClamp, if_neg hlow] at hlt ⊢
    split at hlt
    · exact absurd hlt (lt_irrefl 1)
    next hhigh => rw [if_neg hhigh]
  have hdecoded : expm1 (log1p n / log1p (denom * 4) * log1p (denom * 4)) = n := by
    rw [div_mul_cancel₀ _ hscale.ne', h.inverse _ (Nat.cast_nonneg n)]
  rw [hvalue] at hlt ⊢
  rw [restoreCount, if_neg (not_le.mpr hlt)]
  simp only [hdecoded, pyRound_natCast, Int.cast_natCast, sub_self, abs_zero]
  rw [if_neg (by norm_num)]

end

/-! ## What a replay restores -/

/-- The configuration file has what a replay asks for. -/
structure ParamsConfig.Replayable (config : ParamsConfig) : Prop where
  /-- the version is not the empty text -/
  version : config.springMechanismVersion ≠ some ""
  /-- `BlockSize` is there -/
  block : config.blockSize.isSome
  /-- `TxBatchSize` is there, and positive -/
  batch : ∃ batch, config.txBatchSize = some batch ∧ 0 < batch
  /-- `SpringCandidateTopK` is there -/
  topK : config.springCandidateTopK.isSome
  /-- `SpringCapacityGuard` is there -/
  guard : config.springCapacityGuard.isSome
  /-- `SpringCapacityGuardFactor` is there -/
  factor : config.springCapacityGuardFactor.isSome
  /-- `SpringCandidateLoadWeight` is there -/
  weight : config.springCandidateLoadWeight.isSome

/-- The layout of the run, as `run_context.json` has it. -/
def OwnLayout (p : SpringConfig) (layout : Option String) : Prop :=
  p.springMechanismVersion = .v3 → layout = none ∨ layout = some v3StateLayout

/-- The configuration of the restored environment. -/
def restoredConfig (config : ParamsConfig) (p : SpringConfig) : OfflineConfig where
  shards := p.shardNum
  mechanismVersion := .legacy
  sceneCostMode := .legacy
  maxBlockSize := p.maxBlockSizeGlobal
  senderPosMode := 1
  iotFeatureDim := 10
  capacityBacklogMode := 0
  candidateTopK := p.springCandidateTopK
  capacityGuard := p.springCapacityGuard
  capacityGuardFactor := max 1 (config.springCapacityGuardFactor.getD 0)
  candidateLoadWeight := p.springCandidateLoadWeight

/-- The restored environment. -/
def RecordedDecision.restored (config : ParamsConfig) {p : SpringConfig} (d : RecordedDecision p) :
    ReplayEnv where
  config := restoredConfig config p
  shardLoad := loadShares p d.springShardLoad
  recentStats := (List.range 5).map fun i => (List.range p.shardNum).map fun sid =>
    ((springGetStat d.springStats sid (4 - i)).numTx : ℚ)

section

variable {config : ParamsConfig} {params p : SpringConfig} {layout : Option String}

/-- The flag of the layout is that of the state. -/
theorem addressFlagDim_eq (hread : config.read params = some p) (hlayout : OwnLayout p layout)
    (hversion : config.springMechanismVersion ≠ some "") :
    addressFlagDim (config.springMechanismVersion.getD "legacy") layout =
      some (if p.springMechanismVersion = .v3 then 0 else 1) ∧
      (config.springMechanismVersion.getD "legacy" = "v3" ↔ p.springMechanismVersion = .v3) := by
  obtain ⟨version, hv, rfl⟩ := Option.map_eq_some_iff.mp hread
  unfold ParamsConfig.readVersion at hv
  unfold OwnLayout at hlayout
  dsimp only at hv hlayout ⊢
  rcases hcase : config.springMechanismVersion with _ | text
  · rw [hcase] at hv
    obtain rfl := Option.some.inj hv
    exact ⟨rfl, by decide⟩
  · rw [hcase, Option.getD_some] at hv
    have hne : text ≠ "" := fun hempty => hversion (by rw [hcase, hempty])
    rw [Option.getD_some]
    split_ifs at hv with hlegacy hv3
    · obtain rfl := Option.some.inj hv
      obtain rfl := hlegacy.resolve_left hne
      exact ⟨rfl, by decide⟩
    · obtain rfl := Option.some.inj hv
      subst hv3
      rcases hlayout rfl with rfl | rfl
      · exact ⟨rfl, by decide⟩
      · have hflag : addressFlagDim "v3" (some v3StateLayout) = some 0 := by decide
        exact ⟨hflag, by decide⟩

/-- With the version of the file, the empty text is refused. -/
theorem addressFlagDim_ne_empty {flagDim : ℕ}
    (h : addressFlagDim (config.springMechanismVersion.getD "legacy") layout = some flagDim) :
    config.springMechanismVersion ≠ some "" := by
  intro hempty
  rw [hempty] at h
  cases h

/-- The scale of the window entries. -/
theorem restoreDenom_eq {block batch : ℤ} (hblock : p.maxBlockSizeGlobal = block.toNat)
    (hbatch : p.txBatchSize = batch.toNat) :
    (if max block batch > 0 then ((max block batch : ℤ) : ℚ) else 100) =
      let denom : ℚ :=
        if p.txBatchSize > p.maxBlockSizeGlobal then p.txBatchSize else p.maxBlockSizeGlobal
      if denom ≤ 0 then 100 else denom := by
  have hmax : (if p.txBatchSize > p.maxBlockSizeGlobal then (p.txBatchSize : ℚ)
      else p.maxBlockSizeGlobal) = ((max block batch).toNat : ℚ) := by
    split
    · rw [hbatch]
      congr 1
      omega
    · rw [hblock]
      congr 1
      omega
  dsimp only
  rw [hmax]
  generalize max block batch = size
  by_cases hpos : size > 0
  · have hcast : ((size.toNat : ℕ) : ℚ) = (size : ℚ) := by
      exact_mod_cast Int.toNat_of_nonneg hpos.le
    have hpos' : (0 : ℚ) < size := by exact_mod_cast hpos
    rw [if_pos hpos, hcast, if_neg (not_le.mpr hpos')]
  · have hzero : size.toNat = 0 := Int.toNat_eq_zero.mpr (not_lt.mp hpos)
    rw [if_neg hpos, hzero, if_pos (by norm_num)]

/-- A row of a table that was written row by row. -/
theorem flatten_row {α : Type} {n : ℕ} {rows : List (List α)} (h : ∀ row ∈ rows, row.length = n)
    {i : ℕ} (hi : i < rows.length) : (rows.flatten.drop (i * n)).take n = rows[i] := by
  induction rows generalizing i with
  | nil => exact absurd hi (Nat.not_lt_zero i)
  | cons row rows ih =>
    have hrow := h row List.mem_cons_self
    rw [List.flatten_cons]
    cases i with
    | zero => rw [Nat.zero_mul, List.drop_zero, ← hrow, List.take_left, List.getElem_cons_zero]
    | succ i =>
      have hdrop : (row ++ rows.flatten).drop n = rows.flatten := by rw [← hrow, List.drop_left]
      rw [Nat.succ_mul, Nat.add_comm, ← List.drop_drop, hdrop, List.getElem_cons_succ]
      exact ih (fun row hrow => h row (List.mem_cons_of_mem _ hrow)) (Nat.lt_of_succ_lt_succ hi)

/-- A row of the recovered counts. -/
theorem windows_row (d : RecordedDecision p) (load : SpringBlockStat → ℚ) {i : ℕ} (hi : i < 5) :
    ((d.windows load).drop (i * p.shardNum)).take p.shardNum =
      (List.range p.shardNum).map fun sid => load (springGetStat d.springStats sid (4 - i)) := by
  have hrows : ∀ row ∈ [4, 3, 2, 1, 0].map fun back => (List.range p.shardNum).map fun sid =>
      load (springGetStat d.springStats sid back), row.length = p.shardNum := by
    intro row hrow
    obtain ⟨back, -, rfl⟩ := List.mem_map.mp hrow
    rw [List.length_map, List.length_range]
  have hback : [4, 3, 2, 1, 0][i] = 4 - i := by
    match i, hi with
    | 0, _ | 1, _ | 2, _ | 3, _ | 4, _ => rfl
  rw [RecordedDecision.windows, List.flatMap_def, flatten_row hrows (by simpa using hi),
    List.getElem_map, hback]

/-- What is read of the file is there, where the file can be replayed. -/
theorem ParamsConfig.Replayable.read_eq (h : config.Replayable) (hread : config.read params = some p) :
    ∃ block batch topK guard factor weight,
      config.blockSize = some block ∧ config.txBatchSize = some batch ∧
      config.springCandidateTopK = some topK ∧ config.springCapacityGuard = some guard ∧
      config.springCapacityGuardFactor = some factor ∧
      config.springCandidateLoadWeight = some weight ∧ 0 < batch ∧
      p.maxBlockSizeGlobal = block.toNat ∧ p.txBatchSize = batch.toNat ∧
      p.springCandidateTopK = topK.toNat ∧ p.springCapacityGuard = guard.natAbs ∧
      p.springCandidateLoadWeight = max 0 weight := by
  obtain ⟨block, hblock⟩ := Option.isSome_iff_exists.mp h.block
  obtain ⟨batch, hbatch, hpos⟩ := h.batch
  obtain ⟨topK, htopK⟩ := Option.isSome_iff_exists.mp h.topK
  obtain ⟨guard, hguard⟩ := Option.isSome_iff_exists.mp h.guard
  obtain ⟨factor, hfactor⟩ := Option.isSome_iff_exists.mp h.factor
  obtain ⟨weight, hweight⟩ := Option.isSome_iff_exists.mp h.weight
  obtain ⟨version, -, rfl⟩ := Option.map_eq_some_iff.mp hread
  refine ⟨block, batch, topK, guard, factor, weight, hblock, hbatch, htopK, hguard, hfactor,
    hweight, hpos, ?_, ?_, ?_, ?_, ?_⟩
  · rw [hblock, Option.getD_some]
  · rw [hbatch, Option.getD_some]
  · rw [htopK, Option.getD_some]
  · rw [hguard, Option.getD_some]
  · rw [hweight]
    dsimp only
    split
    next hneg => rw [max_eq_left hneg.le]
    next hnonneg => rw [max_eq_right (not_lt.mp hnonneg)]

/-- The counts of a state whose window entries are below their bound. -/
theorem restoreCounts_eq {log1p expm1 : ℚ → ℚ} (hlogs : InverseLogs log1p expm1)
    (hiot : p.springIOTMode = 1) {block batch : ℤ} (hblock : p.maxBlockSizeGlobal = block.toNat)
    (hbatch : p.txBatchSize = batch.toNat) (d : RecordedDecision p)
    (hunsaturated : ∀ v ∈ (d.state log1p).take (5 * p.shardNum), v < 1) :
    ((d.state log1p).take (5 * p.shardNum)).mapM (restoreCount log1p expm1
        (if max block batch > 0 then ((max block batch : ℤ) : ℚ) else 100)) =
      some (d.windows fun st => st.numTx) := by
  rw [d.state_windows log1p hiot] at hunsaturated ⊢
  have hmap : ∀ load : SpringBlockStat → ℚ, d.windows load =
      (([4, 3, 2, 1, 0].flatMap fun back => (List.range p.shardNum).map fun sid =>
        springGetStat d.springStats sid back).map load) := by
    intro load
    rw [List.map_flatMap]
    exact List.flatMap_congr fun back _ => (List.map_map ..).symm
  rw [hmap] at hunsaturated ⊢
  rw [List.mapM_map, hmap]
  refine mapM_some fun st hst => ?_
  have hlt := hunsaturated _ (List.mem_map.mpr ⟨st, hst, rfl⟩)
  have hdenom : (0 : ℚ) <
      if max block batch > 0 then ((max block batch : ℤ) : ℚ) else 100 := by
    split
    next hpos => exact_mod_cast hpos
    next => norm_num
  have hvalue : springNormalizeStateValue log1p p st.numTx = springClamp (log1p (st.numTx : ℚ) /
      log1p ((if max block batch > 0 then ((max block batch : ℤ) : ℚ) else 100) * 4)) 0 1 := by
    rw [springNormalizeStateValue, restoreDenom_eq hblock hbatch]
  rw [hvalue] at hlt
  rw [Function.comp_apply, hvalue]
  exact restoreCount_clamp hlogs hdenom hlt

/-- **What is restored**, from a file that can be replayed and a state of ten features. -/
theorem restoreCandidateEnv_eq {log1p expm1 : ℚ → ℚ} (hlogs : InverseLogs log1p expm1)
    (hread : config.read params = some p) (hshards : 0 < p.shardNum) (hiot : p.springIOTMode = 1)
    (hlayout : OwnLayout p layout) (d : RecordedDecision p)
    (hunsaturated : ∀ v ∈ (d.state log1p).take (5 * p.shardNum), v < 1)
    (hconfig : config.Replayable) (hdim : springConfiguredIOTFeatureDim p = 10) :
    restoreCandidateEnv log1p expm1 config (d.state log1p) p.shardNum layout =
      some (d.restored config) := by
  obtain ⟨block, batch, topK, guard, factor, weight, hblock, hbatch, htopK, hguard, hfactor,
    hweight, hpos, hpblock, hpbatch, hptopK, hpguard, hpweight⟩ := hconfig.read_eq hread
  obtain ⟨hflag, hversion⟩ := addressFlagDim_eq hread hlayout hconfig.version
  have hlength : (d.state log1p).length = stateDim p.shardNum 10 +
      if config.springMechanismVersion.getD "legacy" = "v3" then
        p.shardNum - 1 + (if p.springMechanismVersion = .v3 then 0 else 1) else 0 := by
    rw [d.state_length log1p hiot, hdim]
    simp only [hversion, stateDim, if_pos (show 10 > 0 by decide)]
    split
    · omega
    · omega
  have hrows : ((List.range 5).map fun i =>
      ((d.windows fun st => (st.numTx : ℚ)).drop (i * p.shardNum)).take p.shardNum) =
      (List.range 5).map fun i => (List.range p.shardNum).map fun sid =>
        ((springGetStat d.springStats sid (4 - i)).numTx : ℚ) :=
    List.map_congr_left fun i hi => windows_row d (fun st => (st.numTx : ℚ)) (List.mem_range.mp hi)
  have hnew : replayConfig p.shardNum block batch topK guard factor weight =
      some (restoredConfig config p) := by
    rw [replayConfig, if_neg (by omega), restoredConfig, hfactor, Option.getD_some, hpblock, hptopK,
      hpguard, hpweight]
  rw [restoreCandidateEnv, inputDimOf, hflag, Option.map_some, Option.bind_eq_bind,
    Option.bind_some, if_neg (not_or.mpr ⟨not_not.mpr hlength,
      not_not.mpr (d.state_mem log1p hiot)⟩), hblock, hbatch, htopK, hguard, hfactor, hweight]
  simp only [Option.bind_eq_bind, Option.bind_some, hnew,
    restoreCounts_eq hlogs hiot hpblock hpbatch d hunsaturated, hrows, d.state_shares log1p hiot]
  rfl

/-- **Nothing else is restored.** -/
theorem restoreCandidateEnv_some {log1p expm1 : ℚ → ℚ} (hread : config.read params = some p)
    (hiot : p.springIOTMode = 1) (hlayout : OwnLayout p layout) (d : RecordedDecision p)
    {env : ReplayEnv}
    (h : restoreCandidateEnv log1p expm1 config (d.state log1p) p.shardNum layout = some env) :
    config.Replayable ∧ springConfiguredIOTFeatureDim p = 10 := by
  unfold restoreCandidateEnv at h
  obtain ⟨dim, hinput, h⟩ := Option.bind_eq_some_iff.mp h
  obtain ⟨flagDim, hflagDim, rfl⟩ := Option.map_eq_some_iff.mp hinput
  have hempty := addressFlagDim_ne_empty hflagDim
  obtain ⟨hflag, hversion⟩ := addressFlagDim_eq hread hlayout hempty
  obtain rfl := Option.some.inj (hflagDim.symm.trans hflag)
  obtain ⟨hcheck, h⟩ := Option.ite_none_left_eq_some.mp h
  obtain ⟨block, hblock, h⟩ := Option.bind_eq_some_iff.mp h
  obtain ⟨batch, hbatch, h⟩ := Option.bind_eq_some_iff.mp h
  obtain ⟨counts, -, h⟩ := Option.bind_eq_some_iff.mp h
  obtain ⟨topK, htopK, h⟩ := Option.bind_eq_some_iff.mp h
  obtain ⟨guard, hguard, h⟩ := Option.bind_eq_some_iff.mp h
  obtain ⟨factor, hfactor, h⟩ := Option.bind_eq_some_iff.mp h
  obtain ⟨weight, hweight, h⟩ := Option.bind_eq_some_iff.mp h
  obtain ⟨offline, hoffline, -⟩ := Option.bind_eq_some_iff.mp h
  obtain ⟨hsizes, -⟩ := Option.ite_none_left_eq_some.mp hoffline
  have hlength := not_not.mp (not_or.mp hcheck).1
  rw [d.state_length log1p hiot] at hlength
  simp only [hversion, stateDim, if_pos (show 10 > 0 by decide)] at hlength
  constructor
  · exact {
      version := hempty
      block := Option.isSome_iff_exists.mpr ⟨block, hblock⟩
      batch := ⟨batch, hbatch, by omega⟩
      topK := Option.isSome_iff_exists.mpr ⟨topK, htopK⟩
      guard := Option.isSome_iff_exists.mpr ⟨guard, hguard⟩
      factor := Option.isSome_iff_exists.mpr ⟨factor, hfactor⟩
      weight := Option.isSome_iff_exists.mpr ⟨weight, hweight⟩ }
  · split at hlength
    · omega
    · omega

end

end BlockEmulator
