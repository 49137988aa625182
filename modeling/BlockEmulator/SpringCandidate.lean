import BlockEmulator.SpringRelations

/-!
# Candidate shards (`spring_candidate.go`)

Which shards a placement may choose from, and which of them scores best: the load
pressures, the scores, the mask of the capacity guard and of the top-k cut, and the best
allowed shard. The state is read, never written.

* `springBestCandidateShard_lt` — the best candidate is a shard.
-/

namespace BlockEmulator

/-! ## Masks -/

/-- `springActionMaskCount`. -/
def springActionMaskCount (mask : List ℕ) : ℕ := mask.countP (0 < ·)

/-- `springNormalizeActionMask`. -/
def springNormalizeActionMask (shards : ℕ) (mask : List ℕ) : List ℕ :=
  let normalized := (List.range shards).map fun sid => if 0 < mask.getD sid 0 then 1 else 0
  if springActionMaskCount normalized = 0 then List.replicate shards 1 else normalized

/-- `springActionAllowed`. -/
def springActionAllowed (shards : ℕ) (mask : List ℕ) (sid : ℕ) : Bool :=
  0 < (springNormalizeActionMask shards mask).getD sid 0

/-- What is listed shard by shard, read at a shard. -/
theorem getD_map_range {α : Type*} {shards sid : ℕ} (f : ℕ → α) (d : α) (h : sid < shards) :
    ((List.range shards).map f).getD sid d = f sid := by
  rw [List.getD_eq_getElem?_getD, List.getElem?_map, List.getElem?_range h]
  rfl

/-! ## Pressures and scores -/

/-- What the candidate functions read: the parameters, the hash placement, the counters
of the placements and the recent blocks. -/
structure CandidateView where
  /-- the parameters -/
  p : SpringConfig
  /-- `utils.Addr2Shard` -/
  addr2Shard : Address → ℕ
  /-- `springShardLoad` -/
  springShardLoad : List ℕ
  /-- `springStats` -/
  springStats : ℕ → List SpringBlockStat

namespace CandidateView

variable (v : CandidateView)

/-- `springCandidateLoadPressures`. -/
def springCandidateLoadPressures : List ℚ :=
  let shards := v.p.shardNum
  let totalPlacement := (v.springShardLoad.take shards).sum
  let placementScale : ℚ := if v.p.maxBlockSizeGlobal = 0 then 1 else v.p.maxBlockSizeGlobal
  (List.range shards).map fun sid =>
    let placementPressure : ℚ :=
      if totalPlacement > 0 ∧ sid < v.springShardLoad.length then
        (v.springShardLoad.getD sid 0 : ℚ) / totalPlacement * placementScale
      else 0
    let recentPressure : ℚ :=
      ((List.range 5).map fun back => ((springGetStat v.springStats sid back).numTx : ℚ)).sum
    placementPressure + recentPressure / 5

/-- `springCandidateScores`. -/
def springCandidateScores (addr : Address) (senderPos : List ℚ) : List ℚ :=
  let hashSid := v.addr2Shard addr
  let loadWeight := if v.p.springCandidateLoadWeight < 0 then 0 else v.p.springCandidateLoadWeight
  let pressures := v.springCandidateLoadPressures
  (List.range v.p.shardNum).map fun sid =>
    let score := senderPos.getD sid 0 * 1000 - loadWeight * pressures.getD sid 0
    if sid = hashSid then score + 1 / 1000 else score

/-- The capacity guard of `springBuildCandidateActionMask`: `none` where it does not
apply, or would leave no shard. -/
def guardedMask : Option (List ℕ) :=
  if v.p.springCapacityGuard ≠ 0 ∧ v.springShardLoad.length > 0 then
    let pressures := v.springCandidateLoadPressures
    let meanLoad := (pressures.take v.p.shardNum).sum / v.p.shardNum
    if meanLoad > 1 / 1000000000 then
      let factor := if v.p.springCapacityGuardFactor < 1 then 1 else v.p.springCapacityGuardFactor
      let threshold := meanLoad * factor
      let guarded := (List.range v.p.shardNum).map fun sid =>
        if pressures.getD sid 0 ≤ threshold then 1 else 0
      -- a guard that forbids every shard is none
      if springActionMaskCount guarded > 0 then some guarded else none
    else none
  else none

/-- `less` of the sort over candidates: by score, from the highest, then by number. -/
def candidateLess (scores : List ℚ) (left right : ℕ) : Bool :=
  if scores.getD left 0 = scores.getD right 0 then left < right
  else scores.getD left 0 > scores.getD right 0

/-- `springBuildCandidateActionMask`. -/
def springBuildCandidateActionMask (addr : Address) (senderPos : List ℚ) : List ℕ :=
  let shards := v.p.shardNum
  if shards = 0 then []
  else if v.p.springCandidateTopK = 0 ∧ v.p.springCapacityGuard = 0 then List.replicate shards 1
  else
    let mask := v.guardedMask.getD (List.replicate shards 1)
    let topK := v.p.springCandidateTopK
    if topK > 0 ∧ topK < shards then
      let scores := v.springCandidateScores addr senderPos
      let allowed := (List.range shards).filter fun sid => 0 < mask.getD sid 0
      -- a stable sort keeps `i` before `j` unless `j` is less
      let sorted := allowed.mergeSort fun i j => !candidateLess scores j i
      let keep := sorted.take topK
      springNormalizeActionMask shards
        ((List.range shards).map fun sid => if sid ∈ keep then 1 else 0)
    else springNormalizeActionMask shards mask

end CandidateView

/-! ## The best shard -/

/-- The loop over the shards that keeps the first best score: `bestSid` and `bestScore`,
which starts at minus infinity, `none`. A score of `none` is skipped. -/
def bestOf {α : Type} [LT α] [DecidableLT α] (score : ℕ → Option α) (n : ℕ) : ℕ × Option α :=
  (List.range n).foldl (fun best sid =>
    match score sid with
    | none => best
    | some s =>
      match best.2 with
      | none => (sid, some s)
      | some b => if s > b then (sid, some s) else best) (0, none)

theorem bestOf_succ {α : Type} [LT α] [DecidableLT α] (score : ℕ → Option α) (n : ℕ) :
    bestOf score (n + 1) =
      match score n with
      | none => bestOf score n
      | some s =>
        match (bestOf score n).2 with
        | none => (n, some s)
        | some b => if s > b then (n, some s) else bestOf score n := by
  rw [bestOf, List.range_succ, List.foldl_append]
  rfl

theorem bestOf_lt {α : Type} [LT α] [DecidableLT α] (score : ℕ → Option α) {n : ℕ} (h : 0 < n) :
    (bestOf score n).1 < n := by
  have hle : ∀ k, (bestOf score k).1 < max 1 k := by
    intro k
    induction k with
    | zero => simp [bestOf]
    | succ k ih =>
      rw [bestOf_succ]
      split
      · omega
      · split
        · simp
        · split
          · simp
          · omega
  have := hle n
  omega

theorem bestOf_eq_some {α : Type} [LT α] [DecidableLT α] (score : ℕ → Option α) (n : ℕ) {b : α}
    (h : (bestOf score n).2 = some b) : (bestOf score n).1 < n ∧ score (bestOf score n).1 = some b := by
  induction n generalizing b with
  | zero => simp [bestOf] at h
  | succ n ih =>
    rw [bestOf_succ] at h ⊢
    rcases hn : score n with _ | s
    · simp only [hn] at h ⊢
      exact ⟨Nat.lt_succ_of_lt (ih h).1, (ih h).2⟩
    · rcases hb : (bestOf score n).2 with _ | b'
      · simp only [hn, hb] at h ⊢
        exact ⟨Nat.lt_succ_self n, h⟩
      · simp only [hn, hb] at h ⊢
        split at h
        · rename_i hgt
          rw [if_pos hgt]
          exact ⟨Nat.lt_succ_self n, hn.trans h⟩
        · rename_i hle
          rw [if_neg hle]
          exact ⟨Nat.lt_succ_of_lt (ih h).1, (ih h).2⟩

theorem bestOf_isSome {α : Type} [LT α] [DecidableLT α] {score : ℕ → Option α} {n sid : ℕ}
    (hsid : sid < n) (h : (score sid).isSome) : (bestOf score n).2.isSome := by
  induction n with
  | zero => omega
  | succ n ih =>
    rw [bestOf_succ]
    rcases hn : score n with _ | s
    · have hne : sid ≠ n := by
        rintro rfl
        simp [hn] at h
      exact ih (by omega)
    · rcases hb : (bestOf score n).2 with _ | b
      · rfl
      · dsimp only
        split
        · rfl
        · rw [hb]
          rfl

/-- Where a score is not skipped, the best is one that is not. -/
theorem bestOf_spec {α : Type} [LT α] [DecidableLT α] {score : ℕ → Option α} {n sid : ℕ}
    (hsid : sid < n) (h : (score sid).isSome) :
    (bestOf score n).1 < n ∧ (score (bestOf score n).1).isSome := by
  obtain ⟨b, hb⟩ := Option.isSome_iff_exists.mp (bestOf_isSome hsid h)
  obtain ⟨hlt, hscore⟩ := bestOf_eq_some score n hb
  exact ⟨hlt, by rw [hscore]; rfl⟩

namespace CandidateView

variable (v : CandidateView)

/-- `springBestCandidateShard`. -/
def springBestCandidateShard (addr : Address) (senderPos : List ℚ) (mask : List ℕ) : ℕ :=
  let normalized := springNormalizeActionMask v.p.shardNum mask
  let scores := v.springCandidateScores addr senderPos
  (bestOf (fun sid =>
    if normalized.getD sid 0 = 0 then none else some (scores.getD sid 0)) v.p.shardNum).1

/-- `springChooseCandidateOnlyShard`. -/
def springChooseCandidateOnlyShard (addr : Address) (senderPos : List ℚ) : ℕ × List ℕ :=
  let mask := v.springBuildCandidateActionMask addr senderPos
  (v.springBestCandidateShard addr senderPos mask, mask)

/-- `springApplyCandidateGuard`. -/
def springApplyCandidateGuard (addr : Address) (senderPos : List ℚ) (proposed : ℕ) : ℕ × Bool :=
  let mask := v.springBuildCandidateActionMask addr senderPos
  if springActionAllowed v.p.shardNum mask proposed then (proposed, false)
  else (v.springBestCandidateShard addr senderPos mask, true)

theorem springBestCandidateShard_lt (addr : Address) (senderPos : List ℚ) (mask : List ℕ)
    (h : 0 < v.p.shardNum) : v.springBestCandidateShard addr senderPos mask < v.p.shardNum :=
  bestOf_lt _ h

end CandidateView

end BlockEmulator
