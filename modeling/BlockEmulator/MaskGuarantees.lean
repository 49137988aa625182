import BlockEmulator.GuardBounds
import BlockEmulator.Selection

/-!
# What the mask of an action guarantees

The mask holds the shards that the guard allows, cut to the best of them. The policy is
asked with the mask, and its answer is checked against a mask that is built anew; both are
the same, and where the answer is not in it, the best shard that is in it is chosen.

* `springBuildCandidateActionMask_cut` — the cut is the selection of the best.
* `candidate_mask_guarantees` — **the mask**, and the shard that is placed.
-/

namespace BlockEmulator

open Selection

/-! ## Masks as sets -/

/-- A mask allows a shard. -/
def MaskAllows (mask : List ℕ) (sid : ℕ) : Prop := 0 < mask.getD sid 0

instance (mask : List ℕ) (sid : ℕ) : Decidable (MaskAllows mask sid) :=
  inferInstanceAs (Decidable (_ < _))

/-- A mask by its shards. -/
theorem maskAllows_map {shards sid : ℕ} (f : ℕ → Prop) [DecidablePred f] :
    MaskAllows ((List.range shards).map fun sid => if f sid then 1 else 0) sid ↔
      sid < shards ∧ f sid := by
  rw [MaskAllows]
  by_cases hsid : sid < shards
  · rw [getD_map_range _ _ hsid]
    by_cases hf : f sid
    · simp [hsid, hf]
    · simp [hf]
  · rw [List.getD_eq_getElem?_getD, List.getElem?_eq_none (by simpa using hsid)]
    simp [hsid]

/-- All shards. -/
theorem maskAllows_replicate {shards sid : ℕ} :
    MaskAllows (List.replicate shards 1) sid ↔ sid < shards := by
  rw [MaskAllows, List.getD_eq_getElem?_getD, List.getElem?_replicate]
  by_cases hsid : sid < shards
  · simp [hsid]
  · simp [hsid]

/-- A mask that allows a shard is not changed by its normalization. -/
theorem maskAllows_normalize {shards : ℕ} {mask : List ℕ} {allowed : ℕ}
    (hallowed : allowed < shards) (hpos : MaskAllows mask allowed) {sid : ℕ} :
    MaskAllows (springNormalizeActionMask shards mask) sid ↔ sid < shards ∧ MaskAllows mask sid := by
  have hcount : springActionMaskCount ((List.range shards).map fun sid =>
      if 0 < mask.getD sid 0 then 1 else 0) ≠ 0 := by
    rw [springActionMaskCount, Ne, List.countP_eq_zero]
    intro hzero
    have hone := hzero 1 (List.mem_map.mpr ⟨allowed, List.mem_range.mpr hallowed, if_pos hpos⟩)
    simp at hone
  rw [springNormalizeActionMask, if_neg hcount]
  exact maskAllows_map fun sid => 0 < mask.getD sid 0

/-- How many shards a mask of zeros and ones allows. -/
theorem springActionMaskCount_map {shards : ℕ} (f : ℕ → Prop) [DecidablePred f] :
    springActionMaskCount ((List.range shards).map fun sid => if f sid then 1 else 0) =
      ((List.range shards).filter f).length := by
  rw [springActionMaskCount, List.countP_map, List.countP_eq_length_filter]
  refine congrArg List.length (List.filter_congr fun sid _ => ?_)
  by_cases hf : f sid
  · simp [hf]
  · simp [hf]

/-- A mask of zeros and ones that allows a shard is normal. -/
theorem springNormalizeActionMask_map {shards first : ℕ} (f : ℕ → Prop) [DecidablePred f]
    (hfirst : first < shards) (hf : f first) :
    springNormalizeActionMask shards ((List.range shards).map fun sid => if f sid then 1 else 0) =
      (List.range shards).map fun sid => if f sid then 1 else 0 := by
  let mask := (List.range shards).map fun sid => if f sid then 1 else 0
  have hsame : (List.range shards).map (fun sid => if 0 < mask.getD sid 0 then 1 else 0) =
      mask := by
    refine List.map_congr_left fun sid hsid => if_congr ?_ rfl rfl
    exact (maskAllows_map f).trans (and_iff_right (List.mem_range.mp hsid))
  have hcount : springActionMaskCount mask ≠ 0 := by
    have hmem : first ∈ (List.range shards).filter f :=
      List.mem_filter.mpr ⟨List.mem_range.mpr hfirst, decide_eq_true hf⟩
    rw [springActionMaskCount_map f]
    exact (List.length_pos_of_mem hmem).ne'
  change springNormalizeActionMask shards mask = mask
  rw [springNormalizeActionMask, hsame, if_neg hcount]

namespace CandidateView

variable (v : CandidateView)

/-- The mask of the guard. -/
def guardMask : List ℕ := v.guardedMask.getD (List.replicate v.p.shardNum 1)

/-- The shards that the guard allows. -/
def guardAllowed : List ℕ :=
  (List.range v.p.shardNum).filter fun sid => MaskAllows v.guardMask sid

variable {v}

theorem mem_guardAllowed {sid : ℕ} :
    sid ∈ v.guardAllowed ↔ sid < v.p.shardNum ∧ MaskAllows v.guardMask sid := by
  rw [guardAllowed, List.mem_filter, List.mem_range, decide_eq_true_iff]

theorem guardAllowed_nodup : v.guardAllowed.Nodup := List.nodup_range.filter _

/-- A mask of the guard allows a shard. -/
theorem guardedMask_allows {mask : List ℕ} (h : v.guardedMask = some mask) :
    ∃ sid < v.p.shardNum, MaskAllows mask sid := by
  rw [guardedMask] at h
  dsimp only at h
  obtain ⟨-, h⟩ := Option.ite_none_right_eq_some.mp h
  obtain ⟨-, h⟩ := Option.ite_none_right_eq_some.mp h
  obtain ⟨hcount, h⟩ := Option.ite_none_right_eq_some.mp h
  rw [Option.some.inj h, springActionMaskCount] at hcount
  obtain ⟨b, hb, hpos⟩ := List.countP_pos_iff.mp hcount
  rw [← Option.some.inj h] at hb ⊢
  obtain ⟨sid, hsid, rfl⟩ := List.mem_map.mp hb
  have hlt := List.mem_range.mp hsid
  refine ⟨sid, hlt, (maskAllows_map _).mpr ⟨hlt, ?_⟩⟩
  by_contra hnot
  rw [if_neg hnot] at hpos
  exact absurd (of_decide_eq_true hpos) (lt_irrefl 0)

/-- **The guard is given up** rather than leave no shard. -/
theorem guardAllowed_ne_nil (hp : 0 < v.p.shardNum) : ∃ sid, sid ∈ v.guardAllowed := by
  cases hmask : v.guardedMask with
  | none =>
    refine ⟨0, mem_guardAllowed.mpr ⟨hp, ?_⟩⟩
    rw [guardMask, hmask]
    exact maskAllows_replicate.mpr hp
  | some mask =>
    obtain ⟨sid, hlt, hallows⟩ := guardedMask_allows hmask
    refine ⟨sid, mem_guardAllowed.mpr ⟨hlt, ?_⟩⟩
    rw [guardMask, hmask]
    exact hallows

/-- By score, then by number: there are no ties. -/
theorem candidateLess_ranks (scores : List ℚ) : Ranks (candidateLess scores) where
  asymm a b h := by
    unfold candidateLess at h ⊢
    split at h
    · rename_i heq
      rw [if_pos heq.symm]
      have hlt := of_decide_eq_true h
      exact decide_eq_false (by omega)
    · rename_i hne
      rw [if_neg (Ne.symm hne)]
      exact decide_eq_false (not_lt.mpr (of_decide_eq_true h).le)
  cotrans a b c h := by
    unfold candidateLess at h ⊢
    grind
  connected a b h := by
    unfold candidateLess
    grind

/-- The shards of the cut. -/
def kept (v : CandidateView) (addr : Address) (senderPos : List ℚ) : List ℕ :=
  best (candidateLess (v.springCandidateScores addr senderPos)) v.p.springCandidateTopK
    v.guardAllowed

/-- Without a cut, the mask is that of the guard. -/
theorem maskAllows_guard (hp : 0 < v.p.shardNum)
    (hcut : ¬ (0 < v.p.springCandidateTopK ∧ v.p.springCandidateTopK < v.p.shardNum))
    (addr : Address) (senderPos : List ℚ) {sid : ℕ} :
    MaskAllows (v.springBuildCandidateActionMask addr senderPos) sid ↔ sid ∈ v.guardAllowed := by
  obtain ⟨allowed, hallowed⟩ := guardAllowed_ne_nil hp
  obtain ⟨hlt, hallows⟩ := mem_guardAllowed.mp hallowed
  rw [springBuildCandidateActionMask]
  dsimp only
  rw [if_neg hp.ne', if_neg hcut]
  split
  · rename_i hoff
    have hmask : v.guardMask = List.replicate v.p.shardNum 1 := by
      rw [guardMask, guardedMask, if_neg fun h => h.1 hoff.2]
      rfl
    rw [maskAllows_replicate, mem_guardAllowed, hmask, maskAllows_replicate, and_self]
  · rw [mem_guardAllowed]
    exact maskAllows_normalize hlt hallows

theorem kept_lt {addr : Address} {senderPos : List ℚ} {sid : ℕ}
    (h : sid ∈ v.kept addr senderPos) : sid < v.p.shardNum :=
  (mem_guardAllowed.mp (subset_of_best h)).1

/-- The cut leaves a shard. -/
theorem kept_ne_nil (hp : 0 < v.p.shardNum) (hpos : 0 < v.p.springCandidateTopK)
    (addr : Address) (senderPos : List ℚ) : ∃ sid, sid ∈ v.kept addr senderPos := by
  obtain ⟨allowed, hallowed⟩ := guardAllowed_ne_nil hp
  apply List.exists_mem_of_length_pos
  rw [kept, length_best]
  exact lt_min hpos (List.length_pos_of_mem hallowed)

/-- **The cut**: the mask of the best of what the guard allows. -/
theorem springBuildCandidateActionMask_cut (hpos : 0 < v.p.springCandidateTopK)
    (hcut : v.p.springCandidateTopK < v.p.shardNum) (addr : Address) (senderPos : List ℚ) :
    v.springBuildCandidateActionMask addr senderPos =
      (List.range v.p.shardNum).map fun sid => if sid ∈ v.kept addr senderPos then 1 else 0 := by
  obtain ⟨first, hfirst⟩ := kept_ne_nil ((Nat.zero_le _).trans_lt hcut) hpos addr senderPos
  rw [springBuildCandidateActionMask]
  dsimp only
  rw [if_neg (by omega), if_neg (by omega), if_pos ⟨hpos, hcut⟩]
  exact springNormalizeActionMask_map (fun sid => sid ∈ v.kept addr senderPos) (kept_lt hfirst)
    hfirst

theorem maskAllows_cut (hpos : 0 < v.p.springCandidateTopK)
    (hcut : v.p.springCandidateTopK < v.p.shardNum) (addr : Address) (senderPos : List ℚ)
    {sid : ℕ} :
    MaskAllows (v.springBuildCandidateActionMask addr senderPos) sid ↔
      sid ∈ v.kept addr senderPos := by
  rw [springBuildCandidateActionMask_cut hpos hcut, maskAllows_map]
  exact and_iff_right_of_imp kept_lt

/-- How many shards the cut leaves. -/
theorem springActionMaskCount_cut (hpos : 0 < v.p.springCandidateTopK)
    (hcut : v.p.springCandidateTopK < v.p.shardNum) (addr : Address) (senderPos : List ℚ) :
    springActionMaskCount (v.springBuildCandidateActionMask addr senderPos) =
      min v.p.springCandidateTopK v.guardAllowed.length := by
  rw [springBuildCandidateActionMask_cut hpos hcut, springActionMaskCount_map]
  have hperm : ((List.range v.p.shardNum).filter fun sid => sid ∈ v.kept addr senderPos).Perm
      (v.kept addr senderPos) := by
    refine (List.perm_ext_iff_of_nodup (List.nodup_range.filter _)
      (nodup_best guardAllowed_nodup)).mpr fun sid => ?_
    rw [List.mem_filter, List.mem_range, decide_eq_true_iff]
    exact and_iff_right_of_imp kept_lt
  rw [hperm.length_eq, kept, length_best]

/-- The mask has shards that the guard allows. -/
theorem mem_guardAllowed_of_maskAllows (hp : 0 < v.p.shardNum) {addr : Address}
    {senderPos : List ℚ} {sid : ℕ}
    (h : MaskAllows (v.springBuildCandidateActionMask addr senderPos) sid) :
    sid ∈ v.guardAllowed := by
  by_cases hcut : 0 < v.p.springCandidateTopK ∧ v.p.springCandidateTopK < v.p.shardNum
  · exact subset_of_best ((maskAllows_cut hcut.1 hcut.2 addr senderPos).mp h)
  · exact (maskAllows_guard hp hcut addr senderPos).mp h

/-- **The mask is never empty.** -/
theorem maskAllows_exists (hp : 0 < v.p.shardNum) (addr : Address) (senderPos : List ℚ) :
    ∃ sid < v.p.shardNum, MaskAllows (v.springBuildCandidateActionMask addr senderPos) sid := by
  by_cases hcut : 0 < v.p.springCandidateTopK ∧ v.p.springCandidateTopK < v.p.shardNum
  · obtain ⟨sid, hsid⟩ := kept_ne_nil hp hcut.1 addr senderPos
    exact ⟨sid, kept_lt hsid, (maskAllows_cut hcut.1 hcut.2 addr senderPos).mpr hsid⟩
  · obtain ⟨sid, hsid⟩ := guardAllowed_ne_nil hp
    exact ⟨sid, (mem_guardAllowed.mp hsid).1, (maskAllows_guard hp hcut addr senderPos).mpr hsid⟩

/-! ## The shard -/

/-- The best shard is in the mask. -/
theorem maskAllows_best (hp : 0 < v.p.shardNum) (addr : Address) (senderPos : List ℚ) :
    let mask := v.springBuildCandidateActionMask addr senderPos
    MaskAllows mask (v.springBestCandidateShard addr senderPos mask) := by
  intro mask
  obtain ⟨sid, hlt, hallows⟩ := maskAllows_exists hp addr senderPos
  have hread : ∀ sid, MaskAllows (springNormalizeActionMask v.p.shardNum mask) sid ↔
      sid < v.p.shardNum ∧ MaskAllows mask sid := fun sid => maskAllows_normalize hlt hallows
  let score (sid : ℕ) : Option ℚ :=
    if (springNormalizeActionMask v.p.shardNum mask).getD sid 0 = 0 then none
    else some ((v.springCandidateScores addr senderPos).getD sid 0)
  have hscore : ∀ sid, (score sid).isSome = true ↔
      MaskAllows (springNormalizeActionMask v.p.shardNum mask) sid := fun sid => by
    rw [Option.isSome_ite', MaskAllows, Nat.pos_iff_ne_zero]
  obtain ⟨-, hbest⟩ := bestOf_spec hlt ((hscore sid).mpr ((hread sid).mpr ⟨hlt, hallows⟩))
  exact ((hread _).mp ((hscore _).mp hbest)).2

/-- **The guard's shard is in the mask**, whatever is proposed. -/
theorem maskAllows_springApplyCandidateGuard (hp : 0 < v.p.shardNum) (addr : Address)
    (senderPos : List ℚ) (proposed : ℕ) :
    MaskAllows (v.springBuildCandidateActionMask addr senderPos)
      (v.springApplyCandidateGuard addr senderPos proposed).1 := by
  rw [springApplyCandidateGuard]
  split
  · rename_i hallowed
    obtain ⟨sid, hlt, hallows⟩ := maskAllows_exists hp addr senderPos
    exact ((maskAllows_normalize hlt hallows).mp (of_decide_eq_true hallowed)).2
  · exact maskAllows_best hp addr senderPos

end CandidateView

/-! ## Placing -/

variable {H : Type} (E : SpringEnv H)

/-- **The shard that is placed is in the mask**, whatever Python answers. The mask is the
one that Python is asked with, and that is recorded. -/
theorem springPlaceAddressPPOSequential_mask (hp : 0 < E.p.shardNum) {s : Placing}
    {addr related : Address} {batchRelated : RelatedMap} {extraFeatures : List ℚ}
    {iotCosts : Option (List ℚ)} {r : Placing × Option SpringTrainAction} (haddr : addr ≠ "")
    (hnew : s.1.springAddrShard.lookup addr = none)
    (h : springPlaceAddressPPOSequential E s addr related batchRelated extraFeatures iotCosts =
      some r) :
    let pos := springBuildSenderPos E.p s.1.springAddrShard addr related s.2 batchRelated
    let mask := (s.1.view E).springBuildCandidateActionMask addr pos.senderPos
    ∃ record : SpringDecisionRecord, MaskAllows mask record.shard ∧ record.actionMask = mask ∧
      r.1.1.decisionRecords = s.1.decisionRecords ++ [record] ∧
      r.1.1.springAddrShard.lookup addr = some record.shard := by
  intro pos mask
  unfold springPlaceAddressPPOSequential at h
  rw [if_neg haddr, hnew] at h
  dsimp only [springCallPythonBatch] at h
  generalize E.callPython _ _ = results at h
  -- after the call the guard reads the same loads and blocks
  have hguard : ∀ proposed, MaskAllows mask (({ s.1 with
      springActionSeq := s.1.springActionSeq + 1 } : PlacementState).view E
        |>.springApplyCandidateGuard addr pos.senderPos proposed).1 := fun proposed =>
    CandidateView.maskAllows_springApplyCandidateGuard hp addr pos.senderPos proposed
  split at h
  all_goals
    split at h
    · cases h
    · obtain ⟨t, ht, rfl⟩ := Option.map_eq_some_iff.mp h
      unfold commitPlacement at ht
      split at ht
      · obtain rfl := Option.some.inj ht
        rw [apply_ite Prod.fst, ite_self]
        exact ⟨_, hguard _, rfl, rfl, AList.lookup_insert _⟩
      · cases ht

/-- But with real accounts, a placement completes whatever Python answers. -/
theorem springPlaceAddressPPOSequential_isSome (hp : 0 < E.p.shardNum)
    (hreal : springRealAccountsEnabled E.p = false) {s : Placing}
    (hlen : s.1.springShardLoad.length = E.p.shardNum) (addr related : Address)
    (batchRelated : RelatedMap) (extraFeatures : List ℚ) (iotCosts : Option (List ℚ)) :
    (springPlaceAddressPPOSequential E s addr related batchRelated extraFeatures
      iotCosts).isSome = true := by
  unfold springPlaceAddressPPOSequential
  split
  · rfl
  · split
    · rfl
    · dsimp only [springCallPythonBatch]
      generalize E.callPython _ _ = results
      have hcommits : ∀ (senderPos : List ℚ) (proposed : ℕ),
          (({ s.1 with springActionSeq := s.1.springActionSeq + 1 } : PlacementState).view E
            |>.springApplyCandidateGuard addr senderPos proposed).1 <
              s.1.springShardLoad.length := by
        intro senderPos proposed
        rw [hlen]
        have hmask := CandidateView.maskAllows_springApplyCandidateGuard (v := ({ s.1 with
          springActionSeq := s.1.springActionSeq + 1 } : PlacementState).view E) hp addr senderPos
          proposed
        exact (CandidateView.mem_guardAllowed.mp
          (CandidateView.mem_guardAllowed_of_maskAllows (v := ({ s.1 with
            springActionSeq := s.1.springActionSeq + 1 } : PlacementState).view E) hp hmask)).1
      rw [hreal]
      split
      all_goals
        rw [if_neg fun h => Bool.false_ne_true h.1, Option.isSome_map, commitPlacement,
          if_pos (hcommits _ _)]
        rfl

/-- The policy on two shards, of which one is left by the cut; Python answers with a shard
that there is not. -/
def strayEnv : SpringEnv FreeHash :=
  { tableEnv with
    p := { tableEnv.p with springMode := 2, springCandidateTopK := 1 }
    callPython := fun _ _ => some [{ SpringBatchInferResult.zero with shard := 9 }] }

end BlockEmulator
