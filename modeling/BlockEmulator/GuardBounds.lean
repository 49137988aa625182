import BlockEmulator.PlacementParity

/-!
# Where the guards differ

A mean load that Go takes for a load and Python for none needs twenty million shards: then
one transaction in the last block closes its shard to Go, and does not to Python.

* `FarView.go_mask`, `FarView.offline_mask` — the masks of the first decision.
* `masks_differ` — the run.
-/

namespace BlockEmulator

open SpringOfflineEnv

variable {H : Type} {E : SpringEnv H}

/-! ## The masks -/

theorem springNormalizeActionMask_getD {shards : ℕ} {mask : List ℕ} (allowed : ℕ)
    (hallowed : allowed < shards) (hpos : 0 < mask.getD allowed 0) {sid : ℕ} (hsid : sid < shards) :
    (springNormalizeActionMask shards mask).getD sid 0 = if 0 < mask.getD sid 0 then 1 else 0 := by
  have hcount : springActionMaskCount ((List.range shards).map fun sid =>
      if 0 < mask.getD sid 0 then 1 else 0) ≠ 0 := by
    rw [springActionMaskCount, Ne, List.countP_eq_zero]
    intro hzero
    have := hzero 1 (List.mem_map.mpr ⟨allowed, List.mem_range.mpr hallowed, if_pos hpos⟩)
    simp at this
  rw [springNormalizeActionMask, if_neg hcount, List.getD_eq_getElem?_getD]
  simp [hsid]

/-- One transaction in the last block of shard 0, and nothing placed so far. -/
structure FarView (v : CandidateView) : Prop where
  /-- no placements -/
  fresh : v.springShardLoad = List.replicate v.p.shardNum 0
  /-- one transaction -/
  recent : ∀ sid, ((List.range 5).map fun back =>
    ((springGetStat v.springStats sid back).numTx : ℚ)).sum = if sid = 0 then 1 else 0
  /-- the guard is on -/
  guard : v.p.springCapacityGuard ≠ 0
  /-- there is no cut -/
  topK : v.p.springCandidateTopK = 0

theorem FarView.pressures {v : CandidateView} (h : FarView v) :
    v.springCandidateLoadPressures =
      (List.range v.p.shardNum).map fun sid => if sid = 0 then (1 : ℚ) / 5 else 0 := by
  rw [springCandidateLoadPressures_eq (by rw [h.fresh, List.length_replicate])]
  apply List.map_congr_left
  intro sid _
  rw [pressureOf, h.recent, h.fresh]
  by_cases hsid : sid = 0
  · simp [hsid]
  · simp [hsid]

theorem FarView.mean {v : CandidateView} (h : FarView v) {m : ℕ} (hn : v.p.shardNum = m + 2) :
    v.springCandidateLoadPressures.sum / v.p.shardNum = 1 / 5 / (v.p.shardNum : ℚ) := by
  rw [h.pressures, hn, List.range_succ_eq_map, List.map_cons, List.map_map]
  simp [Function.comp_def]

/-- Go closes shard 0. -/
theorem FarView.go_mask {v : CandidateView} (h : FarView v) {m : ℕ} (hn : v.p.shardNum = m + 2)
    (hmean : 1 / 1000000000 < 1 / 5 / (v.p.shardNum : ℚ))
    (hfactor : v.p.springCapacityGuardFactor = 3 / 2) (addr : Address) (senderPos : List ℚ) :
    (v.springBuildCandidateActionMask addr senderPos).getD 0 0 = 0 := by
  let threshold : ℚ := 1 / 5 / (v.p.shardNum : ℚ) * (3 / 2)
  have hthreshold : 0 ≤ threshold ∧ threshold < 1 / 5 := by
    have hge : (2 : ℚ) ≤ v.p.shardNum := by
      rw [hn]
      push_cast
      linarith [Nat.cast_nonneg (α := ℚ) m]
    have hle : 1 / 5 / (v.p.shardNum : ℚ) ≤ 1 / 5 / 2 := by gcongr
    exact ⟨by positivity, by dsimp only [threshold]; linarith⟩
  let guarded := (List.range v.p.shardNum).map fun sid =>
    if v.springCandidateLoadPressures.getD sid 0 ≤ threshold then 1 else 0
  have hread : ∀ sid < v.p.shardNum, guarded.getD sid 0 = if sid = 0 then 0 else 1 := by
    intro sid hsid
    rw [getD_map_range _ _ hsid, h.pressures, getD_map_range _ _ hsid]
    by_cases hzero : sid = 0
    · rw [if_pos hzero, if_pos hzero, if_neg (not_le.mpr hthreshold.2)]
    · rw [if_neg hzero, if_neg hzero, if_pos hthreshold.1]
  have hone : 0 < guarded.getD 1 0 := by
    rw [hread 1 (by omega)]
    decide
  have hcount : springActionMaskCount guarded > 0 := by
    have hlt : 1 < guarded.length := by
      simp only [guarded, List.length_map, List.length_range]
      omega
    rw [List.getD_eq_getElem?_getD, List.getElem?_eq_getElem hlt] at hone
    exact List.countP_pos_iff.mpr ⟨_, List.getElem_mem hlt, decide_eq_true hone⟩
  have hlen : v.springCandidateLoadPressures.length = v.p.shardNum := by
    rw [h.pressures, List.length_map, List.length_range]
  have hguarded : v.guardedMask = some guarded := by
    have hon : v.p.springCapacityGuard ≠ 0 ∧ v.springShardLoad.length > 0 := by
      refine ⟨h.guard, ?_⟩
      rw [h.fresh, List.length_replicate]
      omega
    rw [CandidateView.guardedMask, if_pos hon]
    dsimp only
    rw [← hlen, List.take_length, hlen, h.mean hn, if_pos hmean, hfactor,
      if_neg (show ¬(3 / 2 : ℚ) < 1 by norm_num)]
    exact if_pos hcount
  rw [CandidateView.springBuildCandidateActionMask]
  dsimp only
  rw [if_neg (by omega), if_neg (fun hoff => h.guard hoff.2), hguarded, Option.getD_some,
    if_neg (fun hcut => absurd h.topK (by omega)),
    springNormalizeActionMask_getD 1 (by omega) hone (by omega), hread 0 (by omega)]
  rfl

/-- Python does not. -/
theorem FarView.offline_mask {v : CandidateView} (h : FarView v) {m : ℕ}
    (hn : v.p.shardNum = m + 2) {mode : ℕ} {env : SpringOfflineEnv} (hview : SameView mode v env)
    (hmean : 1 / 5 / (v.p.shardNum : ℚ) ≤ 1 / 100000000) (hash : Address → ℕ) (addr : Address)
    (senderPos : List ℚ) :
    (env.buildCandidateActionMask hash addr senderPos).getD 0 0 = 1 := by
  have hshards : env.config.shards = v.p.shardNum := by rw [hview.config]; rfl
  have htopK : env.config.candidateTopK = 0 := by rw [hview.config]; exact h.topK
  have hcapacity : env.config.capacityGuard ≠ 0 := by rw [hview.config]; exact h.guard
  have hguarded : env.guarded = none := by
    have hone : max 1 v.p.shardNum = v.p.shardNum := max_eq_right (by omega)
    rw [SpringOfflineEnv.guarded, candidateLoadPressures_eq hview, hshards, hone]
    dsimp only
    rw [h.mean hn, if_neg (c := _ > offlineEps) (not_lt.mpr hmean), ite_self]
  have hone : (List.replicate v.p.shardNum 1).getD 0 0 = 1 := by
    rw [hn]
    rfl
  rw [SpringOfflineEnv.buildCandidateActionMask]
  dsimp only
  rw [hshards, if_neg (by omega), if_neg (fun hoff => hcapacity hoff.2), hguarded,
    Option.getD_none, if_neg (fun hcut => absurd htopK (by omega)),
    normalizeActionMask_eq (by simp),
    springNormalizeActionMask_getD 0 (by omega) (by rw [hone]; decide) (by omega), hone]
  rfl

/-- The supervisor places a new address. -/
theorem go_new (hp : 0 < E.p.shardNum) (hmode : E.p.springMode = 7) {B : RealBatch}
    {addr : Address} (peer : Address) (hplain : addr.IsPlain)
    (hscene : (B.scenes addr).isSome = true) {s : Placing} (hok : PlacingOk E s)
    (hnew : addr ∉ s.1.springAddrShard) (actions : List SpringTrainAction) :
    ∃ s' record senderPos sid, placeReal E B (s, actions) (addr, peer) = some (s', actions) ∧
      PlacingOk E s' ∧ s'.1.springAddrShard = s.1.springAddrShard.insert addr sid ∧
      s'.1.decisionRecords = s.1.decisionRecords ++ [record] ∧
      SpringDecisionRecord.actionMask record =
        (s.1.view E).springBuildCandidateActionMask addr senderPos := by
  obtain ⟨features, hgo⟩ := placeReal_eq hmode peer hscene hok.table.range actions
  let pos := springBuildSenderPos E.p s.1.springAddrShard addr peer s.2 B.related
  let mask := (s.1.view E).springBuildCandidateActionMask addr pos.senderPos
  let sid := (s.1.view E).springBestCandidateShard addr pos.senderPos mask
  have hsid : sid < s.1.springShardLoad.length := by
    rw [hok.table.length]
    exact (s.1.view E).springBestCandidateShard_lt addr _ mask hp
  obtain ⟨record, hrecord, hkey⟩ := candidate_new hplain.ne_empty (AList.lookup_eq_none.mpr hnew)
    peer B.related features B.batchID (rfl : _ = (sid, mask)) hsid
  obtain ⟨hgrows, -⟩ := (springPlaceAddressCandidateOnlySequential_places hrecord).grows (E := E)
  refine ⟨_, record, pos.senderPos, sid, by rw [hgo, hrecord]; rfl, hgrows.ok hok, rfl, rfl, ?_⟩
  exact congrArg (fun k : PlacementKey => k.2.2.2) hkey

/-- The supervisor places both ends of one transaction. -/
theorem go_single (hp : 0 < E.p.shardNum) (hmode : E.p.springMode = 7)
    (hreal : springRealAccountsEnabled E.p = true) (hposMode : E.p.springSenderPosMode = 1)
    {st : PlacementState} (hok : TableOk E st) {tx : Transaction}
    (hbatch : RealBatchTxs E.rows [tx]) (hsender : tx.sender ∉ st.springAddrShard)
    (hrecipient : tx.recipient ∉ st.springAddrShard) :
    ∃ st' placement r₁ r₂ senderPos, springPreparePlacement E st [tx] = some (st', placement) ∧
      st'.decisionRecords = st.decisionRecords ++ [r₁, r₂] ∧
      SpringDecisionRecord.actionMask r₁ =
        (st.view E).springBuildCandidateActionMask tx.sender senderPos := by
  obtain ⟨scenes, hscenes, hends⟩ := springRealAccountScenes_spec hbatch
  obtain ⟨hscene, hscene'⟩ := hends tx List.mem_cons_self
  obtain ⟨hplain, hplain', hne, -⟩ := hbatch tx List.mem_cons_self
  let B : RealBatch :=
    { batchID := st.springTxBatchSeq + 1
      related := springBuildBatchRelatedMap E.p [tx]
      scenes := scenes
      costRelations := realCostRelations E.p E.rows [tx]
      weights := realWeights E.p [tx] }
  have hok₀ : PlacingOk E ({ st with springTxBatchSeq := st.springTxBatchSeq + 1 }, ∅) :=
    ⟨(springTxBatchSeq_same st _).tableOk hok, fun a n ha => by cases ha⟩
  obtain ⟨s₁, r₁, senderPos, sid, h₁, hok₁, htable₁, hrec₁, hmask⟩ :=
    go_new (B := B) hp hmode "" hplain hscene hok₀ hsender []
  have hrecipient₁ : tx.recipient ∉ s₁.1.springAddrShard := by
    rw [htable₁, AList.mem_insert]
    rintro (heq | hmem)
    · exact hne heq.symm
    · exact hrecipient hmem
  obtain ⟨s₂, r₂, -, -, h₂, -, -, hrec₂, -⟩ :=
    go_new (B := B) hp hmode tx.sender hplain' hscene' hok₁ hrecipient₁ []
  have horder : placeOrder E.p [tx] = [(tx.sender, ""), (tx.recipient, tx.sender)] := by
    rw [placeOrder, if_pos hposMode]
    rfl
  have hfold : (placeOrder E.p [tx]).foldlM (placeReal E B)
      (({ st with springTxBatchSeq := st.springTxBatchSeq + 1 }, ∅), []) = some (s₂, []) := by
    rw [horder]
    simp only [List.foldlM_cons, List.foldlM_nil, h₁, h₂, Option.bind_eq_bind, Option.bind_some]
    rfl
  refine ⟨s₂.1, _, r₁, r₂, senderPos, springPreparePlacement_of_placements hmode hreal
    (.inr hposMode) hscenes hfold, ?_, hmask⟩
  rw [hrec₂, hrec₁, List.append_assoc]
  rfl

/-- The environment places a new address. -/
theorem offline_place (hash : Address → ℕ) {o : OfflinePlacing} {addr : Address}
    (hplain : addr.IsPlain) (hshards : 0 < o.1.config.shards)
    (hlen : o.1.shardLoad.length = o.1.config.shards) (fallback : Option Address)
    (related : RelatedMap) (hnew : addr ∉ o.1.addrShard) :
    ∃ o' action senderPos sid,
      placeAddress hash (bestCandidatePolicy hash) related o (addr, fallback) = some o' ∧
      o'.1.config = o.1.config ∧ o'.1.shardLoad.length = o.1.shardLoad.length ∧
      sid < o.1.config.shards ∧ o'.1.addrShard = o.1.addrShard.insert addr sid ∧
      o'.2.2 = o.2.2 ++ [action] ∧
      PlacementAction.actionMask action = o.1.buildCandidateActionMask hash addr senderPos := by
  let senderPos := (o.1.buildSenderPos addr fallback o.2.1 related).senderPos
  let mask := o.1.buildCandidateActionMask hash addr senderPos
  let sid := o.1.bestCandidateAction hash addr senderPos mask
  have hsid : sid < o.1.config.shards := bestOf_lt _ hshards
  obtain ⟨action, haction, hkey⟩ := offline_new hplain.ne_empty hnew fallback related
    (rfl : _ = mask) (rfl : _ = sid) (hlen ▸ hsid)
  refine ⟨_, action, senderPos, sid, haction, rfl, by simp, hsid, rfl, rfl, ?_⟩
  exact congrArg (fun k : PlacementKey => k.2.2.2) hkey

/-- The environment places both ends of one transaction. -/
theorem offline_single (hash : Address → ℕ) (env : SpringOfflineEnv) {rows : SceneRows}
    {tx : Transaction} (hbatch : RealBatchTxs rows [tx]) (hposMode : env.config.senderPosMode = 1)
    (hshards : 0 < env.config.shards) (hlen : env.shardLoad.length = env.config.shards)
    (hhash : ∀ a, hash a < env.config.shards)
    (hrange : ∀ a s, env.addrShard.lookup a = some s → s < env.config.shards)
    (hsender : tx.sender ∉ env.addrShard) (hrecipient : tx.recipient ∉ env.addrShard) :
    ∃ env' a₁ a₂ senderPos, runBatch hash (bestCandidatePolicy hash) env
        ([tx].map (offlineTx rows)) = some (env', [a₁, a₂]) ∧
      PlacementAction.actionMask a₁ = env.buildCandidateActionMask hash tx.sender senderPos := by
  obtain ⟨hplain, hplain', hne, -⟩ := hbatch tx List.mem_cons_self
  let related := buildBatchRelated env.config ([tx].map (offlineTx rows))
  let o : OfflinePlacing := ({ env with batchID := env.batchID + 1 }, ∅, [])
  obtain ⟨o₁, a₁, senderPos, sid, h₁, hconfig₁, hlen₁, hsid, htable₁, hacts₁, hmask⟩ :=
    offline_place hash (o := o) hplain hshards hlen none related hsender
  have hrecipient₁ : tx.recipient ∉ o₁.1.addrShard := by
    rw [htable₁, AList.mem_insert]
    rintro (heq | hmem)
    · exact hne heq.symm
    · exact hrecipient hmem
  obtain ⟨o₂, a₂, -, sid₂, h₂, hconfig₂, -, hsid₂, htable₂, hacts₂, -⟩ :=
    offline_place hash hplain' (hconfig₁ ▸ hshards)
      (by rw [hlen₁, hconfig₁]; exact hlen) (some tx.sender) related hrecipient₁
  have hconfig : o₁.1.config = env.config := hconfig₁
  have hrange₂ : ∀ a s, o₂.1.addrShard.lookup a = some s → s < env.config.shards := by
    rw [htable₂, htable₁]
    exact range_insert (hconfig ▸ hsid₂) (range_insert hsid hrange)
  have hends : ∀ tx' ∈ [tx], tx'.recipient ≠ "" ∧ tx'.sender ∈ o₂.1.addrShard ∧
      tx'.recipient ∈ o₂.1.addrShard := by
    intro tx' htx'
    obtain rfl := List.mem_singleton.mp htx'
    rw [htable₂, htable₁]
    simp [hplain'.ne_empty]
  have horder : SpringOfflineEnv.placements env.config ([tx].map (offlineTx rows)) =
      [(tx.sender, none), (tx.recipient, some tx.sender)] := by
    rw [SpringOfflineEnv.placements, if_pos hposMode]
    rfl
  have hfold : (SpringOfflineEnv.placements env.config ([tx].map (offlineTx rows))).foldlM
      (placeAddress hash (bestCandidatePolicy hash) related) o = some o₂ := by
    rw [horder]
    simp only [List.foldlM_cons, List.foldlM_nil, h₁, h₂, Option.bind_eq_bind, Option.bind_some]
    rfl
  obtain ⟨env', henv, -⟩ := runBatch_of_placements hbatch (fun _ => List.cons_ne_nil _ _)
    (.inr hposMode) hfold (simulateBatchLoads_table rows hhash hrange₂ hends)
  refine ⟨env', a₁, a₂, senderPos, ?_, hmask⟩
  rw [henv, hacts₂, hacts₁]
  rfl

/-! ## The batch -/

/-- The masks of the first decision differ. -/
theorem farState_masks {m : ℕ} (hlo : (1 : ℚ) / 1000000000 < 1 / 5 / ((m + 2 : ℕ) : ℚ))
    (hhi : (1 : ℚ) / 5 / ((m + 2 : ℕ) : ℚ) ≤ 1 / 100000000) :
    ∃ s', parityStep (realEnv (m + 2)) (fun _ => none) (farState (m + 2))
        (.batch [plainTransaction]) = some s' ∧
      s'.go.decisionRecords.map SpringDecisionRecord.actionMask ≠
        s'.actions.map PlacementAction.actionMask := by
  let E := realEnv (m + 2)
  have hp : 0 < E.p.shardNum := Nat.succ_pos _
  have hfar : FarView ((farState (m + 2)).go.view E) := by
    refine ⟨rfl, fun sid => ?_, Nat.one_ne_zero, rfl⟩
    have hstat : ((farState (m + 2)).go.view E).springStats = oneTransaction := rfl
    simp only [hstat, oneTransaction_stat]
    by_cases hsid : sid = 0
    · simp [hsid, List.range_succ]
    · simp [hsid]
  have hview : SameView 0 ((farState (m + 2)).go.view E) (farState (m + 2)).offline :=
    ⟨rfl, rfl, List.length_replicate, oneTransaction_windows (m + 2)⟩
  have hsame : SameTable (.new (realConfig (m + 2))) (farState (m + 2)).go := ⟨rfl, rfl, rfl⟩
  have hok : TableOk E (farState (m + 2)).go := hsame.tableOk (tableOk_new E.p rfl)
  obtain ⟨st', placement, r₁, r₂, pos, hgo, hrecords, hmask⟩ :=
    go_single (E := E) hp rfl rfl rfl hok (plainTransaction_real (m + 2))
      (AList.notMem_empty _) (AList.notMem_empty _)
  obtain ⟨env', a₁, a₂, pos', hoff, hmask'⟩ :=
    offline_single (offlineHash E fun _ => none) (farState (m + 2)).offline
      (plainTransaction_real (m + 2)) rfl hp List.length_replicate
      (fun a => addr2shard_lt E.hash _ a hp) (fun a s h => by cases h)
      (AList.notMem_empty _) (AList.notMem_empty _)
  refine ⟨⟨st', env', [a₁, a₂]⟩, ?_, ?_⟩
  · rw [parityStep, hgo, Option.bind_some, hoff]
    rfl
  · intro heq
    rw [hrecords] at heq
    have hhead : r₁.actionMask = a₁.actionMask := by
      have := congrArg List.head? heq
      exact Option.some.inj this
    have hzero := hfar.go_mask (m := m) rfl hlo rfl plainTransaction.sender pos
    have hone := hfar.offline_mask (m := m) rfl hview hhi (offlineHash E fun _ => none)
      plainTransaction.sender pos'
    rw [← hmask] at hzero
    rw [← hmask', ← hhead, hzero] at hone
    exact absurd hone (by decide)

/-- **The guards differ**: over twenty million shards, with one transaction collected and
nothing placed, Go closes shard 0 and Python does not. -/
theorem masks_differ : ∃ s',
    parityStep (realEnv 20000000) (fun _ => none) (farState 20000000) (.batch [plainTransaction]) =
      some s' ∧
    SameWindows 20000000 (farState 20000000).go.springStats
      (farState 20000000).offline.recentStats ∧
    s'.go.decisionRecords.map SpringDecisionRecord.actionMask ≠
      s'.actions.map PlacementAction.actionMask := by
  obtain ⟨s', hstep, hdiff⟩ := farState_masks (m := 19999998) (by norm_num) (by norm_num)
  exact ⟨s', hstep, oneTransaction_windows 20000000, hdiff⟩

end BlockEmulator
