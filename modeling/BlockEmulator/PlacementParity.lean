import BlockEmulator.CandidateParity

/-!
# Go and Python place real accounts alike

A run of both sides over one sequence of batches: the supervisor in mode 7, and the
offline environment under the best-candidate policy. `ParityRel` relates them while a
batch is placed.

* `place_parity` — one address: both sides return, and stay related.
* `real_accounts_parity` — every run in which the guards never differ.
* `guardsAgree_of_lt` — which is every run over less than twenty million shards.
-/

namespace BlockEmulator

open StepSystem SpringOfflineEnv

variable {H : Type} {E : SpringEnv H}

/-- What is compared of a decision. -/
abbrev PlacementKey : Type := Address × String × ℕ × List ℕ

/-- Of a record of the supervisor. -/
def SpringDecisionRecord.key (r : SpringDecisionRecord) : PlacementKey :=
  (r.address, r.related, r.shard, r.actionMask)

/-- Of an action of the environment. -/
def PlacementAction.key (a : PlacementAction) : PlacementKey :=
  (a.address, a.related, a.action, a.actionMask)

/-- `addr2shard`, for the shards of the supervisor. -/
def offlineHash (E : SpringEnv H) (decimal : Char → Option ℕ) (addr : Address) : ℕ :=
  addr2shard E.hash decimal addr E.p.shardNum

/-- Two batches in progress; `earlier` are the actions of the batches before. -/
structure ParityRel (E : SpringEnv H) (mode : ℕ) (earlier : List PlacementAction) (s : Placing)
    (o : OfflinePlacing) : Prop where
  /-- the table of the supervisor is in order -/
  ok : PlacingOk E s
  /-- the configuration -/
  config : o.1.config = offlineConfig E.p mode
  /-- the tables -/
  table : o.1.addrShard = s.1.springAddrShard
  /-- the counters -/
  load : o.1.shardLoad = s.1.springShardLoad
  /-- the windows -/
  windows : SameWindows E.p.shardNum s.1.springStats o.1.recentStats
  /-- the placements of the batch -/
  batch : o.2.1 = s.2
  /-- the decisions -/
  records : s.1.decisionRecords.map SpringDecisionRecord.key =
    (earlier ++ o.2.2).map PlacementAction.key

/-- The guards do not differ, now and after more addresses are placed. -/
def GuardSafe (p : SpringConfig) (st : PlacementState) : Prop :=
  p.springCapacityGuard ≠ 0 →
    ¬ GuardsDiffer (meanLoadOf p st.springStats true) ∧
      (st.springShardLoad.sum = 0 → ¬ GuardsDiffer (meanLoadOf p st.springStats false))

theorem GuardSafe.current {p : SpringConfig} {st : PlacementState} (h : GuardSafe p st)
    (hon : p.springCapacityGuard ≠ 0) :
    ¬ GuardsDiffer (meanLoadOf p st.springStats (decide (0 < st.springShardLoad.sum))) := by
  obtain ⟨hplaced, hfresh⟩ := h hon
  by_cases hpos : 0 < st.springShardLoad.sum
  · simpa [hpos] using hplaced
  · simpa [hpos] using hfresh (Nat.eq_zero_of_not_pos hpos)

/-! ## One address -/

theorem foldlM_indexAdd_isSome {n : ℕ} {t : AddrShard} (ht : ∀ a s, t.lookup a = some s → s < n)
    (w : ℚ → ℚ) (l : List (Address × ℚ)) {vector : List ℚ} (hlen : vector.length = n) :
    (l.foldlM (fun vector (e : Address × ℚ) =>
      match t.lookup e.1 with
      | none => some vector
      | some sid => indexAdd vector sid (w e.2)) vector).isSome = true := by
  induction l generalizing vector with
  | nil => rfl
  | cons e l ih =>
    rw [List.foldlM_cons]
    cases hlookup : t.lookup e.1 with
    | none => exact ih hlen
    | some sid =>
      obtain ⟨vector', hv, hlen'⟩ := indexAdd_length hlen (ht e.1 sid hlookup) (w e.2)
      simp only [hv, Option.bind_eq_bind, Option.bind_some]
      exact ih hlen'

/-- The cost vector never panics. -/
theorem costVector_isSome {p : SpringConfig} {t : AddrShard}
    (ht : ∀ a s, t.lookup a = some s → s < p.shardNum) (relations : WeightMap)
    (addr : Address) : (costVector p t relations addr).isSome = true := by
  unfold costVector
  dsimp only
  split
  · exact foldlM_indexAdd_isSome ht (· / _) _ (by simp)
  · rfl

/-- The policy of the best candidate is kept, or replaced by the best candidate. -/
theorem safePolicyOutput_action (hash : Address → ℕ) (env : SpringOfflineEnv) (addr : Address)
    (info : SenderPosInfo) (mask : List ℕ) :
    (env.safePolicyOutput hash (bestCandidatePolicy hash env addr info mask) addr info.senderPos
      mask).action = env.bestCandidateAction hash addr info.senderPos mask := by
  rw [SpringOfflineEnv.safePolicyOutput]
  split
  · rfl
  · rfl

theorem Address.IsPlain.ne_empty {addr : Address} (h : addr.IsPlain) : addr ≠ "" := by
  rintro rfl
  exact absurd h.1 (by decide)

/-- In mode 7, `place` is the candidate placement. -/
theorem placeReal_eq (hmode : E.p.springMode = 7) {B : RealBatch} {addr : Address}
    (peer : Address) (hscene : (B.scenes addr).isSome = true) {s : Placing}
    (hrange : ∀ a sid, s.1.springAddrShard.lookup a = some sid → sid < E.p.shardNum)
    (actions : List SpringTrainAction) :
    ∃ features, placeReal E B (s, actions) (addr, peer) =
      (springPlaceAddressCandidateOnlySequential E B.batchID s addr peer B.related features).map
        fun s' => (s', actions) := by
  obtain ⟨scene, hscene⟩ := Option.isSome_iff_exists.mp hscene
  obtain ⟨vector, hvector⟩ := Option.isSome_iff_exists.mp
    (costVector_isSome hrange B.costRelations addr)
  simp only [placeReal, hscene, hvector, Option.bind_some, hmode]
  exact ⟨_, rfl⟩

/-- What the candidate placement writes for a new address. -/
theorem candidate_new {s : Placing} {addr : Address} (hne : addr ≠ "")
    (hnew : s.1.springAddrShard.lookup addr = none) (peer : Address) (related : RelatedMap)
    (features : List ℚ) (txBatchID : ℕ) {sid : ℕ} {mask : List ℕ}
    (hchoice : (s.1.view E).springChooseCandidateOnlyShard addr
      (springBuildSenderPos E.p s.1.springAddrShard addr peer s.2 related).senderPos = (sid, mask))
    (hsid : sid < s.1.springShardLoad.length) :
    ∃ record : SpringDecisionRecord,
      springPlaceAddressCandidateOnlySequential E txBatchID s addr peer related features =
        some (({ s.1 with
          springAddrShard := s.1.springAddrShard.insert addr sid
          springShardLoad := s.1.springShardLoad.modify sid (· + 1) } : PlacementState).append
            record, s.2.insert addr sid) ∧
      record.key = (addr,
        (springBuildSenderPos E.p s.1.springAddrShard addr peer s.2 related).relatedSummary,
        sid, mask) := by
  rw [springPlaceAddressCandidateOnlySequential, if_neg hne, hnew]
  simp only [hchoice, commitPlacement, hsid, if_true, Option.map_some]
  exact ⟨_, rfl, rfl⟩

/-- What the environment writes for a new address. -/
theorem offline_new {hash : Address → ℕ} {o : OfflinePlacing} {addr : Address} (hne : addr ≠ "")
    (hnew : addr ∉ o.1.addrShard) (fallback : Option Address) (related : RelatedMap) {sid : ℕ}
    {mask : List ℕ}
    (hmask : o.1.buildCandidateActionMask hash addr
      (o.1.buildSenderPos addr fallback o.2.1 related).senderPos = mask)
    (hbest : o.1.bestCandidateAction hash addr
      (o.1.buildSenderPos addr fallback o.2.1 related).senderPos mask = sid)
    (hsid : sid < o.1.shardLoad.length) :
    ∃ action : PlacementAction,
      placeAddress hash (bestCandidatePolicy hash) related o (addr, fallback) =
        some ({ o.1 with
          addrShard := o.1.addrShard.insert addr sid
          shardLoad := o.1.shardLoad.modify sid (· + 1) }, o.2.1.insert addr sid,
          o.2.2 ++ [action]) ∧
      action.key = (addr, (o.1.buildSenderPos addr fallback o.2.1 related).relatedSummary, sid,
        mask) := by
  have hnot : ¬(addr = "" ∨ addr ∈ o.1.addrShard) := by simp [hne, hnew]
  simp only [placeAddress, if_neg hnot, hmask, safePolicyOutput_action, hbest, Int.toNat_natCast,
    indexAdd, hsid, if_true, Option.map_some]
  exact ⟨_, rfl, rfl⟩

theorem GuardSafe.insert {p : SpringConfig} {st st' : PlacementState} (h : GuardSafe p st)
    (hstats : st'.springStats = st.springStats)
    (hload : st.springShardLoad.sum ≤ st'.springShardLoad.sum) : GuardSafe p st' := by
  intro hon
  obtain ⟨hplaced, hfresh⟩ := h hon
  rw [hstats]
  exact ⟨hplaced, fun hzero => hfresh (by omega)⟩

/-- A counter goes up. -/
theorem sum_modify_succ_ge (l : List ℕ) (i : ℕ) : l.sum ≤ (l.modify i (· + 1)).sum := by
  induction l generalizing i with
  | nil => simp
  | cons a l ih =>
    cases i with
    | zero => simp
    | succ i =>
      have := ih i
      simp only [List.modify_succ_cons, List.sum_cons]
      omega

/-- **One address**: both sides return, and stay related. -/
theorem place_parity (hp : 0 < E.p.shardNum) (hmode : E.p.springMode = 7)
    (decimal : Char → Option ℕ) {mode : ℕ} {earlier : List PlacementAction} {B : RealBatch}
    (hproper : B.related.Proper) {addr : Address} {fallback : Option Address}
    (hplain : addr.IsPlain) (hscene : (B.scenes addr).isSome = true)
    (hfallback : ∀ peer, fallback = some peer → peer ≠ addr) {s : Placing} {o : OfflinePlacing}
    (hrel : ParityRel E mode earlier s o)
    (hguard : addr ∈ s.1.springAddrShard ∨ GuardSafe E.p s.1) (actions : List SpringTrainAction) :
    ∃ s' o', placeReal E B (s, actions) (addr, fallback.getD "") = some (s', actions) ∧
      placeAddress (offlineHash E decimal) (bestCandidatePolicy (offlineHash E decimal)) B.related
        o (addr, fallback) = some o' ∧
      ParityRel E mode earlier s' o' ∧ TableKept s.1 s'.1 ∧ addr ∈ s'.1.springAddrShard ∧
      (GuardSafe E.p s.1 → GuardSafe E.p s'.1) := by
  have hne := hplain.ne_empty
  obtain ⟨features, hgo⟩ := placeReal_eq hmode (fallback.getD "") hscene
    hrel.ok.table.range actions
  cases hlookup : s.1.springAddrShard.lookup addr with
  | some sid =>
    have hknown : addr ∈ s.1.springAddrShard := AList.lookup_isSome.mp (by rw [hlookup]; rfl)
    refine ⟨s, o, ?_, ?_, hrel, fun _ _ h => h, hknown, id⟩
    · rw [hgo, springPlaceAddressCandidateOnlySequential, if_neg hne, hlookup]
      rfl
    · rw [placeAddress]
      exact if_pos (.inr (hrel.table ▸ hknown))
  | none =>
    have hnew : addr ∉ s.1.springAddrShard := AList.lookup_eq_none.mp hlookup
    have hsafe : GuardSafe E.p s.1 := hguard.resolve_left hnew
    have hview : SameView mode (s.1.view E) o.1 :=
      ⟨hrel.config, hrel.load, hrel.ok.table.length, hrel.windows⟩
    have hhash : offlineHash E decimal addr = (s.1.view E).addr2Shard addr :=
      addr2shard_eq E.hash decimal hplain hp
    -- the same position, the same mask, the same best candidate
    obtain ⟨hpos, hsummary⟩ := buildSenderPos_eq hrel.config hproper o.2.1 hfallback
    rw [hrel.table, hrel.batch] at hpos hsummary
    let pos := springBuildSenderPos E.p s.1.springAddrShard addr (fallback.getD "") s.2 B.related
    let mask := (s.1.view E).springBuildCandidateActionMask addr pos.senderPos
    let sid := (s.1.view E).springBestCandidateShard addr pos.senderPos mask
    have hsid : sid < E.p.shardNum := (s.1.view E).springBestCandidateShard_lt addr _ mask hp
    have hmask : o.1.buildCandidateActionMask (offlineHash E decimal) addr pos.senderPos = mask :=
      buildCandidateActionMask_eq hview hhash pos.senderPos hsafe.current
    have hbest : o.1.bestCandidateAction (offlineHash E decimal) addr pos.senderPos mask = sid :=
      bestCandidateAction_eq hview hhash pos.senderPos
        (springBuildCandidateActionMask_length (s.1.view E) addr pos.senderPos)
    have hlen : s.1.springShardLoad.length = E.p.shardNum := hrel.ok.table.length
    obtain ⟨record, hrecord, hrecordKey⟩ := candidate_new hne hlookup (fallback.getD "") B.related
      features B.batchID (rfl : _ = (sid, mask)) (hlen ▸ hsid)
    rw [← hpos] at hmask hbest
    rw [← hrel.batch] at hmask hbest
    obtain ⟨action, haction, hactionKey⟩ := offline_new hne (hrel.table ▸ hnew) fallback B.related
      hmask hbest (by rw [hrel.load, hlen]; exact hsid)
    obtain ⟨hgrows, hmem⟩ := (springPlaceAddressCandidateOnlySequential_places hrecord).grows (E := E)
    refine ⟨_, _, by rw [hgo, hrecord]; rfl, haction, ⟨hgrows.ok hrel.ok, hrel.config, ?_, ?_,
      hrel.windows, ?_, ?_⟩, hgrows.kept, hmem hne, fun h => h.insert rfl (sum_modify_succ_ge _ _)⟩
    · rw [hrel.table]
      rfl
    · rw [hrel.load]
      rfl
    · rw [hrel.batch]
    · simp only [PlacementState.append, List.map_append, List.map_cons, List.map_nil, hrecordKey,
        hactionKey, ← List.append_assoc]
      rw [hrel.records, List.map_append, hrel.batch, hsummary]

/-! ## One batch -/

/-- A batch of real accounts, with its scenes, as both loaders let it through. -/
def RealBatchTxs (rows : SceneRows) (txs : List Transaction) : Prop :=
  ∀ tx ∈ txs, tx.sender.IsPlain ∧ tx.recipient.IsPlain ∧ tx.sender ≠ tx.recipient ∧
    ∃ feature, rows tx.nonce = some feature ∧ feature.realAccounts = true ∧
      feature.features.length = 10 ∧ feature.recipientFeatures.length = 10

/-- The placements of a batch, in order, on both sides. -/
theorem fold_parity (hp : 0 < E.p.shardNum) (hmode : E.p.springMode = 7)
    (decimal : Char → Option ℕ) {mode : ℕ} {earlier : List PlacementAction} {B : RealBatch}
    (hproper : B.related.Proper) (actions : List SpringTrainAction)
    {l : List (Address × Option Address)}
    (hl : ∀ e ∈ l, e.1.IsPlain ∧ (B.scenes e.1).isSome = true ∧ ∀ peer, e.2 = some peer → peer ≠ e.1)
    {s : Placing} {o : OfflinePlacing} (hrel : ParityRel E mode earlier s o)
    (hguard : (∀ e ∈ l, e.1 ∈ s.1.springAddrShard) ∨ GuardSafe E.p s.1) :
    ∃ s' o', (l.map fun e => (e.1, e.2.getD "")).foldlM (placeReal E B) (s, actions) =
        some (s', actions) ∧
      l.foldlM (placeAddress (offlineHash E decimal) (bestCandidatePolicy (offlineHash E decimal))
        B.related) o = some o' ∧
      ParityRel E mode earlier s' o' ∧ TableKept s.1 s'.1 ∧
      ∀ e ∈ l, e.1 ∈ s'.1.springAddrShard := by
  induction l generalizing s o with
  | nil => exact ⟨s, o, rfl, rfl, hrel, fun _ _ h => h, fun e he => by cases he⟩
  | cons e l ih =>
    obtain ⟨hplain, hscene, hfallback⟩ := hl e List.mem_cons_self
    obtain ⟨s₁, o₁, hgo, hoff, hrel₁, hkept, hmem, hsafe⟩ := place_parity hp
      hmode decimal hproper hplain hscene hfallback hrel (hguard.imp (· e List.mem_cons_self) id) actions
    obtain ⟨s₂, o₂, hgo', hoff', hrel₂, hkept', hmem'⟩ :=
      ih (fun e' he' => hl e' (List.mem_cons_of_mem _ he')) hrel₁
        (hguard.imp (fun h e' he' => hkept.mem (h e' (List.mem_cons_of_mem _ he'))) hsafe)
    refine ⟨s₂, o₂, ?_, ?_, hrel₂, fun a n ha => hkept' a n (hkept a n ha), fun e' he' => ?_⟩
    · rw [List.map_cons, List.foldlM_cons, hgo]
      exact hgo'
    · rw [List.foldlM_cons]
      exact Option.bind_eq_some_iff.mpr ⟨o₁, hoff, hoff'⟩
    · rcases List.mem_cons.mp he' with rfl | he'
      · exact hkept'.mem hmem
      · exact hmem' e' he'

/-- The orders of both sides. -/
theorem placeOrder_eq (p : SpringConfig) (mode : ℕ) (rows : SceneRows) (txs : List Transaction) :
    placeOrder p txs =
      (SpringOfflineEnv.placements (offlineConfig p mode) (txs.map (offlineTx rows))).map fun e =>
        (e.1, e.2.getD "") := by
  have hpos : (offlineConfig p mode).senderPosMode = p.springSenderPosMode := rfl
  rw [placeOrder, SpringOfflineEnv.placements, hpos]
  split
  · simp only [List.map_append, List.map_map]
    rfl
  · simp only [List.map_flatMap, List.flatMap_map]
    rfl

/-- Every address that is placed is an end of a transaction, and its fallback, if any, is
the other end. -/
theorem mem_placements {p : SpringConfig} {mode : ℕ} {rows : SceneRows} {txs : List Transaction}
    {e : Address × Option Address}
    (he : e ∈ SpringOfflineEnv.placements (offlineConfig p mode) (txs.map (offlineTx rows))) :
    ∃ tx ∈ txs, (e.1 = tx.sender ∧ ∀ peer, e.2 = some peer → peer = tx.recipient) ∨
      (e.1 = tx.recipient ∧ ∀ peer, e.2 = some peer → peer = tx.sender) := by
  unfold SpringOfflineEnv.placements at he
  split at he
  · rcases List.mem_append.mp he with he | he
    · obtain ⟨otx, hotx, rfl⟩ := List.mem_map.mp he
      obtain ⟨tx, htx, rfl⟩ := List.mem_map.mp hotx
      exact ⟨tx, htx, .inl ⟨rfl, fun peer hpeer => by cases hpeer⟩⟩
    · obtain ⟨otx, hotx, rfl⟩ := List.mem_map.mp he
      obtain ⟨tx, htx, rfl⟩ := List.mem_map.mp hotx
      exact ⟨tx, htx, .inr ⟨rfl, fun peer hpeer => (Option.some.inj hpeer).symm⟩⟩
  · obtain ⟨otx, hotx, he⟩ := List.mem_flatMap.mp he
    obtain ⟨tx, htx, rfl⟩ := List.mem_map.mp hotx
    rcases List.mem_cons.mp he with rfl | he
    · exact ⟨tx, htx, .inl ⟨rfl, fun peer hpeer => (Option.some.inj hpeer).symm⟩⟩
    · obtain rfl := List.mem_singleton.mp he
      exact ⟨tx, htx, .inr ⟨rfl, fun peer hpeer => (Option.some.inj hpeer).symm⟩⟩

/-! ### The scenes -/

theorem Scenes.add_spec (scenes : Scenes) (address peer : Address) {features : List ℚ}
    (cost : ℚ) (h : features.length = 10) :
    ∃ scenes', scenes.add address peer features cost = some scenes' ∧
      (scenes' address).isSome = true ∧
      ∀ a, (scenes a).isSome = true → (scenes' a).isSome = true := by
  rw [Scenes.add, if_neg (by omega)]
  refine ⟨_, rfl, by simp, fun a ha => ?_⟩
  by_cases hne : a = address
  · simp [hne]
  · rw [Function.update_of_ne hne]
    exact ha

/-- Every end of a transaction has a scene. -/
theorem foldlM_addScenes {rows : SceneRows} {txs : List Transaction} (hbatch : RealBatchTxs rows txs)
    (scenes : Scenes) :
    ∃ scenes', txs.foldlM (addScenes rows) scenes = some scenes' ∧
      (∀ a, (scenes a).isSome = true → (scenes' a).isSome = true) ∧
      ∀ tx ∈ txs, (scenes' tx.sender).isSome = true ∧ (scenes' tx.recipient).isSome = true := by
  induction txs generalizing scenes with
  | nil => exact ⟨scenes, rfl, fun _ h => h, fun tx htx => by cases htx⟩
  | cons tx txs ih =>
    obtain ⟨-, -, -, feature, hrow, hreal, hlen, hlen'⟩ := hbatch tx List.mem_cons_self
    obtain ⟨sc₁, h₁, hmem₁, hkeep₁⟩ := scenes.add_spec tx.sender tx.recipient
      feature.communicationCostWeight hlen
    obtain ⟨sc₂, h₂, hmem₂, hkeep₂⟩ := sc₁.add_spec tx.recipient tx.sender
      feature.recipientCommunicationCostWeight hlen'
    obtain ⟨sc₃, h₃, hkeep₃, hends⟩ := ih (fun tx' htx' => hbatch tx' (List.mem_cons_of_mem _ htx'))
      sc₂
    have hone : addScenes rows scenes tx = some sc₂ := by
      rw [addScenes, hrow]
      simp [hreal, h₁, h₂]
    refine ⟨sc₃, ?_, fun a ha => hkeep₃ a (hkeep₂ a (hkeep₁ a ha)), fun tx' htx' => ?_⟩
    · rw [List.foldlM_cons, hone]
      exact h₃
    · rcases List.mem_cons.mp htx' with rfl | htx'
      · exact ⟨hkeep₃ _ (hkeep₂ _ hmem₁), hkeep₃ _ hmem₂⟩
      · exact hends tx' htx'

theorem springRealAccountScenes_spec {rows : SceneRows} {txs : List Transaction}
    (hbatch : RealBatchTxs rows txs) :
    ∃ scenes, springRealAccountScenes rows txs = some scenes ∧
      ∀ tx ∈ txs, (scenes tx.sender).isSome = true ∧ (scenes tx.recipient).isSome = true := by
  obtain ⟨scenes, hfold, -, hends⟩ := foldlM_addScenes hbatch (fun _ => none)
  refine ⟨_, by rw [springRealAccountScenes, hfold]; rfl, fun tx htx => ?_⟩
  obtain ⟨hsender, hrecipient⟩ := hends tx htx
  exact ⟨by simpa using hsender, by simpa using hrecipient⟩

/-- The addresses that are placed are plain and have a scene, and none is its own fallback. -/
theorem placements_plain {p : SpringConfig} {mode : ℕ} {rows : SceneRows}
    {txs : List Transaction} (hbatch : RealBatchTxs rows txs) {scenes : Scenes}
    (hends : ∀ tx ∈ txs, (scenes tx.sender).isSome = true ∧
      (scenes tx.recipient).isSome = true) :
    ∀ e ∈ SpringOfflineEnv.placements (offlineConfig p mode) (txs.map (offlineTx rows)),
      e.1.IsPlain ∧ (scenes e.1).isSome = true ∧ ∀ peer, e.2 = some peer → peer ≠ e.1 := by
  intro e he
  obtain ⟨tx, htx, hend⟩ := mem_placements he
  obtain ⟨hsender, hrecipient, hne, -⟩ := hbatch tx htx
  rcases hend with ⟨he1, hpeer⟩ | ⟨he1, hpeer⟩
  · rw [he1]
    refine ⟨hsender, (hends tx htx).1, fun peer hp' => ?_⟩
    rw [hpeer peer hp']
    exact hne.symm
  · rw [he1]
    refine ⟨hrecipient, (hends tx htx).2, fun peer hp' => ?_⟩
    rw [hpeer peer hp']
    exact hne

/-! ### The loads -/

theorem shardOrHash_known (hash : Address → ℕ) {addr : Address} {t : AddrShard} (h : addr ∈ t) :
    (shardOrHash hash addr t).2 = t := by
  obtain ⟨sid, hsid⟩ := Option.isSome_iff_exists.mp (AList.lookup_isSome.mpr h)
  rw [shardOrHash, hsid]

theorem chargeRelated_table {hash : Address → ℕ} {senderShard : ℕ} {t : AddrShard}
    {pairs : List (Address × ℚ)} (h : ∀ e ∈ pairs, e.1 ∈ t) {sim : BatchLoadSimulation}
    {r : BatchLoadSimulation × AddrShard}
    (hr : chargeRelated hash senderShard pairs (sim, t) = some r) : r.2 = t := by
  induction pairs generalizing sim with
  | nil =>
    cases hr
    rfl
  | cons pair pairs ih =>
    obtain ⟨anchor, weight⟩ := pair
    have hanchor := shardOrHash_known hash (h _ List.mem_cons_self)
    have ih := fun sim => @ih (fun e he => h e (List.mem_cons_of_mem _ he)) sim
    rw [chargeRelated] at hr
    dsimp only at hr hanchor
    rw [hanchor] at hr
    split at hr
    · obtain ⟨_, -, hr⟩ := Option.bind_eq_some_iff.mp hr
      exact ih _ hr
    · obtain ⟨_, -, hr⟩ := Option.bind_eq_some_iff.mp hr
      obtain ⟨_, -, hr⟩ := Option.bind_eq_some_iff.mp hr
      obtain ⟨_, -, hr⟩ := Option.bind_eq_some_iff.mp hr
      obtain ⟨_, -, hr⟩ := Option.bind_eq_some_iff.mp hr
      exact ih _ hr

/-- Where both ends of every transaction are in the table, the pass leaves it alone. -/
theorem simulateTxs_table {hash : Address → ℕ} {config : LoadConfig} {t : AddrShard}
    {txs : List OfflineTx} (h : ∀ tx ∈ txs, tx.sender ∈ t ∧ ∀ a ∈ txRelatedAddresses tx, a ∈ t)
    (hends : ∀ tx ∈ txs, tx.recipient ∈ t) {sim : BatchLoadSimulation}
    {r : BatchLoadSimulation × AddrShard} (hr : simulateTxs hash config txs (sim, t) = some r) :
    r.2 = t := by
  induction txs generalizing sim with
  | nil =>
    cases hr
    rfl
  | cons tx txs ih =>
    obtain ⟨hsender, hrelated⟩ := h tx List.mem_cons_self
    have ih := fun sim => @ih (fun tx' htx' => h tx' (List.mem_cons_of_mem _ htx'))
      (fun tx' htx' => hends tx' (List.mem_cons_of_mem _ htx')) sim
    rw [simulateTxs] at hr
    dsimp only at hr
    rw [shardOrHash_known hash hsender,
      shardOrHash_known hash (hends tx List.mem_cons_self)] at hr
    obtain ⟨_, -, hr⟩ := Option.bind_eq_some_iff.mp hr
    obtain ⟨acc, hacc, hr⟩ := Option.bind_eq_some_iff.mp hr
    have htable : acc.2 = t :=
      chargeRelated_table (fun e he => hrelated e.1 (List.of_mem_zip he).1) hacc
    rw [htable] at hr
    exact ih _ hr

theorem simulateBatchLoads_table {hash : Address → ℕ} {config : LoadConfig} {t : AddrShard}
    (rows : SceneRows) {txs : List Transaction} (hhash : ∀ a, hash a < config.shards)
    (hrange : ∀ a s, t.lookup a = some s → s < config.shards)
    (hends : ∀ tx ∈ txs, tx.recipient ≠ "" ∧ tx.sender ∈ t ∧ tx.recipient ∈ t) :
    ∃ sim, simulateBatchLoads hash config (txs.map (offlineTx rows)) t = some (sim, t) := by
  have hplace : ∀ a, (fun a => (t.lookup a).getD (hash a)) a < config.shards := by
    intro a
    dsimp only
    cases hlookup : t.lookup a with
    | none => exact hhash a
    | some s => exact hrange a s hlookup
  obtain ⟨sim, t', hrun, -⟩ := simulateBatchLoads_spec hplace (txs.map (offlineTx rows))
    (fun _ => rfl)
  refine ⟨sim, ?_⟩
  rw [hrun]
  obtain ⟨acc, hacc, heq⟩ := Option.map_eq_some_iff.mp hrun
  have htable : acc.2 = t := by
    refine simulateTxs_table (fun otx hotx => ?_) (fun otx hotx => ?_) hacc
    · obtain ⟨tx, htx, rfl⟩ := List.mem_map.mp hotx
      obtain ⟨hne, hsender, hrecipient⟩ := hends tx htx
      refine ⟨hsender, fun a ha => ?_⟩
      simp only [txRelatedAddresses, offlineTx, ne_eq, not_true_eq_false, if_false, hne,
        not_false_eq_true, if_true, List.mem_singleton] at ha
      exact ha ▸ hrecipient
    · obtain ⟨tx, htx, rfl⟩ := List.mem_map.mp hotx
      exact (hends tx htx).2.2
  cases heq
  rw [htable]

/-- `run_batch` after its placements: its checks pass, and the pass over the loads leaves
the placements alone. -/
theorem runBatch_of_placements {hash : Address → ℕ} {policy : PolicyFn} {env : SpringOfflineEnv}
    {rows : SceneRows} {txs : List Transaction} (hbatch : RealBatchTxs rows txs)
    (hversion : env.config.mechanismVersion = .v3 → txs ≠ [])
    (hposMode : env.config.senderPosMode = 0 ∨ env.config.senderPosMode = 1)
    {o : OfflinePlacing}
    (hfold : (SpringOfflineEnv.placements env.config (txs.map (offlineTx rows))).foldlM
      (placeAddress hash policy (buildBatchRelated env.config (txs.map (offlineTx rows))))
      ({ env with batchID := env.batchID + 1 }, ∅, []) = some o)
    (hsim : ∃ sim, simulateBatchLoads hash env.config.toLoadConfig (txs.map (offlineTx rows))
      o.1.addrShard = some (sim, o.1.addrShard)) :
    ∃ env', runBatch hash policy env (txs.map (offlineTx rows)) = some (env', o.2.2) ∧
      env'.config = o.1.config ∧ env'.addrShard = o.1.addrShard ∧
      env'.shardLoad = o.1.shardLoad := by
  obtain ⟨sim, hsim⟩ := hsim
  have hall : ∀ otx ∈ txs.map (offlineTx rows), otx.realAccounts = true := by
    intro otx hotx
    obtain ⟨tx, htx, rfl⟩ := List.mem_map.mp hotx
    obtain ⟨-, -, -, feature, hrow, hfeature, -⟩ := hbatch tx htx
    simp [offlineTx, hrow, hfeature]
  have hhead : txs ≠ [] →
      ((txs.map (offlineTx rows)).head?.map (·.realAccounts)).getD false = true := by
    intro hne
    obtain ⟨tx, txs', rfl⟩ := List.exists_cons_of_ne_nil hne
    exact hall _ List.mem_cons_self
  generalize hreal : ((txs.map (offlineTx rows)).head?.map (·.realAccounts)).getD false = real
    at hhead
  have hversions : ¬(env.config.mechanismVersion = .v3 ∧ real = false) := by
    rintro ⟨hv, rfl⟩
    exact absurd (hhead (hversion hv)) Bool.false_ne_true
  have hmix : ¬((txs.map (offlineTx rows)).any (·.realAccounts ≠ real) = true) := by
    intro hany
    obtain ⟨otx, hotx, hdiff⟩ := List.any_eq_true.mp hany
    obtain ⟨tx, htx, -⟩ := List.mem_map.mp hotx
    rw [hall otx hotx, hhead (List.ne_nil_of_mem htx)] at hdiff
    simp at hdiff
  have hmodes : ¬(real = true ∧ env.config.senderPosMode ≠ 0 ∧ env.config.senderPosMode ≠ 1) := by
    rintro ⟨-, h0, h1⟩
    exact hposMode.elim h0 h1
  obtain ⟨hconfig, haddr, hload, -⟩ := applyCapacityBacklog_frame
    { o.1 with addrShard := o.1.addrShard } sim.stageLoads sim.effectiveLoads sim.crossLoads
  let r := applyCapacityBacklog { o.1 with addrShard := o.1.addrShard } sim.stageLoads
    sim.effectiveLoads sim.crossLoads
  let recentStats := r.2.recentStats ++ [r.1]
  refine ⟨{ r.2 with recentStats := recentStats.drop (recentStats.length - 5) }, ?_, hconfig,
    haddr, hload⟩
  unfold runBatch
  dsimp only
  rw [hreal, if_neg hversions, if_neg hmix, if_neg hmodes, hfold, Option.bind_some, hsim]
  rfl

/-- `springPreparePlacement` after the placements of a batch of real accounts in mode 7. -/
theorem springPreparePlacement_of_placements (hmode : E.p.springMode = 7)
    (hreal : springRealAccountsEnabled E.p = true)
    (hposMode : E.p.springSenderPosMode = 0 ∨ E.p.springSenderPosMode = 1) {st : PlacementState}
    {txs : List Transaction} {scenes : Scenes}
    (hscenes : springRealAccountScenes E.rows txs = some scenes) {s' : Placing}
    {actions : List SpringTrainAction}
    (hfold : (placeOrder E.p txs).foldlM (placeReal E
      { batchID := st.springTxBatchSeq + 1
        related := springBuildBatchRelatedMap E.p txs
        scenes := scenes
        costRelations := realCostRelations E.p E.rows txs
        weights := realWeights E.p txs })
      (({ st with springTxBatchSeq := st.springTxBatchSeq + 1 }, ∅), []) = some (s', actions)) :
    springPreparePlacement E st txs = some (s'.1, (springFillTouchedPlacement s' txs).2) := by
  rw [springPreparePlacement, if_pos hreal, springPrepareRealAccountPlacement,
    if_neg (by omega), if_neg (by omega), hscenes]
  simp only [Option.bind_some]
  rw [hfold, Option.map_some]
  refine congrArg some (Prod.ext ?_ ?_)
  · simp only [hmode, springFillTouchedPlacement_state]
    rfl
  · simp only [hmode]
    rfl

/-! ### The batch -/

/-- Both sides between two batches. -/
structure ParityState where
  /-- the supervisor -/
  go : PlacementState
  /-- the environment -/
  offline : SpringOfflineEnv
  /-- the actions of the environment so far -/
  actions : List PlacementAction

/-- **What is the same**: the decisions, in order, and the tables. -/
structure ParityAgree (E : SpringEnv H) (mode : ℕ) (s : ParityState) : Prop where
  /-- the table of the supervisor is in order -/
  ok : TableOk E s.go
  /-- the configuration -/
  config : s.offline.config = offlineConfig E.p mode
  /-- the tables -/
  table : s.offline.addrShard = s.go.springAddrShard
  /-- the counters -/
  load : s.offline.shardLoad = s.go.springShardLoad
  /-- the addresses, their relations, shards and masks -/
  records : s.go.decisionRecords.map SpringDecisionRecord.key =
    s.actions.map PlacementAction.key

/-- The guards never differ over a batch: no address is new, or they do not differ. -/
def GuardsAgree (p : SpringConfig) (st : PlacementState) (txs : List Transaction) : Prop :=
  (∀ tx ∈ txs, tx.sender ∈ st.springAddrShard ∧ tx.recipient ∈ st.springAddrShard) ∨
    GuardSafe p st

/-- What holds of the ends of the transactions holds of the addresses that are placed. -/
theorem GuardsAgree.placements {p : SpringConfig} {mode : ℕ} {rows : SceneRows}
    {st : PlacementState} {txs : List Transaction} (h : GuardsAgree p st txs) :
    (∀ e ∈ SpringOfflineEnv.placements (offlineConfig p mode) (txs.map (offlineTx rows)),
      e.1 ∈ st.springAddrShard) ∨ GuardSafe p st := by
  refine h.imp (fun hknown e he => ?_) id
  obtain ⟨tx, htx, hend⟩ := mem_placements he
  rcases hend with ⟨he1, -⟩ | ⟨he1, -⟩
  · exact he1 ▸ (hknown tx htx).1
  · exact he1 ▸ (hknown tx htx).2

/-- **One batch**: both sides return, and agree again. -/
theorem batch_parity (hp : 0 < E.p.shardNum) (hmode : E.p.springMode = 7)
    (hreal : springRealAccountsEnabled E.p = true)
    (hposMode : E.p.springSenderPosMode = 0 ∨ E.p.springSenderPosMode = 1)
    (decimal : Char → Option ℕ) {mode : ℕ} {s : ParityState} (h : ParityAgree E mode s)
    {txs : List Transaction} (hbatch : RealBatchTxs E.rows txs)
    (hw : SameWindows E.p.shardNum s.go.springStats s.offline.recentStats)
    (hv3 : E.p.springMechanismVersion = .v3 → txs ≠ [])
    (hguard : GuardsAgree E.p s.go txs) :
    ∃ st' placement env' actions',
      springPreparePlacement E s.go txs = some (st', placement) ∧
      runBatch (offlineHash E decimal) (bestCandidatePolicy (offlineHash E decimal)) s.offline
        (txs.map (offlineTx E.rows)) = some (env', actions') ∧
      ParityAgree E mode ⟨st', env', s.actions ++ actions'⟩ := by
  obtain ⟨scenes, hscenes, hends⟩ := springRealAccountScenes_spec hbatch
  let st : PlacementState := { s.go with springTxBatchSeq := s.go.springTxBatchSeq + 1 }
  let env : SpringOfflineEnv := { s.offline with batchID := s.offline.batchID + 1 }
  let B : RealBatch :=
    { batchID := st.springTxBatchSeq
      related := springBuildBatchRelatedMap E.p txs
      scenes := scenes
      costRelations := realCostRelations E.p E.rows txs
      weights := realWeights E.p txs }
  have hrel : ParityRel E mode s.actions (st, ∅) (env, ∅, []) :=
    ⟨⟨(springTxBatchSeq_same s.go _).tableOk h.ok, fun a n ha => by cases ha⟩, h.config, h.table,
      h.load, hw, rfl, by simpa using h.records⟩
  obtain ⟨s', o', hgo, hoff, hrel', hkept, hmem⟩ := fold_parity hp hmode decimal (B := B)
    (springBuildBatchRelatedMap_proper E.p txs) [] (placements_plain hbatch hends) hrel
    hguard.placements
  -- the supervisor
  rw [← placeOrder_eq] at hgo
  have hsupervisor := springPreparePlacement_of_placements hmode hreal hposMode hscenes hgo
  -- the environment
  have htable : ∀ tx ∈ txs, tx.recipient ≠ "" ∧ tx.sender ∈ o'.1.addrShard ∧
      tx.recipient ∈ o'.1.addrShard := by
    intro tx htx
    rw [hrel'.table]
    obtain ⟨⟨peer, hsender⟩, ⟨peer', hrecipient⟩⟩ := mem_placeOrder E.p htx
    rw [placeOrder_eq E.p mode E.rows] at hsender hrecipient
    obtain ⟨e, he, heq⟩ := List.mem_map.mp hsender
    obtain ⟨e', he', heq'⟩ := List.mem_map.mp hrecipient
    have h1 : e.1 = tx.sender := congrArg Prod.fst heq
    have h2 : e'.1 = tx.recipient := congrArg Prod.fst heq'
    exact ⟨(hbatch tx htx).2.1.ne_empty, h1 ▸ hmem e he, h2 ▸ hmem e' he'⟩
  have hhash : ∀ a, offlineHash E decimal a < s.offline.config.toLoadConfig.shards := by
    rw [h.config]
    exact fun a => addr2shard_lt E.hash decimal a hp
  have hrange : ∀ a n, o'.1.addrShard.lookup a = some n →
      n < s.offline.config.toLoadConfig.shards := by
    rw [h.config, hrel'.table]
    exact hrel'.ok.table.range
  have hfold : (SpringOfflineEnv.placements s.offline.config (txs.map (offlineTx E.rows))).foldlM
      (placeAddress (offlineHash E decimal) (bestCandidatePolicy (offlineHash E decimal))
        (buildBatchRelated s.offline.config (txs.map (offlineTx E.rows)))) (env, ∅, []) =
      some o' := by
    rw [h.config, buildBatchRelated_eq]
    exact hoff
  obtain ⟨env', henv, hconfig, haddr, hload⟩ := runBatch_of_placements hbatch
    (by rw [h.config]; exact hv3) (by rw [h.config]; exact hposMode) hfold
    (simulateBatchLoads_table E.rows hhash hrange htable)
  exact ⟨s'.1, _, env', o'.2.2, hsupervisor, henv, hrel'.ok.table, hconfig.trans hrel'.config,
    haddr.trans hrel'.table, hload.trans hrel'.load, hrel'.records⟩

/-! ## Runs -/

/-- Both sides at the start. -/
def ParityState.new (p : SpringConfig) (capacityBacklogMode : ℕ) : ParityState :=
  ⟨.new p, .new (offlineConfig p capacityBacklogMode), []⟩

/-- What happens to both sides. -/
inductive ParityEvent
  /-- the supervisor has collected blocks -/
  | collected (springStats : ℕ → List SpringBlockStat)
  /-- the windows of the environment are set -/
  | replayed (recentStats : List OfflineStat)
  /-- a batch is placed on both sides -/
  | batch (txs : List Transaction)

/-- One step of both sides. -/
def parityStep (E : SpringEnv H) (decimal : Char → Option ℕ) (s : ParityState) :
    ParityEvent → Option ParityState
  | .collected springStats => some { s with go := { s.go with springStats := springStats } }
  | .replayed recentStats => some { s with offline := { s.offline with recentStats := recentStats } }
  | .batch txs =>
    (springPreparePlacement E s.go txs).bind fun r =>
    (runBatch (offlineHash E decimal) (bestCandidatePolicy (offlineHash E decimal)) s.offline
      (txs.map (offlineTx E.rows))).map fun r' =>
      { go := r.1, offline := r'.1, actions := s.actions ++ r'.2 }

/-- A batch of real accounts at the same windows, over which the guards never differ; under
the mechanism of version 3, not an empty one, which the environment rejects. -/
def ParityOk (E : SpringEnv H) (s : ParityState) : ParityEvent → Prop
  | .batch txs =>
    RealBatchTxs E.rows txs ∧
    SameWindows E.p.shardNum s.go.springStats s.offline.recentStats ∧
    (E.p.springMechanismVersion = .v3 → txs ≠ []) ∧ GuardsAgree E.p s.go txs
  | _ => True

/-- **Go and Python place real accounts alike**, in every run in which their guards never
differ: both sides return for every batch, and have the same decisions and tables. -/
theorem real_accounts_parity (E : SpringEnv H) (decimal : Char → Option ℕ) (mode : ℕ)
    (hp : 0 < E.p.shardNum) (hmode : E.p.springMode = 7)
    (hreal : springRealAccountsEnabled E.p = true)
    (hposMode : E.p.springSenderPosMode = 0 ∨ E.p.springSenderPosMode = 1) {s : ParityState}
    (hr : Reaches (parityStep E decimal) (ParityOk E) (.new E.p mode) s) :
    s.go.decisionRecords.map SpringDecisionRecord.key = s.actions.map PlacementAction.key ∧
      s.go.springAddrShard = s.offline.addrShard ∧
      ∀ txs, ParityOk E s (.batch txs) →
        ∃ s', parityStep E decimal s (.batch txs) = some s' := by
  have hbatch : ∀ s txs, ParityAgree E mode s → ParityOk E s (.batch txs) →
      ∃ s', parityStep E decimal s (.batch txs) = some s' ∧ ParityAgree E mode s' := by
    rintro s txs hagree ⟨htxs, hw, hv3, hguard⟩
    obtain ⟨st', placement, env', actions', hgo, hoff, hagree'⟩ :=
      batch_parity hp hmode hreal hposMode decimal hagree htxs hw hv3 hguard
    refine ⟨_, ?_, hagree'⟩
    rw [parityStep, hgo, Option.bind_some, hoff]
    rfl
  have hagree : ParityAgree E mode s := by
    refine hr.invariant (ParityAgree E mode) ?_ ?_
    · exact ⟨tableOk_new E.p rfl, rfl, rfl, rfl, rfl⟩
    · intro s a s' h hok hs
      cases a with
      | collected springStats =>
        cases hs
        have hsame : SameTable s.go { s.go with springStats := springStats } := ⟨rfl, rfl, rfl⟩
        exact ⟨hsame.tableOk h.ok, h.config, h.table, h.load, h.records⟩
      | replayed recentStats =>
        cases hs
        exact ⟨h.ok, h.config, h.table, h.load, h.records⟩
      | batch txs =>
        obtain ⟨s'', hs'', hagree⟩ := hbatch s txs h hok
        rw [hs] at hs''
        cases hs''
        exact hagree
  refine ⟨hagree.records, hagree.table.symm, fun txs hok => ?_⟩
  obtain ⟨s', hs', -⟩ := hbatch s txs hagree hok
  exact ⟨s', hs'⟩

/-! ## Fewer than twenty million shards -/

/-- Over fewer than twenty million shards the guards never differ: the mean load is zero,
or at least a fifth of a transaction over all shards. -/
theorem guardSafe_of_lt {p : SpringConfig} (hp : 0 < p.shardNum) (hlt : p.shardNum < 20000000)
    (st : PlacementState) : GuardSafe p st := by
  have hn : (0 : ℚ) < p.shardNum := by exact_mod_cast hp
  have hn' : (p.shardNum : ℚ) < 20000000 := by exact_mod_cast hlt
  have hrecent : ∃ r : ℕ, ((List.range p.shardNum).map fun sid => ((List.range 5).map fun back =>
      ((springGetStat st.springStats sid back).numTx : ℚ)).sum).sum = r := by
    refine ⟨((List.range p.shardNum).map fun sid => ((List.range 5).map fun back =>
      (springGetStat st.springStats sid back).numTx).sum).sum, ?_⟩
    simp only [Nat.cast_list_sum, List.map_map, Function.comp_def]
  obtain ⟨r, hr⟩ := hrecent
  have hfar : ∀ x : ℚ, 1 / 5 ≤ x → ¬ GuardsDiffer (x / p.shardNum) := by
    rintro x hx ⟨-, hle⟩
    rw [div_le_iff₀ hn] at hle
    linarith
  intro _
  refine ⟨?_, fun _ => ?_⟩
  · have hscale := one_le_placementScale p
    rw [meanLoadOf, hr, if_pos rfl]
    have : (0 : ℚ) ≤ r := Nat.cast_nonneg r
    exact hfar _ (by linarith)
  · rw [meanLoadOf, hr, if_neg Bool.false_ne_true]
    rcases Nat.eq_zero_or_pos r with rfl | hpos
    · rintro ⟨hgt, -⟩
      norm_num at hgt
    · have : (1 : ℚ) ≤ r := by exact_mod_cast hpos
      exact hfar _ (by linarith)

/-! ## One transaction -/

/-- Real accounts in mode 7, with the capacity guard. -/
def realConfig (shards : ℕ) : SpringConfig :=
  { SpringConfig.default shards with
    springMode := 7
    springCandidateTopK := 0
    springCapacityGuard := 1
    springIOTIdentityMode := 2 }

/-- The scene of every transaction. -/
def realFeature : SpringIOTTxFeature where
  stateObject := ""
  anchorObject := ""
  anchorObjects := []
  anchorWeights := []
  features := List.replicate 10 0
  communicationCostWeight := 0
  realAccounts := true
  recipientFeatures := List.replicate 10 0
  recipientCommunicationCostWeight := 0

/-- The supervisor of some number of shards. -/
def realEnv (shards : ℕ) : SpringEnv FreeHash :=
  { tableEnv with
    p := realConfig shards
    rows := fun _ => some realFeature }

/-- One transaction in the last block of shard 0. -/
def oneTransaction : ℕ → List SpringBlockStat :=
  fun sid => if sid = 0 then [{ SpringBlockStat.zero with numTx := 1 }] else []

/-- The same, as the windows of the environment. -/
def oneTransactionWindows (shards : ℕ) : List OfflineStat :=
  let zeros := List.replicate shards (0 : ℚ)
  List.replicate 4 ⟨zeros, zeros⟩ ++ [⟨(List.range shards).map fun sid => if sid = 0 then 1 else 0, zeros⟩]

theorem oneTransaction_stat (sid back : ℕ) :
    (springGetStat oneTransaction sid back).numTx = if sid = 0 ∧ back = 0 then 1 else 0 := by
  rw [springGetStat]
  by_cases hsid : sid = 0
  · cases back with
    | zero => simp [oneTransaction, hsid]
    | succ back => simp [oneTransaction, hsid, SpringBlockStat.zero]
  · simp [oneTransaction, hsid, SpringBlockStat.zero]

theorem oneTransaction_windows (shards : ℕ) :
    SameWindows shards oneTransaction (oneTransactionWindows shards) := by
  refine ⟨by simp [oneTransactionWindows], fun back hback sid hsid => ?_⟩
  rw [oneTransaction_stat]
  match back, hback with
  | 0, _ => simp [oneTransactionWindows, hsid]
  | 1, _ => simp [oneTransactionWindows, hsid]
  | 2, _ => simp [oneTransactionWindows, hsid]
  | 3, _ => simp [oneTransactionWindows, hsid]
  | 4, _ => simp [oneTransactionWindows, hsid]

theorem plainTransaction_real (shards : ℕ) :
    RealBatchTxs (realEnv shards).rows [plainTransaction] := by
  intro tx htx
  obtain rfl := List.mem_singleton.mp htx
  exact ⟨by decide, by decide, by decide, realFeature, rfl, rfl, rfl, rfl⟩

/-- Both sides, with one transaction in the last block. -/
def farState (shards : ℕ) : ParityState where
  go := { PlacementState.new (realConfig shards) with springStats := oneTransaction }
  offline := { SpringOfflineEnv.new (offlineConfig (realConfig shards) 0) with
    recentStats := oneTransactionWindows shards }
  actions := []

theorem farState_reached (shards : ℕ) :
    Reaches (parityStep (realEnv shards) fun _ => none) (ParityOk (realEnv shards))
      (.new (realConfig shards) 0) (farState shards) :=
  .tail (a := .replayed (oneTransactionWindows shards))
    (.tail (a := .collected oneTransaction) .refl trivial rfl) trivial rfl

/-- Over two shards both sides place the transaction alike. -/
theorem real_accounts_parity_two : ∃ s',
    parityStep (realEnv 2) (fun _ => none) (farState 2) (.batch [plainTransaction]) = some s' ∧
    s'.go.decisionRecords.map SpringDecisionRecord.key = s'.actions.map PlacementAction.key ∧
    s'.go.springAddrShard = s'.offline.addrShard := by
  have hok : ParityOk (realEnv 2) (farState 2) (.batch [plainTransaction]) :=
    ⟨plainTransaction_real 2, oneTransaction_windows 2, fun _ => List.cons_ne_nil _ _,
      .inr (guardSafe_of_lt (by decide) (by decide) _)⟩
  obtain ⟨-, -, hstep⟩ := real_accounts_parity (realEnv 2) (fun _ => none) 0 (by decide) rfl rfl
    (.inr rfl) (farState_reached 2)
  obtain ⟨s', hs'⟩ := hstep [plainTransaction] hok
  obtain ⟨hrecords, htable, -⟩ := real_accounts_parity (realEnv 2) (fun _ => none) 0 (by decide)
    rfl rfl (.inr rfl) ((farState_reached 2).tail hok hs')
  exact ⟨s', hs', hrecords, htable⟩

end BlockEmulator
