import BlockEmulator.SpringPlacement

/-!
# Placing a batch (`springPreparePlacement`)

The procedures that place one address each, the seeding of anchors, and the loops over
the transactions of a batch.

* `springPlaceAddressPPOSequential` — asks Python, and has an answer for every reply.
* `springPrepareRealAccountPlacement` — the batch of the second data set.
* `springPreparePlacement` — the entry, by mode and by identity.
-/

namespace BlockEmulator

variable {H : Type} (E : SpringEnv H)

/-! ## Local rewards -/

/-- `springMeanInt`. -/
def springMeanInt (values : List ℕ) : ℚ :=
  if values.length = 0 then 0 else (values.sum : ℚ) / values.length

/-- `springLocalActionReward`: the reward and the load penalty. -/
def springLocalActionReward (chosenShard : ℕ) (relatedKnown : Bool) (relatedShard : Option ℕ)
    (relatedWeight : ℚ) (shardLoadBefore : ℕ) (loadMeanBefore : ℚ) : ℚ × ℚ :=
  let reward : ℚ :=
    if relatedKnown then
      if relatedShard = some chosenShard then 12 / 10 * relatedWeight else -relatedWeight
    else 0
  if loadMeanBefore > 1 / 1000000000 then
    let loadPenalty := shardLoadBefore / loadMeanBefore
    if loadPenalty > 1 then
      let reward := reward - 70 / 100 * (loadPenalty - 1)
      (if loadPenalty > 125 / 100 then reward - 35 / 100 * (loadPenalty - 125 / 100) else reward,
        loadPenalty)
    else (reward + 8 / 100 * (1 - loadPenalty), loadPenalty)
  else (reward, 0)

/-- `springIOTDenseActionReward`: the reward and the pressure. -/
def springIOTDenseActionReward (chosen : ℕ) (senderPos : List ℚ) (cost : ℚ) (load : ℕ)
    (mean : ℚ) : ℚ × ℚ :=
  let mass := if chosen < senderPos.length then springClamp (senderPos.getD chosen 0) 0 1 else 0
  let cross := if senderPos.sum > 1 / 100000000 then 1 - mass else 0
  let reward := 14 / 10 * mass - 8 / 10 * cross - 45 / 100 * springClamp cost 0 1 * cross
  if mean > 1 / 1000000000 then
    let pressure := load / mean
    if pressure > 1 then
      let reward := reward - 55 / 100 * (pressure - 1)
      (if pressure > 15 / 10 then reward - 35 / 100 * (pressure - 15 / 10) else reward, pressure)
    else
      let gap := 1 - pressure
      (reward + (10 / 100 * gap + min (18 / 100) (25 / 100 * gap)), pressure)
  else (reward, 0)

/-! ## Placing one address -/

/-- `springEnsurePlaced`, without the shard it returns, which no caller uses. -/
def springEnsurePlaced (s : Placing) (addr related : Address) : Option Placing :=
  match s.1.springAddrShard.lookup addr with
  | some _ => some s
  | none =>
    match E.p.springMode with
    | 1 => commitPlacement s addr (springChooseShard E s.1 addr related)
    | 2 =>
      let (sid, st) := springChooseShardPPO E s.1 addr related
      commitPlacement (st, s.2) addr sid
    | 3 =>
      let (sid, st) := springChooseShardRandom E s.1
      commitPlacement (st, s.2) addr sid
    | 4 => commitPlacement s addr (springChooseShardMinState E s.1)
    | 5 => commitPlacement s addr (springChooseShardAnchorOnly E s.1 addr related)
    | 6 =>
      let pos := springBuildNSShardWeightedSenderPos E.p s.1.springAddrShard addr related s.2
        fun _ => ∅
      commitPlacement s addr
        (springChooseShardNSShardAdaptedFromSenderPos E s.1 addr pos.senderPos pos.relatedKnown)
    | _ => commitPlacement s addr (E.addr2Shard addr)

/-- `springEnsurePlacedWithBatchRelated`. -/
def springEnsurePlacedWithBatchRelated (s : Placing) (addr related : Address)
    (batchRelated : RelatedMap) : Option Placing :=
  match s.1.springAddrShard.lookup addr with
  | some _ => some s
  | none =>
    let pos := springBuildSenderPos E.p s.1.springAddrShard addr related s.2 batchRelated
    let sid :=
      if pos.relatedKnown then springChooseShardFromSenderPos E s.1 addr pos.senderPos
      else springChooseShard E s.1 addr related
    commitPlacement s addr ((s.1.view E).springApplyCandidateGuard addr pos.senderPos sid).1

/-- `springEnsurePlacedAnchorOnlyWithBatchRelated`. -/
def springEnsurePlacedAnchorOnlyWithBatchRelated (s : Placing) (addr related : Address)
    (batchRelated : RelatedMap) : Option Placing :=
  match s.1.springAddrShard.lookup addr with
  | some _ => some s
  | none =>
    let pos := springBuildSenderPos E.p s.1.springAddrShard addr related s.2 batchRelated
    commitPlacement s addr
      (if pos.relatedKnown then springChooseShardAnchorOnlyFromSenderPos E addr pos.senderPos
      else springChooseShardAnchorOnly E s.1 addr related)

/-- `springEnsurePlacedNSShardAdaptedWithBatchWeights`. -/
def springEnsurePlacedNSShardAdaptedWithBatchWeights (s : Placing) (addr related : Address)
    (batchRelatedWeights : WeightMap) : Option Placing :=
  match s.1.springAddrShard.lookup addr with
  | some _ => some s
  | none =>
    let pos := springBuildNSShardWeightedSenderPos E.p s.1.springAddrShard addr related s.2
      batchRelatedWeights
    commitPlacement s addr
      (springChooseShardNSShardAdaptedFromSenderPos E s.1 addr pos.senderPos pos.relatedKnown)

/-- `springBuildStateFromSenderPos`, at the current state of the module. -/
def stateVector (st : PlacementState) (pos : SenderPos) (extraFeatures : List ℚ) : List ℚ :=
  springBuildStateFromSenderPos E.log1p E.p st.springStats st.springShardLoad pos.senderPos
    (springAddressFlagFromRelatedCount pos.relatedCount) extraFeatures

/-- `springPlaceAddressCandidateOnlySequential`. -/
def springPlaceAddressCandidateOnlySequential (txBatchID : ℕ) (s : Placing)
    (addr related : Address) (batchRelated : RelatedMap) (extraFeatures : List ℚ) :
    Option Placing :=
  if addr = "" then some s
  else
    match s.1.springAddrShard.lookup addr with
    | some _ => some s
    | none =>
      let pos := springBuildSenderPos E.p s.1.springAddrShard addr related s.2 batchRelated
      let state := stateVector E s.1 pos extraFeatures
      let (sid, actionMask) := (s.1.view E).springChooseCandidateOnlyShard addr pos.senderPos
      (commitPlacement s addr sid).map fun s =>
        (s.1.append ⟨txBatchID, addr, pos.relatedSummary, sid, "go_candidate_only", 0, 0, 0, 0, 1,
          state, actionMask⟩, s.2)

/-- The shard that `springPlaceAddressPPOSequential` proposes, and its source: that of
the reply, if it is a shard, and else the heuristics. -/
def ppoProposal (st : PlacementState) (addr related : Address) (pos : SenderPos)
    (ok : Bool) (result : SpringBatchInferResult) : ℕ × String × ℚ × ℚ :=
  if ok ∧ 0 ≤ result.shard ∧ result.shard < E.p.shardNum then
    (result.shard.toNat, if result.source = "" then "python_ppo" else result.source,
      result.confidence, result.entropy)
  else if pos.relatedKnown then
    (springChooseShardFromSenderPos E st addr pos.senderPos,
      "go_multi_anchor_heuristic_sequential_fallback", 0, 0)
  else (springChooseShard E st addr related, "go_heuristic_sequential_fallback", 0, 0)

/-- The local reward that `springPlaceAddressPPOSequential` records; `iotCosts` is the
second of its optional arguments. -/
def ppoLocalReward (st : PlacementState) (pos : SenderPos) (chosenShard : ℕ)
    (iotCosts : Option (List ℚ)) : ℚ × ℚ :=
  let before := st.springShardLoad.getD chosenShard 0
  let mean := springMeanInt st.springShardLoad
  if springIOTEnabled E.p then
    if E.p.springMechanismVersion = .v3 then
      let r := springIOTDenseActionReward chosenShard pos.senderPos 0 before mean
      match iotCosts with
      | some (_ :: vector) =>
        if E.p.springSceneCostMode = .cross then
          let penalty := (vector.zipIdx.map fun (c, s) => if s ≠ chosenShard then c else 0).sum
          (r.1 - 45 / 100 * penalty, r.2)
        else r
      | _ => r
    else
      springIOTDenseActionReward chosenShard pos.senderPos ((iotCosts.getD []).headD 0) before mean
  else
    springLocalActionReward chosenShard pos.relatedKnown pos.relatedShard pos.relatedWeight before
      mean

/-- `springPlaceAddressPPOSequential`, with the action it has for the training. -/
def springPlaceAddressPPOSequential (s : Placing) (addr related : Address)
    (batchRelated : RelatedMap) (extraFeatures : List ℚ) (iotCosts : Option (List ℚ)) :
    Option (Placing × Option SpringTrainAction) :=
  if addr = "" then some (s, none)
  else
    match s.1.springAddrShard.lookup addr with
    | some _ => some (s, none)
    | none =>
      let pos := springBuildSenderPos E.p s.1.springAddrShard addr related s.2 batchRelated
      let state := stateVector E s.1 pos extraFeatures
      let actionMask := (s.1.view E).springBuildCandidateActionMask addr pos.senderPos
      let (results, st) := springCallPythonBatch E s.1 ⟨addr, pos.relatedSummary, state, actionMask⟩
      let ok := results.isSome
      let result : SpringBatchInferResult :=
        match results with
        | some [result] => result
        | _ => .zero
      if springRealAccountsEnabled E.p ∧ (ok = false ∨ result.source ≠ "python_ppo" ∨
          result.shard < 0 ∨ result.shard ≥ E.p.shardNum ∨
          springActionAllowed E.p.shardNum actionMask result.shard.toNat = false) then none
      else
        let (proposed, source, confidence, entropy) := ppoProposal E st addr related pos ok result
        let (sid, changed) := (st.view E).springApplyCandidateGuard addr pos.senderPos proposed
        let source := if changed then source ++ "_capacity_guard" else source
        let confidence := if changed then 0 else confidence
        let entropy := if changed then 0 else entropy
        let logProb := if changed then 0 else result.logProb
        let (localReward, loadPenalty) := ppoLocalReward E st pos sid iotCosts
        (commitPlacement (st, s.2) addr sid).map fun s' =>
          let sameAsRelated : Bool :=
            if springIOTEnabled E.p then
              pos.relatedKnown && decide (sid < pos.senderPos.length ∧
                pos.senderPos.getD sid 0 > 1 / 100000000)
            else pos.relatedKnown && decide (pos.relatedShard = some sid)
          let nextPos :=
            springBuildSenderPos E.p s'.1.springAddrShard addr related s'.2 batchRelated
          let nextState := stateVector E s'.1 nextPos extraFeatures
          let s'' : Placing := (s'.1.append ⟨result.batchID, addr, pos.relatedSummary, sid, source,
            confidence, entropy, logProb, result.value, 1, state, actionMask⟩, s'.2)
          -- only an answer of the policy is trained
          if source ≠ "python_ppo" ∨ result.batchID = 0 then (s'', none)
          else
            (s'', some
              { batchID := result.batchID
                address := addr
                related := pos.relatedSummary
                state := state
                nextState := nextState
                action := sid
                logProb := logProb
                value := result.value
                entropy := entropy
                confidence := confidence
                localReward := localReward
                relatedKnown := pos.relatedKnown
                relatedShard := pos.relatedShard
                relatedWeight := pos.relatedWeight
                relatedCount := pos.relatedCount
                senderPos := pos.senderPos
                actionMask := actionMask
                sameAsRelated := sameAsRelated
                relatedInCurrentBatch := pos.relatedInCurrentBatch
                shardLoadBefore := st.springShardLoad.getD sid 0
                shardLoadMeanBefore := springMeanInt st.springShardLoad
                loadPenalty := loadPenalty })

/-! ## Anchors, and what was touched -/

/-- One anchor of `springSeedIOTAnchorShards`. -/
def seedAnchor (s : Placing) (anchor : Address) : Placing :=
  if anchor = "" then s
  else
    match s.1.springAddrShard.lookup anchor with
    | some sid => (s.1, s.2.insert anchor sid)
    | none =>
      let sid := E.addr2Shard anchor
      ({ s.1 with
          springAddrShard := s.1.springAddrShard.insert anchor sid
          seeded := anchor :: s.1.seeded },
        s.2.insert anchor sid)

/-- `springSeedIOTAnchorShards`. -/
def springSeedIOTAnchorShards (s : Placing) (txlist : List Transaction) : Placing :=
  (txlist.flatMap (springIOTAnchorsForTx E.rows)).foldl (seedAnchor E) s

/-- One address of `springFillTouchedPlacement`. -/
def fillTouched (s : Placing) (addr : Address) : Placing :=
  match s.1.springAddrShard.lookup addr with
  | some sid => (s.1, s.2.insert addr sid)
  | none => s

/-- `springFillTouchedPlacement`. -/
def springFillTouchedPlacement (s : Placing) (txlist : List Transaction) : Placing :=
  (txlist.flatMap fun tx => [tx.sender, tx.recipient]).foldl fillTouched s

/-! ## Real accounts -/

/-- `springAccountScene`. -/
structure SpringAccountScene where
  /-- `Features` -/
  features : List ℚ
  /-- `Cost` -/
  cost : ℚ
  /-- `Count` -/
  count : ℕ
  /-- `Peers` -/
  peers : Finset Address

/-- The map that `springRealAccountScenes` builds. -/
abbrev Scenes : Type := Address → Option SpringAccountScene

/-- The closure `add` of `springRealAccountScenes`; more than ten features panic. -/
def Scenes.add (scenes : Scenes) (address peer : Address) (features : List ℚ) (cost : ℚ) :
    Option Scenes :=
  if features.length > 10 then none
  else
    let scene := (scenes address).getD ⟨List.replicate 10 0, 0, 0, ∅⟩
    let sums := scene.features.zipIdx.map fun (old, i) =>
      match features[i]? with
      | none => old
      | some value =>
        -- the third feature is a minimum
        if i = 2 then if scene.count = 0 ∨ value < old then value else old
        else old + value
    some (Function.update scenes address (some
      { features := sums
        cost := scene.cost + cost
        count := scene.count + 1
        peers := insert peer scene.peers }))

/-- The last loop of `springRealAccountScenes`: the sums become means. -/
def SpringAccountScene.mean (scene : SpringAccountScene) : SpringAccountScene :=
  let means := scene.features.zipIdx.map fun (value, i) =>
    if i = 0 then min 1 ((scene.peers.card : ℚ) / 4)
    else if i = 2 then value
    else value / scene.count
  { scene with features := means, cost := scene.cost / scene.count }

/-- One transaction of `springRealAccountScenes`; one without a scene panics. -/
def addScenes (rows : SceneRows) (scenes : Scenes) (tx : Transaction) : Option Scenes :=
  match rows tx.nonce with
  | none => none
  | some feature =>
    if feature.realAccounts = false then none
    else
      (scenes.add tx.sender tx.recipient feature.features
          feature.communicationCostWeight).bind fun scenes =>
        scenes.add tx.recipient tx.sender feature.recipientFeatures
          feature.recipientCommunicationCostWeight

/-- `springRealAccountScenes`. -/
def springRealAccountScenes (rows : SceneRows) (txs : List Transaction) : Option Scenes :=
  (txs.foldlM (addScenes rows) (fun _ => none : Scenes)).map fun (scenes : Scenes) a =>
    (scenes a).map SpringAccountScene.mean

/-- `costRelations`. -/
def realCostRelations (p : SpringConfig) (rows : SceneRows) (txs : List Transaction) : WeightMap :=
  if p.springMechanismVersion = .v3 then
    txs.foldl (fun (relations : WeightMap) tx =>
      let cost := ((rows tx.nonce).map (·.communicationCostWeight)).getD 0
      if tx.sender = tx.recipient then relations
      else (relations.add tx.sender tx.recipient cost).add tx.recipient tx.sender cost) fun _ => ∅
  else fun _ => ∅

/-- `weights`, of the weighted baseline. -/
def realWeights (p : SpringConfig) (txs : List Transaction) : WeightMap :=
  if p.springMode = 6 then
    txs.foldl (fun (weights : WeightMap) tx =>
      let weights := weights.add tx.recipient tx.sender 1
      if p.springSenderPosMode ≠ 1 then weights.add tx.sender tx.recipient 1 else weights) fun _ => ∅
  else fun _ => ∅

/-- `costVector`: the share of each shard in the costs of an address. -/
def costVector (p : SpringConfig) (springAddrShard : AddrShard) (relations : WeightMap)
    (address : Address) : Option (List ℚ) :=
  let costs := (relations address).entries.map fun e => (e.1, e.2)
  let sorted := costs.mergeSort fun e e' => e.1 ≤ e'.1
  let total := (sorted.map (·.2)).sum
  if p.springMechanismVersion = .v3 ∧ total > 1 / 100000000 then
    sorted.foldlM (fun vector (e : Address × ℚ) =>
      -- a peer without a shard adds nothing, though it counts in the total
      match springAddrShard.lookup e.1 with
      | none => some vector
      | some sid => indexAdd vector sid (e.2 / total)) (List.replicate p.shardNum 0)
  else some (List.replicate p.shardNum 0)

/-- What the closure `place` of `springPrepareRealAccountPlacement` goes by. -/
structure RealBatch where
  /-- `batchID` -/
  batchID : ℕ
  /-- `related` -/
  related : RelatedMap
  /-- `scenes` -/
  scenes : Scenes
  /-- `costRelations` -/
  costRelations : WeightMap
  /-- `weights` -/
  weights : WeightMap

/-- The closure `place`, with the actions so far; an address without a scene panics. -/
def placeReal (B : RealBatch) (s : Placing × List SpringTrainAction) (e : Address × Address) :
    Option (Placing × List SpringTrainAction) :=
  let (address, peer) := e
  (B.scenes address).bind fun scene =>
  (costVector E.p s.1.1.springAddrShard B.costRelations address).bind fun vector =>
    let features :=
      if springIOTEnabled E.p then
        if E.p.springMechanismVersion = .v3 then scene.features ++ vector else scene.features
      else []
    let quiet (r : Option Placing) : Option (Placing × List SpringTrainAction) :=
      r.map fun s' => (s', s.2)
    match E.p.springMode with
    | 2 =>
      (springPlaceAddressPPOSequential E s.1 address peer B.related features
        (some (scene.cost :: vector))).map fun r => (r.1, s.2 ++ r.2.toList)
    | 7 =>
      quiet (springPlaceAddressCandidateOnlySequential E B.batchID s.1 address peer B.related
        features)
    | 1 => quiet (springEnsurePlacedWithBatchRelated E s.1 address peer B.related)
    | 5 => quiet (springEnsurePlacedAnchorOnlyWithBatchRelated E s.1 address peer B.related)
    | 6 => quiet (springEnsurePlacedNSShardAdaptedWithBatchWeights E s.1 address peer B.weights)
    | _ => quiet (springEnsurePlaced E s.1 address peer)

/-- The order in which the addresses of a batch are placed, each with its peer: all
senders before all recipients in mode 1 of the sender positions. -/
def placeOrder (p : SpringConfig) (txs : List Transaction) : List (Address × Address) :=
  if p.springSenderPosMode = 1 then
    txs.map (fun tx => (tx.sender, "")) ++ txs.map fun tx => (tx.recipient, tx.sender)
  else
    txs.flatMap fun tx => [(tx.sender, tx.recipient), (tx.recipient, tx.sender)]

/-- The call of `springEnqueueTrainActionsLocked` at the end of a batch. -/
def enqueue (st : PlacementState) (batchID : ℕ) (actions : List SpringTrainAction)
    (txs : List Transaction) : PlacementState :=
  if E.p.springOnlineTrain = 1 ∧ actions ≠ [] then
    { st with
      enqueued := st.enqueued ++ [
        { batchID := batchID
          actions := actions
          txStartNonce := (txs.head?.map (·.nonce)).getD 0
          txEndNonce := (txs.getLast?.map (·.nonce)).getD 0
          txCount := txs.length }] }
  else st

/-- `springPrepareRealAccountPlacement`. -/
def springPrepareRealAccountPlacement (st : PlacementState) (txs : List Transaction) :
    Option Placing :=
  if E.p.springMode = 0 then some (st, ∅)
  else if E.p.springSenderPosMode ≠ 0 ∧ E.p.springSenderPosMode ≠ 1 then none
  else
    (springRealAccountScenes E.rows txs).bind fun scenes =>
      let st := { st with springTxBatchSeq := st.springTxBatchSeq + 1 }
      let B : RealBatch :=
        { batchID := st.springTxBatchSeq
          related := springBuildBatchRelatedMap E.p txs
          scenes := scenes
          costRelations := realCostRelations E.p E.rows txs
          weights := realWeights E.p txs }
      ((placeOrder E.p txs).foldlM (placeReal E B) ((st, ∅), [])).map fun r =>
        let st := if E.p.springMode = 2 then enqueue E r.1.1 B.batchID r.2 txs else r.1.1
        springFillTouchedPlacement (st, r.1.2) txs

/-! ## One batch -/

/-- `springPreparePlacementPPOBatch`. -/
def springPreparePlacementPPOBatch (s : Placing) (txlist : List Transaction) : Option Placing :=
  let st := { s.1 with springTxBatchSeq := s.1.springTxBatchSeq + 1 }
  let txBatchID := st.springTxBatchSeq
  let actions :=
    if springIOTIdentityEnabled E.p then
      let batchRelated := springBuildIOTBatchRelatedMap E.rows txlist
      txlist.foldlM (fun (s : Placing × List SpringTrainAction) tx =>
        let feature := E.rows tx.nonce
        let extraFeatures :=
          if springIOTEnabled E.p then (feature.map (·.features)).getD [] else []
        let cost := (feature.map (·.communicationCostWeight)).getD 0
        (springPlaceAddressPPOSequential E s.1 tx.sender tx.recipient batchRelated extraFeatures
          (some [cost])).map fun r => (r.1, s.2 ++ r.2.toList))
        (springSeedIOTAnchorShards E (st, s.2) txlist, [])
    else
      let batchRelated := springBuildBatchRelatedMap E.p txlist
      (placeOrder E.p txlist).foldlM (fun (s : Placing × List SpringTrainAction) e =>
        (springPlaceAddressPPOSequential E s.1 e.1 e.2 batchRelated [] none).map fun r =>
          (r.1, s.2 ++ r.2.toList)) ((st, s.2), [])
  actions.map fun r => (enqueue E r.1.1 txBatchID r.2 txlist, r.1.2)

/-- `springPreparePlacementCandidateOnlyBatch`. -/
def springPreparePlacementCandidateOnlyBatch (s : Placing) (txlist : List Transaction) :
    Option Placing :=
  let st := { s.1 with springTxBatchSeq := s.1.springTxBatchSeq + 1 }
  let txBatchID := st.springTxBatchSeq
  if springIOTIdentityEnabled E.p then
    let batchRelated := springBuildIOTBatchRelatedMap E.rows txlist
    txlist.foldlM (fun s tx =>
      let extraFeatures :=
        if springIOTEnabled E.p then ((E.rows tx.nonce).map (·.features)).getD [] else []
      springPlaceAddressCandidateOnlySequential E txBatchID s tx.sender tx.recipient batchRelated
        extraFeatures) (springSeedIOTAnchorShards E (st, s.2) txlist)
  else
    let batchRelated := springBuildBatchRelatedMap E.p txlist
    (placeOrder E.p txlist).foldlM (fun s e =>
      springPlaceAddressCandidateOnlySequential E txBatchID s e.1 e.2 batchRelated []) (st, s.2)

/-- The loop of the baselines over raw addresses: both ends of every transaction. -/
def ensureBothPlaced (s : Placing) (txlist : List Transaction) : Option Placing :=
  (txlist.flatMap fun tx => [(tx.sender, tx.recipient), (tx.recipient, tx.sender)]).foldlM
    (fun s e => springEnsurePlaced E s e.1 e.2) s

/-- The loop of the baselines over state objects: the anchors are seeded, then every
sender is placed. -/
def ensureSendersPlaced (place : Placing → Transaction → Option Placing) (s : Placing)
    (txlist : List Transaction) : Option Placing :=
  txlist.foldlM place (springSeedIOTAnchorShards E s txlist)

/-- `springPreparePlacement`. -/
def springPreparePlacement (st : PlacementState) (txlist : List Transaction) : Option Placing :=
  if springRealAccountsEnabled E.p then springPrepareRealAccountPlacement E st txlist
  else
    let s : Placing := (st, ∅)
    let iot := springIOTIdentityEnabled E.p
    let filled (r : Option Placing) : Option Placing :=
      r.map fun s => springFillTouchedPlacement s txlist
    match E.p.springMode with
    | 0 => some s
    | 1 =>
      if iot then
        let batchRelated := springBuildIOTBatchRelatedMap E.rows txlist
        filled (ensureSendersPlaced E (fun s tx =>
          springEnsurePlacedWithBatchRelated E s tx.sender tx.recipient batchRelated) s txlist)
      else filled (ensureBothPlaced E s txlist)
    | 2 => filled (springPreparePlacementPPOBatch E s txlist)
    | 5 =>
      if iot then
        let batchRelated := springBuildIOTBatchRelatedMap E.rows txlist
        filled (ensureSendersPlaced E (fun s tx =>
          springEnsurePlacedAnchorOnlyWithBatchRelated E s tx.sender tx.recipient batchRelated)
          s txlist)
      else filled (ensureBothPlaced E s txlist)
    | 6 =>
      if iot then
        let batchRelatedWeights := springBuildIOTBatchRelatedWeightMap E.rows txlist
        filled (ensureSendersPlaced E (fun s tx =>
          springEnsurePlacedNSShardAdaptedWithBatchWeights E s tx.sender tx.recipient
            batchRelatedWeights) s txlist)
      else filled (ensureBothPlaced E s txlist)
    | 7 => filled (springPreparePlacementCandidateOnlyBatch E s txlist)
    | 3 | 4 =>
      if iot then
        filled (ensureSendersPlaced E (fun s tx =>
          springEnsurePlaced E s tx.sender tx.recipient) s txlist)
      else filled (ensureBothPlaced E s txlist)
    | _ => ensureBothPlaced E s txlist

end BlockEmulator
