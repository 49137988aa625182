import BlockEmulator.SpringCandidate
import Mathlib.Data.Rat.Floor

/-!
# Placing addresses (`committee_relay.go`, `spring_iot.go`, `spring_iot_v2.go`)

The supervisor places every address of a batch before it sends the batch. The policy
depends on `SpringMode`; the identities are raw addresses, addresses of the scene data
whose anchors are placed by hash, or the real accounts of the second data set.

A call may panic: `none`. Logging is left out, and so is the wall-clock time of an
inference. `springShardLoad` has one entry for each shard from the start on; where the
source reads an entry, an absent one is read as zero.

* `PlacementState` — what the calls work on; `seeded` is no part of the source: it
  notes which addresses were placed as anchors.
* `springPreparePlacement` — one batch.
-/

namespace BlockEmulator

/-! ## Data -/

/-- `SpringBatchInferItem`. -/
structure SpringBatchInferItem where
  /-- `Address` -/
  address : Address
  /-- `Related` -/
  related : String
  /-- `State` -/
  state : List ℚ
  /-- `ActionMask` -/
  actionMask : List ℕ

/-- `SpringBatchInferResult`, without the texts that are not read. -/
structure SpringBatchInferResult where
  /-- `Shard` -/
  shard : ℤ
  /-- `Source` -/
  source : String
  /-- `Confidence` -/
  confidence : ℚ
  /-- `Entropy` -/
  entropy : ℚ
  /-- `BatchID` -/
  batchID : ℕ
  /-- `LogProb` -/
  logProb : ℚ
  /-- `Value` -/
  value : ℚ

/-- The zero value. -/
def SpringBatchInferResult.zero : SpringBatchInferResult := ⟨0, "", 0, 0, 0, 0, 0⟩

/-- `SpringDecisionRecord`, without the times and what is a function of the rest. -/
structure SpringDecisionRecord where
  /-- `BatchID` -/
  batchID : ℕ
  /-- `Address` -/
  address : Address
  /-- `Related` -/
  related : String
  /-- `Shard` -/
  shard : ℕ
  /-- `Source` -/
  source : String
  /-- `Confidence` -/
  confidence : ℚ
  /-- `Entropy` -/
  entropy : ℚ
  /-- `LogProb` -/
  logProb : ℚ
  /-- `Value` -/
  value : ℚ
  /-- `BatchSize` -/
  batchSize : ℕ
  /-- `State` -/
  state : List ℚ
  /-- `ActionMask` -/
  actionMask : List ℕ

/-- `SpringTrainAction`, as the placement fills it. -/
structure SpringTrainAction where
  /-- `BatchID` -/
  batchID : ℕ
  /-- `Address` -/
  address : Address
  /-- `Related` -/
  related : String
  /-- `State` -/
  state : List ℚ
  /-- `NextState` -/
  nextState : List ℚ
  /-- `Action`, and `ChosenShard` -/
  action : ℕ
  /-- `LogProb` -/
  logProb : ℚ
  /-- `Value` -/
  value : ℚ
  /-- `Entropy` -/
  entropy : ℚ
  /-- `Confidence` -/
  confidence : ℚ
  /-- `LocalReward` -/
  localReward : ℚ
  /-- `RelatedKnown` -/
  relatedKnown : Bool
  /-- `RelatedShard` -/
  relatedShard : Option ℕ
  /-- `RelatedWeight` -/
  relatedWeight : ℚ
  /-- `RelatedCount` -/
  relatedCount : ℕ
  /-- `SenderPos` -/
  senderPos : List ℚ
  /-- `ActionMask` -/
  actionMask : List ℕ
  /-- `SameAsRelated` -/
  sameAsRelated : Bool
  /-- `RelatedInCurrentBatch` -/
  relatedInCurrentBatch : Bool
  /-- `ShardLoadBefore` -/
  shardLoadBefore : ℕ
  /-- `ShardLoadMeanBefore` -/
  shardLoadMeanBefore : ℚ
  /-- `LoadPenalty` -/
  loadPenalty : ℚ

/-- The arguments of a call of `springEnqueueTrainActionsLocked`. -/
structure EnqueuedActions where
  /-- `batchID` -/
  batchID : ℕ
  /-- `actions` -/
  actions : List SpringTrainAction
  /-- `txStartNonce` -/
  txStartNonce : ℕ
  /-- `txEndNonce` -/
  txEndNonce : ℕ
  /-- `txCount` -/
  txCount : ℕ

/-- What the placement goes by: the parameters, the scene data, and what comes from
outside the repository. -/
structure SpringEnv (H : Type) where
  /-- the hash functions -/
  hash : HashFns H
  /-- the parameters -/
  p : SpringConfig
  /-- `springIOTByTxIndex` -/
  rows : SceneRows
  /-- `math.Log1p` -/
  log1p : ℚ → ℚ
  /-- `rand.Rand.Intn`: the draw of some number, below a bound -/
  intn : ℕ → ℕ → ℕ
  /-- `springCallPythonBatch` on one item: `none` where the call fails -/
  callPython : ℕ → SpringBatchInferItem → Option (List SpringBatchInferResult)

/-- The part of `RelayCommitteeModule` that the placement works on. -/
structure PlacementState where
  /-- `springAddrShard` -/
  springAddrShard : AddrShard
  /-- `springShardLoad` -/
  springShardLoad : List ℕ
  /-- `springStats` -/
  springStats : ℕ → List SpringBlockStat
  /-- `springRandom`: the number of draws so far -/
  springRandom : ℕ
  /-- `springActionSeq` -/
  springActionSeq : ℕ
  /-- `springTxBatchSeq` -/
  springTxBatchSeq : ℕ
  /-- the lines of `decision_records.jsonl` -/
  decisionRecords : List SpringDecisionRecord
  /-- the calls of `springEnqueueTrainActionsLocked` -/
  enqueued : List EnqueuedActions
  /-- the addresses that were placed as anchors -/
  seeded : List Address

/-- `NewRelayCommitteeModule`. -/
def PlacementState.new (p : SpringConfig) : PlacementState where
  springAddrShard := ∅
  springShardLoad := List.replicate p.shardNum 0
  springStats := fun _ => []
  springRandom := 0
  springActionSeq := 0
  springTxBatchSeq := 0
  decisionRecords := []
  enqueued := []
  seeded := []

/-- A call in progress: the module and `batchPlacement`. -/
abbrev Placing : Type := PlacementState × BatchPlacement

variable {H : Type}

/-- `springIOTEnabled`. -/
def springIOTEnabled (p : SpringConfig) : Bool := p.springIOTMode = 1

/-- `springRealAccountsEnabled`. -/
def springRealAccountsEnabled (p : SpringConfig) : Bool := p.springIOTIdentityMode = 2

/-- `springIOTIdentityEnabled`. -/
def springIOTIdentityEnabled (p : SpringConfig) : Bool :=
  p.springIOTMode = 1 ∨ p.springIOTIdentityMode = 1 ∨ springRealAccountsEnabled p

/-- `utils.Addr2Shard`. -/
def SpringEnv.addr2Shard (E : SpringEnv H) (addr : Address) : ℕ :=
  addr2ShardWithShardNum E.hash addr E.p.shardNum

/-- The three writes of every placement; an index out of range panics. -/
def commitPlacement (s : Placing) (addr : Address) (sid : ℕ) : Option Placing :=
  if sid < s.1.springShardLoad.length then
    some ({ s.1 with
        springAddrShard := s.1.springAddrShard.insert addr sid
        springShardLoad := s.1.springShardLoad.modify sid (· + 1) },
      s.2.insert addr sid)
  else none

/-- `springAppendDecisionRecord`. -/
def PlacementState.append (st : PlacementState) (record : SpringDecisionRecord) :
    PlacementState :=
  { st with decisionRecords := st.decisionRecords ++ [record] }

/-! ## The policies -/

section

variable (E : SpringEnv H)

/-- What the candidate functions read. -/
def PlacementState.view (st : PlacementState) : CandidateView where
  p := E.p
  addr2Shard := E.addr2Shard
  springShardLoad := st.springShardLoad
  springStats := st.springStats

/-- `springChooseShard`. -/
def springChooseShard (st : PlacementState) (addr related : Address) : ℕ :=
  let relatedSid := if related = "" then none else st.springAddrShard.lookup related
  let hashSid := E.addr2Shard addr
  (bestOf (fun sid =>
    some ((if relatedSid = some sid then 1000 else 0) - (st.springShardLoad.getD sid 0 : ℤ) +
      if sid = hashSid then 1 else 0)) E.p.shardNum).1

/-- `springChooseShardFromSenderPos`. -/
def springChooseShardFromSenderPos (st : PlacementState) (addr : Address) (senderPos : List ℚ) :
    ℕ :=
  let hashSid := E.addr2Shard addr
  (bestOf (fun sid =>
    let score := senderPos.getD sid 0 * 1000 - (st.springShardLoad.getD sid 0 : ℚ)
    some (if sid = hashSid then score + 1 / 1000 else score)) E.p.shardNum).1

/-- `springChooseShardRandom`, with the generator after it. -/
def springChooseShardRandom (st : PlacementState) : ℕ × PlacementState :=
  if E.p.shardNum = 0 then (0, st)
  else (E.intn st.springRandom E.p.shardNum, { st with springRandom := st.springRandom + 1 })

/-- `springChooseShardMinState`: the first shard with the least load. -/
def springChooseShardMinState (st : PlacementState) : ℕ :=
  (bestOf (fun sid => some (-(st.springShardLoad.getD sid 0 : ℤ))) E.p.shardNum).1

/-- `springChooseShardAnchorOnly`. -/
def springChooseShardAnchorOnly (st : PlacementState) (addr related : Address) : ℕ :=
  match if related = "" then none else st.springAddrShard.lookup related with
  | some sid => sid
  | none => E.addr2Shard addr

/-- `springChooseShardAnchorOnlyFromSenderPos`. -/
def springChooseShardAnchorOnlyFromSenderPos (addr : Address) (senderPos : List ℚ) : ℕ :=
  let hashSid := E.addr2Shard addr
  ((List.range E.p.shardNum).foldl (fun (best : ℕ × ℚ) sid =>
    let score := senderPos.getD sid 0
    if score > best.2 ∨ (score = best.2 ∧ sid = hashSid) then (sid, score) else best)
    (hashSid, 0)).1

/-- `springNSShardCapacityLimit`. -/
def springNSShardCapacityLimit (st : PlacementState) : ℕ :=
  if E.p.shardNum = 0 then 1
  else
    let factor :=
      if E.p.springNSShardCapacityFactor < 1 then 1 else E.p.springNSShardCapacityFactor
    let limit := ⌈((st.springShardLoad.sum + 1 : ℕ) : ℚ) * factor / E.p.shardNum⌉₊
    if limit < 1 then 1 else limit

/-- `springNSShardCapacityScore`. -/
def springNSShardCapacityScore (st : PlacementState) (sid capacityLimit : ℕ) : ℚ :=
  if capacityLimit = 0 then 0
  else springClamp (1 - (st.springShardLoad.getD sid 0 : ℚ) / capacityLimit) 0 1

/-- What the loop of `springChooseShardNSShardAdaptedFromSenderPos` keeps; its scores and
its load start beyond all others, `none`. -/
structure NSShardBest where
  /-- `bestSid` -/
  bestSid : ℕ
  /-- `bestScore` -/
  bestScore : ℚ
  /-- `bestRelatedScore` -/
  bestRelatedScore : ℚ
  /-- `bestLoad` -/
  bestLoad : ℕ

/-- The comparison of that loop. -/
def nsShardBetter (hashSid sid : ℕ) (score relatedScore : ℚ) (load : ℕ) (best : NSShardBest) :
    Bool :=
  let tol : ℚ := 1 / 1000000000000
  let sameScore := |score - best.bestScore| ≤ tol
  let sameRelated := |relatedScore - best.bestRelatedScore| ≤ tol
  score > best.bestScore + tol ∨
    (sameScore ∧ relatedScore > best.bestRelatedScore + tol) ∨
    (sameScore ∧ sameRelated ∧ load < best.bestLoad) ∨
    (sameScore ∧ sameRelated ∧ load = best.bestLoad ∧ sid = hashSid)

/-- `springChooseShardNSShardAdaptedFromSenderPos`. -/
def springChooseShardNSShardAdaptedFromSenderPos (st : PlacementState) (addr : Address)
    (senderPos : List ℚ) (relatedKnown : Bool) : ℕ :=
  if relatedKnown = false then springChooseShardMinState E st
  else
    let hashSid := E.addr2Shard addr
    let capacityLimit := springNSShardCapacityLimit E st
    let best := (List.range E.p.shardNum).foldl (fun (best : Option NSShardBest) sid =>
      let relatedScore := senderPos.getD sid 0
      if relatedScore ≤ 0 then best
      else
        let score := relatedScore * springNSShardCapacityScore st sid capacityLimit
        let load := st.springShardLoad.getD sid 0
        match best with
        | none => some ⟨sid, score, relatedScore, load⟩
        | some b =>
          if nsShardBetter hashSid sid score relatedScore load b then
            some ⟨sid, score, relatedScore, load⟩
          else best) none
    match best with
    | none => springChooseShardMinState E st
    -- every related shard is full
    | some b => if b.bestScore ≤ 0 then springChooseShardMinState E st else b.bestSid

/-- The call of the inference server, with the sequence number after it. -/
def springCallPythonBatch (st : PlacementState) (item : SpringBatchInferItem) :
    Option (List SpringBatchInferResult) × PlacementState :=
  (E.callPython (st.springActionSeq + 1) item, { st with springActionSeq := st.springActionSeq + 1 })

/-- `springChooseShardPPO`, the entry for a single address. -/
def springChooseShardPPO (st : PlacementState) (addr related : Address) : ℕ × PlacementState :=
  let state := springBuildState E.log1p E.p st.springStats st.springAddrShard related ∅
  let (results, st) := springCallPythonBatch E st ⟨addr, related, state, []⟩
  let fallback : ℕ × PlacementState :=
    let sid := springChooseShard E st addr related
    (sid, st.append
      ⟨0, addr, related, sid, "go_heuristic_fallback", 0, 0, 0, 0, 1, state, []⟩)
  match results with
  | some [output] =>
    -- an answer that names no shard is not used
    if 0 ≤ output.shard ∧ output.shard < E.p.shardNum then
      let sid := output.shard.toNat
      let source := if output.source = "" then "python_ppo" else output.source
      (sid, st.append
        ⟨output.batchID, addr, related, sid, source, output.confidence, output.entropy,
          output.logProb, output.value, 1, state, []⟩)
    else fallback
  | _ => fallback

end

end BlockEmulator
