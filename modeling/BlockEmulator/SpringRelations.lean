import BlockEmulator.OfflineLoads
import Mathlib.Data.Finset.Sort
import Mathlib.Data.String.Basic

/-!
# What a placement decision looks at

The relations of the addresses in a batch, the distribution of the related addresses
over the shards (`sender_pos`), and the state vector that is recorded and sent to Python.

* Go maps of sets are functions to finite sets; a map that is iterated is sorted first
  by the source, so nothing depends on its order.
* `springBuildSenderPos` — the distribution, from the placements of the batch first and
  the table next.
-/

namespace BlockEmulator

/-! ## The relations of a batch -/

/-- `map[string]map[string]bool`. -/
abbrev RelatedMap : Type := Address → Finset Address

/-- `map[string]map[string]float64`. -/
abbrev WeightMap : Type := Address → AList fun _ : Address => ℚ

/-- `batchPlacement`. -/
abbrev BatchPlacement : Type := AList fun _ : Address => ℕ

/-- The closure `add` of `springBuildBatchRelatedMap`. -/
def RelatedMap.add (related : RelatedMap) (a b : Address) : RelatedMap :=
  if a = "" ∨ b = "" ∨ a = b then related else Function.update related a (insert b (related a))

/-- `m[a][b] += weight`. -/
def WeightMap.add (weights : WeightMap) (a b : Address) (weight : ℚ) : WeightMap :=
  Function.update weights a ((weights a).insert b (((weights a).lookup b).getD 0 + weight))

/-- `springBuildBatchRelatedMap`. -/
def springBuildBatchRelatedMap (p : SpringConfig) (txlist : List Transaction) : RelatedMap :=
  txlist.foldl (fun related tx =>
    if p.springSenderPosMode = 1 then related.add tx.recipient tx.sender
    else (related.add tx.sender tx.recipient).add tx.recipient tx.sender) fun _ => ∅

/-- `springIOTAnchorsForTx`. -/
def springIOTAnchorsForTx (rows : SceneRows) (tx : Transaction) : List Address :=
  let anchors := ((rows tx.nonce).map (·.anchorObjects)).getD []
  if anchors ≠ [] then anchors
  else if tx.recipient ≠ "" then [tx.recipient]
  else []

/-- `springIOTAnchorWeightsForTx`. -/
def springIOTAnchorWeightsForTx (rows : SceneRows) (tx : Transaction) (anchorCount : ℕ) :
    List ℚ :=
  let weights := ((rows tx.nonce).map (·.anchorWeights)).getD []
  if anchorCount = 0 then []
  else if (rows tx.nonce).isSome ∧ weights.length = anchorCount then weights
  else List.replicate anchorCount (1 / (anchorCount : ℚ))

/-- `springBuildIOTBatchRelatedMap`. -/
def springBuildIOTBatchRelatedMap (rows : SceneRows) (txlist : List Transaction) : RelatedMap :=
  txlist.foldl (fun related tx =>
    (springIOTAnchorsForTx rows tx).foldl (fun related anchor =>
      related.add tx.sender anchor) related) fun _ => ∅

/-- `springBuildIOTBatchRelatedWeightMap`. -/
def springBuildIOTBatchRelatedWeightMap (rows : SceneRows) (txlist : List Transaction) :
    WeightMap :=
  txlist.foldl (fun related tx =>
    if tx.sender = "" then related
    else
      let anchors := springIOTAnchorsForTx rows tx
      let weights := springIOTAnchorWeightsForTx rows tx anchors.length
      anchors.zipIdx.foldl (fun related (anchor, idx) =>
        let weight := weights.getD idx 1
        if anchor = "" ∨ anchor = tx.sender ∨ weight ≤ 0 then related
        else related.add tx.sender anchor weight) related) fun _ => ∅

/-! ## The distribution of the related addresses -/

/-- What `springBuildSenderPos` returns. -/
structure SenderPos where
  /-- `senderPos` -/
  senderPos : List ℚ
  /-- `relatedSummary` -/
  relatedSummary : String
  /-- `relatedKnown` -/
  relatedKnown : Bool
  /-- `majorShard`; `-1` is `none` -/
  relatedShard : Option ℕ
  /-- `relatedWeight` -/
  relatedWeight : ℚ
  /-- `relatedInCurrentBatch` -/
  relatedInCurrentBatch : Bool
  /-- `len(relatedKeys)` -/
  relatedCount : ℕ
  deriving DecidableEq

/-- `relatedSummary`: the first eight keys, and how many more there are. -/
def relatedSummary (relatedKeys : List Address) : String :=
  let summary := String.intercalate "," (relatedKeys.take 8)
  if relatedKeys.length > 8 then summary ++ ",+" ++ toString (relatedKeys.length - 8) else summary

/-- `sort.Strings` over the keys of a set. -/
def sortedAddresses (s : Finset Address) : List Address := s.sort (· ≤ ·)

/-- The counters of the loop of `springBuildSenderPos`. -/
structure SenderCount where
  /-- `shardCounts` -/
  shardCounts : List ℕ
  /-- `knownCount` -/
  knownCount : ℕ
  /-- `relatedInCurrentBatch` -/
  relatedInCurrentBatch : Bool

/-- One related address: the batch decides, and else the table. -/
def countPeer (shardNum : ℕ) (batchPlacement : BatchPlacement) (springAddrShard : AddrShard)
    (c : SenderCount) (peer : Address) : SenderCount :=
  -- what this batch has placed comes before the table
  match (batchPlacement.lookup peer).filter (· < shardNum) with
  | some sid =>
    { shardCounts := c.shardCounts.modify sid (· + 1)
      knownCount := c.knownCount + 1
      relatedInCurrentBatch := true }
  | none =>
    match (springAddrShard.lookup peer).filter (· < shardNum) with
    | some sid =>
      { c with
        shardCounts := c.shardCounts.modify sid (· + 1)
        knownCount := c.knownCount + 1 }
    | none => c

/-- The first index with the greatest positive entry, and that entry. -/
def majorOf {α : Type} [LT α] [DecidableLT α] [Zero α] (l : List α) : Option ℕ × α :=
  l.zipIdx.foldl (fun (m : Option ℕ × α) (e : α × ℕ) => if m.2 < e.1 then (some e.2, e.1) else m)
    (none, 0)

/-- `relatedSet` of `springBuildSenderPos`. -/
def relatedSet (p : SpringConfig) (addr fallbackRelated : Address) (batchRelated : RelatedMap) :
    Finset Address :=
  if fallbackRelated ≠ "" ∧ (p.springSenderPosMode ≠ 1 ∨ batchRelated addr = ∅) then
    insert fallbackRelated (batchRelated addr)
  else batchRelated addr

/-- `springBuildSenderPos`. -/
def springBuildSenderPos (p : SpringConfig) (springAddrShard : AddrShard)
    (addr fallbackRelated : Address) (batchPlacement : BatchPlacement)
    (batchRelated : RelatedMap) : SenderPos :=
  let relatedKeys := sortedAddresses (relatedSet p addr fallbackRelated batchRelated)
  let c := relatedKeys.foldl (countPeer p.shardNum batchPlacement springAddrShard)
    ⟨List.replicate p.shardNum 0, 0, false⟩
  let major := majorOf c.shardCounts
  let known := c.knownCount > 0
  { senderPos :=
      if known then c.shardCounts.map fun (count : ℕ) => (count : ℚ) / c.knownCount
      else List.replicate p.shardNum 0
    relatedSummary := relatedSummary relatedKeys
    relatedKnown := known ∧ major.1.isSome
    relatedShard := major.1
    relatedWeight := if known then (major.2 : ℚ) / c.knownCount else 0
    relatedInCurrentBatch := c.relatedInCurrentBatch
    relatedCount := relatedKeys.length }

/-! ## The weighted distribution of the NSshard baseline -/

/-- What `springBuildNSShardWeightedSenderPos` returns. -/
structure WeightedSenderPos where
  /-- `senderPos` -/
  senderPos : List ℚ
  /-- `relatedSummary` -/
  relatedSummary : String
  /-- `totalKnownWeight > 0` -/
  relatedKnown : Bool
  /-- `majorShard`; `-1` is `none` -/
  majorShard : Option ℕ
  /-- `majorWeight` -/
  majorWeight : ℚ

/-- One related address with its weight: the weights of the shards, and their total. -/
def weighPeer (shardNum : ℕ) (batchPlacement : BatchPlacement) (springAddrShard : AddrShard)
    (w : List ℚ × ℚ) (e : Address × ℚ) : List ℚ × ℚ :=
  if e.2 ≤ 0 then w
  else
    match (batchPlacement.lookup e.1).filter (· < shardNum) with
    | some sid => (w.1.modify sid (· + e.2), w.2 + e.2)
    | none =>
      match (springAddrShard.lookup e.1).filter (· < shardNum) with
      | some sid => (w.1.modify sid (· + e.2), w.2 + e.2)
      | none => w

/-- `springBuildNSShardWeightedSenderPos`. -/
def springBuildNSShardWeightedSenderPos (p : SpringConfig) (springAddrShard : AddrShard)
    (addr fallbackRelated : Address) (batchPlacement : BatchPlacement)
    (batchRelatedWeights : WeightMap) : WeightedSenderPos :=
  let peers := ((batchRelatedWeights addr).entries.map fun e => (e.1, e.2)).filter fun e =>
    e.1 ≠ "" ∧ 0 < e.2
  let relatedWeights :=
    if peers = [] ∧ fallbackRelated ≠ "" then [(fallbackRelated, (1 : ℚ))] else peers
  let relatedKeys := relatedWeights.mergeSort fun e e' => e.1 ≤ e'.1
  let w := relatedKeys.foldl (weighPeer p.shardNum batchPlacement springAddrShard)
    (List.replicate p.shardNum 0, 0)
  let major := majorOf w.1
  { senderPos :=
      if 0 < w.2 then w.1.map (· / w.2) else List.replicate p.shardNum 0
    relatedSummary := relatedSummary (relatedKeys.map (·.1))
    relatedKnown := 0 < w.2
    majorShard := if 0 < w.2 then major.1 else none
    majorWeight := if 0 < w.2 then major.2 else 0 }

/-! ## The state vector -/

/-- `springGetStat`. -/
def springGetStat (springStats : ℕ → List SpringBlockStat) (sid back : ℕ) : SpringBlockStat :=
  let arr := springStats sid
  if back < arr.length then arr.getD (arr.length - 1 - back) .zero else .zero

section

variable (log1p : ℚ → ℚ) (p : SpringConfig)

/-- `springNormalizeStateValue`. -/
def springNormalizeStateValue (v : ℚ) : ℚ :=
  let denom : ℚ :=
    if p.txBatchSize > p.maxBlockSizeGlobal then p.txBatchSize else p.maxBlockSizeGlobal
  let denom := if denom ≤ 0 then 100 else denom
  springClamp (log1p v / log1p (denom * 4)) 0 1

/-- `springConfiguredIOTFeatureDim`. -/
def springConfiguredIOTFeatureDim : ℕ :=
  if p.springIOTMode ≠ 1 then 0 else if p.springIOTFeatureDim = 0 then 10 else p.springIOTFeatureDim

/-- `springAddressFlagFromRelatedCount`. -/
def springAddressFlagFromRelatedCount (relatedCount : ℕ) : ℚ := if relatedCount ≥ 4 then 1 else 0

/-- `springBuildStateFromSenderPos`. -/
def springBuildStateFromSenderPos (springStats : ℕ → List SpringBlockStat)
    (springShardLoad : List ℕ) (senderPos : List ℚ) (flag : ℚ) (extraFeatures : List ℚ) :
    List ℚ :=
  let shards := List.range p.shardNum
  let featureDim :=
    (if p.springIOTMode = 1 ∧ springConfiguredIOTFeatureDim p > 0 then
      springConfiguredIOTFeatureDim p else extraFeatures.length) +
    if p.springMechanismVersion = .v3 then p.shardNum else 0
  let num := [4, 3, 2, 1, 0].flatMap fun back => shards.map fun sid =>
    springNormalizeStateValue log1p p (springGetStat springStats sid back).numTx
  let cross := [4, 3, 2, 1, 0].flatMap fun back => shards.map fun sid =>
    springNormalizeStateValue log1p p (springGetStat springStats sid back).crossTx
  let pos := shards.map fun sid => springClamp (senderPos.getD sid 0) 0 1
  let flags := if p.springMechanismVersion ≠ .v3 then [if flag ≠ 0 then 1 else flag] else []
  let totalLoad := springShardLoad.sum
  let currentLoad :=
    if p.springIOTMode = 1 ∧ featureDim > 0 then
      shards.map fun sid =>
        springClamp
          (if totalLoad > 0 then (springShardLoad.getD sid 0 : ℚ) / totalLoad else 0) 0 1
    else []
  let features := (List.range featureDim).map fun idx =>
    let feature := extraFeatures.getD idx 0
    springClamp
      (if p.springMechanismVersion = .v3 ∧ p.springFeatureMode = .noIot ∧ idx > 0 then 0
        else feature) 0 1
  num ++ cross ++ pos ++ flags ++ currentLoad ++ features

/-- `springBuildState`, of the single-address entry. -/
def springBuildState (springStats : ℕ → List SpringBlockStat) (springAddrShard : AddrShard)
    (related : Address) (batchPlacement : BatchPlacement) : List ℚ :=
  let shards := List.range p.shardNum
  let num := [4, 3, 2, 1, 0].flatMap fun back => shards.map fun sid =>
    springNormalizeStateValue log1p p (springGetStat springStats sid back).numTx
  let cross := [4, 3, 2, 1, 0].flatMap fun back => shards.map fun sid =>
    springNormalizeStateValue log1p p (springGetStat springStats sid back).crossTx
  let relatedSid :=
    if related = "" then none
    else (batchPlacement.lookup related).or (springAddrShard.lookup related)
  num ++ cross ++ (shards.map fun sid => if relatedSid = some sid then 1 else 0) ++ [0]

end

end BlockEmulator
