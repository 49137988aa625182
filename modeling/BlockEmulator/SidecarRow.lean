import BlockEmulator.SidecarCells
import BlockEmulator.SpringParams

/-!
# A sidecar row in Go (`supervisor/committee/spring_iot.go`)

A row of the sidecar file gives a transaction its state object, its anchors with their
weights, ten features and a cost.

* `priorFrequency` is left out: nothing reads it.
* Where the source writes to a slice that it was handed, nobody reads that slice again.
* `springIOTFeatureFromRow_length` — a row has ten features.
* `springIOTRawWeights_ne_nil` — there is always a weight.
-/

namespace BlockEmulator

/-- The groups of anchors, `springIOTAnchorTypeOrder`. -/
inductive AnchorType
  | device
  | gateway
  | cloudEndpoint
  | localEndpoint
  | privateEndpoint
  | serviceGroup
  deriving DecidableEq

/-- `springIOTAnchorTypeOrder`, and `IOT_ANCHOR_TYPE_ORDER`. -/
def anchorTypeOrder : List AnchorType :=
  [.device, .gateway, .cloudEndpoint, .localEndpoint, .privateEndpoint, .serviceGroup]

/-! ## Texts -/

section

variable (T : TextTables) (row : SidecarRow)

/-- `springIOTProtocol`. -/
def springIOTProtocol : List Char :=
  let protocol := stringsToLower T (springIOTCleanCell (row "protocol"))
  if protocol = [] then "none".toList else protocol

/-- `springIOTDeviceKey`. -/
def springIOTDeviceKey : List Char :=
  let label := springIOTCleanCell (row "device_label")
  let label := if label = [] then "unknown_device".toList else label
  let mac := stringsToLower T (springIOTCleanCell (row "device_mac"))
  let mac := if mac = [] then "unknown_mac".toList else mac
  stringsToLower T label ++ ":".toList ++ mac

/-- `springIOTNormalizeEndpoint`. -/
def springIOTNormalizeEndpoint (value : List Char) : List Char :=
  let text := stringsToLower T (springIOTCleanCell value)
  if text = [] then "unknown_peer".toList else text

/-- `springIOTIsPrivateIP`. -/
def springIOTIsPrivateIP (value : List Char) : Bool := T.isPrivate (springIOTCleanCell value)

/-- `springIOTChoosePeer`. -/
def springIOTChoosePeer : List Char :=
  let srcIP := springIOTCleanCell (row "srcIp")
  let dstIP := springIOTCleanCell (row "dstIp")
  if springIOTIsPrivateIP T srcIP ∧ !springIOTIsPrivateIP T dstIP then
    springIOTNormalizeEndpoint T dstIP
  else if springIOTIsPrivateIP T dstIP ∧ !springIOTIsPrivateIP T srcIP then
    springIOTNormalizeEndpoint T srcIP
  else if dstIP ≠ [] then springIOTNormalizeEndpoint T dstIP
  else if srcIP ≠ [] then springIOTNormalizeEndpoint T srcIP
  else
    let peer := springIOTCleanCell (row "to_address")
    if peer = [] then "unknown_peer".toList else peer

/-- `springIOTPeerKey`. -/
def springIOTPeerKey : List Char :=
  let service := springIOTCleanCell (row "dstPort")
  let service := if service = [] then "any".toList else service
  "iot_peer:".toList ++ springIOTChoosePeer T row ++ "|service:".toList ++ service ++
    "|proto:".toList ++ springIOTProtocol T row

/-- `springIOTStateObjectKey`. -/
def springIOTStateObjectKey : List Char :=
  let stateAddress := springIOTCleanCell (row "to_address")
  let readableKey := springIOTCleanCell (row "state_object_key")
  if stateAddress ≠ [] then stateAddress
  else if readableKey ≠ [] then readableKey
  else
    "iot_state:".toList ++ springIOTDeviceKey T row ++ "|".toList ++ springIOTPeerKey T row ++
      "|".toList ++ springIOTProtocol T row

/-- `springIOTAnchorKey`. -/
def springIOTAnchorKey : List Char :=
  let deviceAddress := springIOTCleanCell (row "from_address")
  if deviceAddress ≠ [] then deviceAddress else "iot_device:".toList ++ springIOTDeviceKey T row

/-- `springIOTBool`: the cells that count as true. -/
def springIOTBool (value : List Char) : Bool :=
  let text := stringsToLower T (springIOTCleanCell value)
  decide (text ∈ ["1".toList, "true".toList, "yes".toList, "y".toList])

/-- The protocols of control. -/
def controlProtocols : List (List Char) :=
  ["icmp".toList, "arp".toList, "dhcp".toList, "mdns".toList, "ssdp".toList, "igmp".toList]

/-- `springIOTControlProtocolFlag`. -/
def springIOTControlProtocolFlag (protocol : List Char) : ℚ :=
  if springIOTBool T (row "is_control_protocol") then 1
  else if stringsToLower T protocol ∈ controlProtocols then 1
  else 0

/-- The first word that a text holds decides its group. -/
def anchorTypeOfText (text : List Char) : AnchorType :=
  if containsText text "gateway" then .gateway
  else if containsText text "cloud" then .cloudEndpoint
  else if containsText text "local" then .localEndpoint
  else if containsText text "private" then .privateEndpoint
  else if containsText text "service" then .serviceGroup
  else .device

/-- `springIOTAnchorTypeGroup`. -/
def springIOTAnchorTypeGroup (value : List Char) : AnchorType :=
  anchorTypeOfText (stringsToLower T (springIOTCleanCell value))

end

/-! ## Numbers -/

section

variable (log1p : ℚ → ℚ)

/-- `springIOTLogNormalize`, and `log_normalize`. -/
def springIOTLogNormalize (value scale : ℚ) : ℚ :=
  springClamp (log1p (max 0 value) / log1p (max 1 scale)) 0 1

/-- `springIOTTrafficRateFeature`. -/
def springIOTTrafficRateFeature (payload duration : ℚ) : ℚ :=
  if duration ≤ 1 / 100000000 then springIOTLogNormalize log1p payload 1000000
  else springIOTLogNormalize log1p (payload / duration) 10000

end

/-- Weights as shares of their sum; a sum up to `eps` counts as none, and all weigh the
same. -/
def normalizeWeights (eps : ℚ) (weights : List ℚ) : List ℚ :=
  if weights.sum ≤ eps then weights.map fun _ => 1 / (weights.length : ℚ)
  else weights.map (· / weights.sum)

/-- `springIOTNormalizedWeights`, before the weights are divided by their sum. -/
def springIOTRawWeights (row : SidecarRow) : Option (List ℚ) :=
  ((springIOTSplitList (row "anchor_weights")).mapM springIOTNumber).map fun numbers =>
    let weights := numbers.map fun weight => if weight < 0 then 0 else weight
    let anchorCount := (springIOTSplitList (row "anchor_addresses")).length
    let anchorCount :=
      if anchorCount = 0 then (springIOTSplitList (row "anchor_types")).length else anchorCount
    if weights = [] then List.replicate (if anchorCount ≤ 0 then 1 else anchorCount) 1
    else weights

/-- `springIOTNormalizedWeights`. -/
def springIOTNormalizedWeights (row : SidecarRow) : Option (List ℚ) :=
  (springIOTRawWeights row).map (normalizeWeights 0)

/-- `springIOTNumericList`, before its length is fixed. -/
def springIOTRawValues (row : SidecarRow) (field fallbackField : String) : Option (List ℚ) :=
  ((springIOTSplitList (row field)).mapM springIOTNumber).bind fun values =>
    if values = [] then (springIOTNumber (row fallbackField)).map fun v => [v] else some values

/-- The last value again, a number of times. -/
def repeatLast : ℕ → List ℚ → List ℚ
  | 0, values => values
  | missing + 1, values => repeatLast missing (values ++ [values.getLastD 0])

/-- `springIOTNumericList`: the values that an expected length leaves. -/
def springIOTFitValues (expectedLen : ℕ) (values : List ℚ) : List ℚ :=
  let expectedLen := if expectedLen ≤ 0 then 1 else expectedLen
  (repeatLast (expectedLen - values.length) values).take expectedLen

/-- `springIOTNumericList`. -/
def springIOTNumericList (row : SidecarRow) (field fallbackField : String) (expectedLen : ℕ) :
    Option (List ℚ) :=
  (springIOTRawValues row field fallbackField).map (springIOTFitValues expectedLen)

/-- The sum of the positive weights. -/
def positiveTotal (weights : List ℚ) : ℚ :=
  weights.foldl (fun total weight => if weight > 0 then total + weight else total) 0

/-- `springIOTWeightedStats`: mean, least and greatest. -/
def springIOTWeightedStats (values weights : List ℚ) : ℚ × ℚ × ℚ :=
  match values with
  | [] => (0, 0, 0)
  | first :: _ =>
    let uniform := values.map fun _ => 1 / (values.length : ℚ)
    let weights := if weights.length ≠ values.length ∨ weights = [] then uniform else weights
    let total := positiveTotal weights
    let weights := if total ≤ 0 then uniform else weights
    let total := if total ≤ 0 then 1 else total
    let avg :=
      (values.zip weights).foldl (fun avg p => avg + p.1 * (if p.2 < 0 then 0 else p.2)) 0 / total
    (springClamp avg 0 1,
      springClamp (values.foldl (fun least v => if v < least then v else least) first) 0 1,
      springClamp (values.foldl (fun most v => if v > most then v else most) first) 0 1)

section

variable (T : TextTables) (row : SidecarRow)

/-- `springIOTAnchorTypeDistribution`: the types of the anchors, as groups. -/
def springIOTRawTypes : List AnchorType :=
  let rawTypes := springIOTSplitList (row "anchor_types")
  let rawType := springIOTCleanCell (row "peer_anchor_type")
  let rawTypes := if rawTypes = [] ∧ rawType ≠ [] then [rawType] else rawTypes
  let rawTypes := if rawTypes = [] then ["device".toList] else rawTypes
  rawTypes.map (springIOTAnchorTypeGroup T)

end

/-- Weights, filled up with ones to as many as there are types, and no more. -/
def typeWeights (types : List AnchorType) (weights : List ℚ) : List ℚ :=
  (weights ++ List.replicate (types.length - weights.length) 1).take types.length

/-- `springIOTAnchorTypeDistribution`: the share of each group. -/
def springIOTTypeShares (types : List AnchorType) (weights : List ℚ) : List ℚ :=
  let weights := typeWeights types weights
  let total := positiveTotal weights
  let weights := if total ≤ 0 then types.map fun _ => 1 / (types.length : ℚ) else weights
  let total := if total ≤ 0 then 1 else total
  let dist :=
    (types.zip weights).foldl
      (fun dist p =>
        dist.modify (anchorTypeOrder.idxOf p.1) (· + (if p.2 < 0 then 0 else p.2) / total))
      (List.replicate anchorTypeOrder.length 0)
  dist.map fun share => springClamp share 0 1

/-- `springIOTLiteAnchorTypeShares`, from the distribution: device, edge, cloud, service. -/
def liteShares (dist : List ℚ) : List ℚ :=
  let share := fun group => dist.getD (anchorTypeOrder.idxOf group) 0
  [springClamp (share .device) 0 1,
    springClamp (share .gateway + share .localEndpoint + share .privateEndpoint) 0 1,
    springClamp (share .cloudEndpoint) 0 1,
    springClamp (share .serviceGroup) 0 1]

/-! ## Anchors -/

/-- `springIOTAnchorKeys`, the closure `add`. -/
def addAnchor (anchors : List (List Char)) (anchor : List Char) : List (List Char) :=
  let anchor := springIOTCleanCell anchor
  if anchor = [] ∨ anchor ∈ anchors then anchors else anchors ++ [anchor]

/-- `springIOTAnchorKeys`: the listed anchors once each, then the primary one. -/
def springIOTAnchorKeys (row : SidecarRow) (primaryAnchor : List Char) : List (List Char) :=
  let raw := springIOTCleanCell (row "anchor_addresses")
  let anchors := if raw ≠ [] then (raw.splitOn ';').foldl addAnchor [] else []
  addAnchor anchors primaryAnchor

/-- `springIOTAnchorObjectWeights`: the entries with the primary anchor. -/
def springIOTWeighedAnchors (row : SidecarRow) (primaryAnchor : List Char) (rawWeights : List ℚ) :
    List (List Char) × List ℚ :=
  let rawAnchors := springIOTSplitList (row "anchor_addresses")
  let rawAnchors := if rawAnchors = [] ∧ primaryAnchor ≠ [] then [primaryAnchor] else rawAnchors
  let hasPrimary := rawAnchors.any fun anchor => springIOTCleanCell anchor = primaryAnchor
  if primaryAnchor ≠ [] ∧ !hasPrimary then (rawAnchors ++ [primaryAnchor], rawWeights ++ [1])
  else (rawAnchors, rawWeights)

/-- `springIOTAnchorObjectWeights`: `weightsByAnchor`, the weights of all entries that name
an anchor. -/
def springIOTWeightByAnchor (rawAnchors : List (List Char)) (rawWeights : List ℚ)
    (name : List Char) : ℚ :=
  rawAnchors.zipIdx.foldl
    (fun sum entry =>
      let anchor := springIOTCleanCell entry.1
      let weight := rawWeights.getD entry.2 1
      if anchor ≠ [] ∧ anchor = name then sum + (if weight < 0 then 0 else weight) else sum) 0

/-- `springIOTAnchorObjectWeights`. -/
def springIOTAnchorObjectWeights (row : SidecarRow) (primaryAnchor : List Char)
    (anchorObjects : List (List Char)) (rawWeights : List ℚ) : List ℚ :=
  if anchorObjects = [] then []
  else
    let entries := springIOTWeighedAnchors row primaryAnchor rawWeights
    let out := anchorObjects.map (springIOTWeightByAnchor entries.1 entries.2)
    let total := out.sum
    if total ≤ 0 then out.map fun _ => 1 / (out.length : ℚ) else out.map (· / total)

/-! ## The row -/

section

variable (log1p : ℚ → ℚ) (T : TextTables) (row : SidecarRow)

/-- `springIOTFeatureFromRow`, the number of anchors. -/
def springIOTAnchorCount (number : ℚ) (weights : ℕ) : ℚ :=
  let anchorCount := if number ≤ 0 then (weights : ℚ) else number
  if anchorCount ≤ 0 then 1 else anchorCount

/-- `springIOTFeatureFromRow`: `none` where `tx_index` is no number, or where a number is
beyond exact arithmetic. -/
def springIOTFeatureFromRow : Option SpringIOTTxFeature := do
  let _txIndex ← parseUint64 (springIOTCleanCell (row "tx_index"))
  let anchorKey := springIOTAnchorKey T row
  let anchorObjects := springIOTAnchorKeys row anchorKey
  let protocol := springIOTProtocol T row
  let payload := (← springIOTNumber (row "srcPayloadSize")) + (← springIOTNumber (row "dstPayloadSize"))
  let duration ← springIOTNumber (row "flowDuration")
  let anchorWeights ← springIOTNormalizedWeights row
  let distances ← springIOTNumericList row "anchor_distances" "distance" anchorWeights.length
  let linkQualities ←
    springIOTNumericList row "anchor_link_qualities" "link_quality" anchorWeights.length
  let distanceStats :=
    springIOTWeightedStats (distances.map fun d => springClamp (d / 60) 0 1) anchorWeights
  let linkQualityStats :=
    springIOTWeightedStats (linkQualities.map fun q => springClamp q 0 1) anchorWeights
  let anchorCount := springIOTAnchorCount (← springIOTNumber (row "anchor_count")) anchorWeights.length
  let linkLoss := springClamp (1 - linkQualityStats.1) 0 1
  let trafficWeight := max (1 / 20) (springIOTLogNormalize log1p payload 1000000)
  return {
    stateObject := String.ofList (springIOTStateObjectKey T row)
    anchorObject := String.ofList anchorKey
    anchorObjects := anchorObjects.map String.ofList
    anchorWeights := springIOTAnchorObjectWeights row anchorKey anchorObjects anchorWeights
    features :=
      [springClamp (anchorCount / 4) 0 1, distanceStats.1, distanceStats.2.1, linkQualityStats.1,
        springIOTTrafficRateFeature log1p payload duration] ++
      liteShares (springIOTTypeShares (springIOTRawTypes T row) anchorWeights) ++
      [springIOTControlProtocolFlag T row protocol]
    communicationCostWeight := springClamp (distanceStats.1 * linkLoss * trafficWeight) 0 1
    realAccounts := false
    recipientFeatures := []
    recipientCommunicationCostWeight := 0 }

end

/-- Every row that is read has ten features. -/
theorem springIOTFeatureFromRow_length {log1p : ℚ → ℚ} {T : TextTables} {row : SidecarRow}
    {feature : SpringIOTTxFeature} (h : springIOTFeatureFromRow log1p T row = some feature) :
    feature.features.length = 10 := by
  simp only [springIOTFeatureFromRow, Option.bind_eq_bind, Option.pure_def] at h
  obtain ⟨_, -, h⟩ := Option.bind_eq_some_iff.mp h
  obtain ⟨_, -, h⟩ := Option.bind_eq_some_iff.mp h
  obtain ⟨_, -, h⟩ := Option.bind_eq_some_iff.mp h
  obtain ⟨_, -, h⟩ := Option.bind_eq_some_iff.mp h
  obtain ⟨_, -, h⟩ := Option.bind_eq_some_iff.mp h
  obtain ⟨_, -, h⟩ := Option.bind_eq_some_iff.mp h
  obtain ⟨_, -, h⟩ := Option.bind_eq_some_iff.mp h
  obtain ⟨_, -, h⟩ := Option.bind_eq_some_iff.mp h
  rw [← Option.some.inj h]
  rfl

/-! ## Weights -/

/-- Both ways to cut off negative weights. -/
theorem ite_neg_eq_max (weight : ℚ) : (if weight < 0 then 0 else weight) = max 0 weight := by
  split
  · next hneg => rw [max_eq_left hneg.le]
  · next hneg => rw [max_eq_right (not_lt.mp hneg)]

theorem normalizeWeights_length (eps : ℚ) (weights : List ℚ) :
    (normalizeWeights eps weights).length = weights.length := by
  rw [normalizeWeights]
  split
  · exact List.length_map _
  · exact List.length_map _

theorem springIOTRawWeights_ne_nil {row : SidecarRow} {weights : List ℚ}
    (h : springIOTRawWeights row = some weights) : weights ≠ [] := by
  obtain ⟨numbers, -, rfl⟩ := Option.map_eq_some_iff.mp h
  have hpos : ∀ n : ℕ, 0 < if n ≤ 0 then 1 else n := by
    intro n
    split
    · exact Nat.one_pos
    · next hn => exact not_le.mp hn
  simp only []
  split
  · apply List.ne_nil_of_length_pos
    rw [List.length_replicate]
    exact hpos _
  · next hne => exact hne

end BlockEmulator
