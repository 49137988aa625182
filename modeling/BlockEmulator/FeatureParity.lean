import BlockEmulator.SidecarRow
import BlockEmulator.OfflineLoads
import Mathlib.Data.Rat.Floor
import Mathlib.Algebra.BigOperators.Ring.List
import Mathlib.Algebra.Order.BigOperators.Group.List
import Mathlib.Tactic.Linarith
import Mathlib.Tactic.FieldSimp

/-!
# The features of a row on both sides (`iot_feature_vector`)

The environment computes the ten features and the cost from the same cells. The steps
after reading are the same, but for a threshold and for the number of anchors: a number
that is negative, or not whole, Go takes in another way than Python.

* `normalizeWeights_eq` — the threshold makes no difference to weights that are alike.
* `anchorCount_eq_iff` — which numbers of anchors give the same feature.
* `feature_parity` — **on a row whose cells are read alike, the features and the cost
  are the same exactly where the number of anchors is**.
* `broken_count` — two and a half anchors.
-/

namespace BlockEmulator

/-! ## Python -/

section

variable (log1p : ℚ → ℚ) (T : TextTables) (row : SidecarRow)

/-- `normalized_iot_protocol`. -/
def normalizedIotProtocol : List Char :=
  let protocol := strLower T (cleanIotCell (row "protocol"))
  if protocol = [] then "none".toList else protocol

/-- `bool_iot_cell`: the cells that count as true. -/
def boolIotCell (value : List Char) : Bool :=
  let text := strLower T (cleanIotCell value)
  decide (text ∈ ["1".toList, "true".toList, "yes".toList, "y".toList])

/-- `iot_control_protocol_flag`. -/
def iotControlProtocolFlag (protocol : List Char) : ℚ :=
  let protocol := strLower T protocol
  if boolIotCell T (row "is_control_protocol") then 1
  else if protocol ∈ controlProtocols then 1
  else 0

/-- `anchor_type_group`. -/
def anchorTypeGroup (value : List Char) : AnchorType :=
  anchorTypeOfText (strLower T (cleanIotCell value))

/-- `normalized_iot_weights`, before the weights are divided by their sum. -/
def rawIotWeights : Option (List ℚ) :=
  ((splitIotList (row "anchor_weights")).mapM (numericIotCell T)).map fun numbers =>
    let weights := numbers.map (max 0)
    let addresses := (splitIotList (row "anchor_addresses")).length
    let anchorCount :=
      if addresses ≠ 0 then addresses else (splitIotList (row "anchor_types")).length
    if weights = [] then List.replicate (max 1 anchorCount) 1 else weights

/-- `normalized_iot_weights`. -/
def normalizedIotWeights : Option (List ℚ) :=
  (rawIotWeights T row).map (normalizeWeights offlineEps)

/-- `normalized_iot_numeric_list`, before its length is fixed. -/
def rawIotValues (field fallbackField : String) : Option (List ℚ) :=
  ((splitIotList (row field)).mapM (numericIotCell T)).bind fun values =>
    if values = [] then (numericIotCell T (row fallbackField)).map fun v => [v] else some values

/-- `normalized_iot_numeric_list`: the values that an expected length leaves. -/
def fitIotValues (expectedLen : ℕ) (values : List ℚ) : List ℚ :=
  let values :=
    if values.length < expectedLen then
      values ++ List.replicate (expectedLen - values.length) (values.getLastD 0)
    else values
  values.take (max 1 expectedLen)

/-- `normalized_iot_numeric_list`. -/
def normalizedIotNumericList (field fallbackField : String) (expectedLen : ℕ) : Option (List ℚ) :=
  (rawIotValues T row field fallbackField).map (fitIotValues expectedLen)

/-- `weighted_iot_stats`: mean, least and greatest. -/
def weightedIotStats (values weights : List ℚ) : ℚ × ℚ × ℚ :=
  match values with
  | [] => (0, 0, 0)
  | first :: _ =>
    let uniform := values.map fun _ => 1 / (values.length : ℚ)
    let weights := if weights = [] ∨ weights.length ≠ values.length then uniform else weights
    let totalWeight := (weights.map (max 0)).sum
    let weights := if totalWeight ≤ offlineEps then uniform else weights
    let totalWeight := if totalWeight ≤ offlineEps then 1 else totalWeight
    let avg := ((values.zip weights).map fun p => p.1 * max 0 p.2).sum / totalWeight
    (springClamp avg 0 1, springClamp (values.foldl min first) 0 1,
      springClamp (values.foldl max first) 0 1)

/-- `anchor_type_distribution`: the types of the anchors, as groups. -/
def rawIotTypes : List AnchorType :=
  let rawTypes := splitIotList (row "anchor_types")
  let rawType := cleanIotCell (row "peer_anchor_type")
  let rawTypes := if rawTypes = [] then (if rawType ≠ [] then [rawType] else []) else rawTypes
  let rawTypes := if rawTypes = [] then ["device".toList] else rawTypes
  rawTypes.map (anchorTypeGroup T)

/-- `anchor_type_distribution`: the share of each group. -/
def iotTypeShares (types : List AnchorType) (weights : List ℚ) : List ℚ :=
  let weights := typeWeights types weights
  let totalWeight := (weights.map (max 0)).sum
  let weights :=
    if totalWeight ≤ offlineEps then types.map fun _ => 1 / (types.length : ℚ) else weights
  let totalWeight := if totalWeight ≤ offlineEps then 1 else totalWeight
  let dist :=
    (types.zip weights).foldl
      (fun dist p => dist.modify (anchorTypeOrder.idxOf p.1) (· + max 0 p.2 / totalWeight))
      (List.replicate anchorTypeOrder.length 0)
  dist.map fun share => springClamp share 0 1

/-- `iot_feature_vector`, the number of anchors. -/
def iotAnchorCount (number : ℚ) (weights : ℕ) : ℤ :=
  ⌊max 1 (if number ≠ 0 then number else if weights ≠ 0 then (weights : ℚ) else 1)⌋

/-- `iot_traffic_rate_feature`. -/
def iotTrafficRateFeature (payload duration : ℚ) : ℚ :=
  if duration ≤ offlineEps then springIOTLogNormalize log1p payload 1000000
  else springIOTLogNormalize log1p (payload / duration) 10000

/-- The statistics of distances and of link qualities. -/
def iotStats : Option ((ℚ × ℚ × ℚ) × ℚ × ℚ × ℚ) := do
  let weights ← normalizedIotWeights T row
  let distances ← normalizedIotNumericList T row "anchor_distances" "distance" weights.length
  let linkQualities ←
    normalizedIotNumericList T row "anchor_link_qualities" "link_quality" weights.length
  return (weightedIotStats (distances.map fun d => springClamp (d / 60) 0 1) weights,
    weightedIotStats (linkQualities.map fun q => springClamp q 0 1) weights)

/-- `iot_feature_vector`; `none` is beyond exact arithmetic. -/
def iotFeatureVector : Option (List ℚ) := do
  let protocol := normalizedIotProtocol T row
  let anchorWeights ← normalizedIotWeights T row
  let stats ← iotStats T row
  let anchorCount := iotAnchorCount (← numericIotCell T (row "anchor_count")) anchorWeights.length
  let payload :=
    (← numericIotCell T (row "srcPayloadSize")) + (← numericIotCell T (row "dstPayloadSize"))
  let duration ← numericIotCell T (row "flowDuration")
  return [springClamp (anchorCount / 4) 0 1, stats.1.1, stats.1.2.1, stats.2.1,
      iotTrafficRateFeature log1p payload duration] ++
    liteShares (iotTypeShares (rawIotTypes T row) anchorWeights) ++
    [iotControlProtocolFlag T row protocol]

/-- `iot_communication_cost_weight`; `none` is beyond exact arithmetic. -/
def iotCommunicationCostWeight : Option ℚ := do
  let stats ← iotStats T row
  let linkLoss := springClamp (1 - stats.2.1) 0 1
  let payload :=
    (← numericIotCell T (row "srcPayloadSize")) + (← numericIotCell T (row "dstPayloadSize"))
  let trafficWeight := max (1 / 20) (springIOTLogNormalize log1p payload 1000000)
  return springClamp (stats.1.1 * linkLoss * trafficWeight) 0 1

end

/-! ## Weights -/

/-- Weights for which the threshold makes no difference: none of their sum, or above it, or
all the same. -/
def WeightsAlike (weights : List ℚ) : Prop :=
  weights.sum ≤ 0 ∨ offlineEps < weights.sum ∨
    ∀ weight ∈ weights, weight = weights.sum / weights.length

theorem normalizeWeights_eq {weights : List ℚ} (h : WeightsAlike weights) :
    normalizeWeights offlineEps weights = normalizeWeights 0 weights := by
  rw [normalizeWeights, normalizeWeights]
  by_cases hzero : weights.sum ≤ 0
  · rw [if_pos hzero, if_pos (hzero.trans offlineEps_pos.le)]
  rw [if_neg hzero]
  split
  · next hsmall =>
    -- only equal weights are left, and their shares are the uniform ones
    have hsame := (h.resolve_left hzero).resolve_left (not_lt.mpr hsmall)
    apply List.map_congr_left
    intro weight hw
    rw [hsame weight hw, div_div_cancel_left' (not_le.mp hzero).ne', one_div]
  · rfl

theorem normalizeWeights_nonneg {weights : List ℚ} (h : ∀ weight ∈ weights, 0 ≤ weight) {eps : ℚ}
    (heps : 0 ≤ eps) : ∀ weight ∈ normalizeWeights eps weights, 0 ≤ weight := by
  intro weight hw
  rw [normalizeWeights] at hw
  split at hw
  · obtain ⟨_, -, rfl⟩ := List.mem_map.mp hw
    positivity
  · next hsum =>
    obtain ⟨w, hmem, rfl⟩ := List.mem_map.mp hw
    exact div_nonneg (h w hmem) (heps.trans (not_le.mp hsum).le)

theorem sum_map_div (weights : List ℚ) (d : ℚ) : (weights.map (· / d)).sum = weights.sum / d := by
  simp only [div_eq_mul_inv, List.sum_map_mul_right, List.map_id']

theorem normalizeWeights_sum {weights : List ℚ} (hne : weights ≠ []) {eps : ℚ} (heps : 0 ≤ eps) :
    (normalizeWeights eps weights).sum = 1 := by
  have hlen : (weights.length : ℚ) ≠ 0 :=
    Nat.cast_ne_zero.mpr fun h => hne (List.length_eq_zero_iff.mp h)
  rw [normalizeWeights]
  split
  · rw [List.map_const', List.sum_replicate, nsmul_eq_mul, mul_one_div_cancel hlen]
  · next hsum =>
    rw [sum_map_div, div_self (heps.trans_lt (not_le.mp hsum)).ne']

theorem springIOTRawWeights_nonneg {row : SidecarRow} {weights : List ℚ}
    (h : springIOTRawWeights row = some weights) : ∀ weight ∈ weights, 0 ≤ weight := by
  obtain ⟨numbers, -, rfl⟩ := Option.map_eq_some_iff.mp h
  intro weight hw
  simp only [] at hw
  split at hw
  · rw [(List.mem_replicate.mp hw).2]
    exact zero_le_one
  · obtain ⟨w, -, rfl⟩ := List.mem_map.mp hw
    rw [ite_neg_eq_max]
    exact le_max_left 0 w

theorem foldl_positive (weights : List ℚ) (total : ℚ) :
    weights.foldl (fun total weight => if weight > 0 then total + weight else total) total =
      total + (weights.map (max 0)).sum := by
  induction weights generalizing total with
  | nil => exact (add_zero total).symm
  | cons weight weights ih =>
    rw [List.foldl_cons, ih, List.map_cons, List.sum_cons]
    split
    · next hpos => rw [max_eq_right hpos.le, add_assoc]
    · next hneg => rw [max_eq_left (not_lt.mp hneg), zero_add]

/-- Both sides sum the positive weights. -/
theorem positiveTotal_eq (weights : List ℚ) : positiveTotal weights = (weights.map (max 0)).sum := by
  rw [positiveTotal, foldl_positive, zero_add]

theorem map_max_nonneg (weights : List ℚ) : ∀ weight ∈ weights.map (max 0), 0 ≤ weight := by
  intro weight hw
  obtain ⟨w, -, rfl⟩ := List.mem_map.mp hw
  exact le_max_left 0 w

theorem map_max_eq_self {weights : List ℚ} (h : ∀ weight ∈ weights, 0 ≤ weight) :
    weights.map (max 0) = weights := by
  conv_rhs => rw [← List.map_id weights]
  exact List.map_congr_left fun weight hw => max_eq_right (h weight hw)

/-! ## Values -/

theorem repeatLast_eq (missing : ℕ) (values : List ℚ) :
    repeatLast missing values = values ++ List.replicate missing (values.getLastD 0) := by
  induction missing generalizing values with
  | zero => rw [repeatLast, List.replicate_zero, List.append_nil]
  | succ missing ih =>
    rw [repeatLast, ih, List.getLastD_concat, List.append_assoc, List.replicate_succ,
      List.singleton_append]

/-- Both sides fill up with the last value. -/
theorem fitIotValues_eq {expectedLen : ℕ} (hpos : 0 < expectedLen) (values : List ℚ) :
    fitIotValues expectedLen values = springIOTFitValues expectedLen values := by
  simp only [fitIotValues, springIOTFitValues, repeatLast_eq, if_neg (not_le.mpr hpos),
    Nat.max_eq_right hpos]
  split
  · rfl
  · next hlen =>
    rw [Nat.sub_eq_zero_of_le (not_lt.mp hlen), List.replicate_zero, List.append_nil]

theorem foldl_weighted (pairs : List (ℚ × ℚ)) (avg : ℚ) :
    pairs.foldl (fun avg p => avg + p.1 * (if p.2 < 0 then 0 else p.2)) avg =
      avg + (pairs.map fun p => p.1 * max 0 p.2).sum := by
  induction pairs generalizing avg with
  | nil => exact (add_zero avg).symm
  | cons p pairs ih =>
    rw [List.foldl_cons, ih, List.map_cons, List.sum_cons, ite_neg_eq_max, add_assoc]

theorem foldl_least (values : List ℚ) (first : ℚ) :
    values.foldl (fun least v => if v < least then v else least) first =
      values.foldl min first := by
  congr 1
  funext least v
  split
  · next hlt => rw [min_eq_right hlt.le]
  · next hlt => rw [min_eq_left (not_lt.mp hlt)]

theorem foldl_most (values : List ℚ) (first : ℚ) :
    values.foldl (fun most v => if v > most then v else most) first =
      values.foldl max first := by
  congr 1
  funext most v
  split
  · next hlt => rw [max_eq_right hlt.le]
  · next hlt => rw [max_eq_left (not_lt.mp hlt)]

/-- The statistics are the same for weights that the threshold leaves alone. -/
theorem weightedIotStats_eq {values weights : List ℚ} (hlen : weights.length = values.length)
    (htotal : offlineEps < positiveTotal weights) :
    weightedIotStats values weights = springIOTWeightedStats values weights := by
  cases values with
  | nil => rfl
  | cons first rest =>
    have hne : ¬(weights = [] ∨ weights.length ≠ (first :: rest).length) := by
      rintro (rfl | h)
      · exact absurd hlen (by simp)
      · exact h hlen
    have hne' : ¬(weights.length ≠ (first :: rest).length ∨ weights = []) := fun h => hne h.symm
    have hpos : ¬positiveTotal weights ≤ 0 := not_le.mpr (offlineEps_pos.trans htotal)
    simp only [weightedIotStats, springIOTWeightedStats, if_neg hne, if_neg hne', if_neg hpos,
      ← positiveTotal_eq, if_neg (not_le.mpr htotal), foldl_weighted, zero_add, foldl_least,
      foldl_most]

/-! ## Groups of anchors -/

/-- Shares given to groups, one after the other. -/
def distribute (types : List AnchorType) (shares : List ℚ) : List ℚ :=
  ((types.zip shares).foldl
    (fun dist p => dist.modify (anchorTypeOrder.idxOf p.1) (· + p.2))
    (List.replicate anchorTypeOrder.length 0)).map fun share => springClamp share 0 1

theorem length_typeWeights (types : List AnchorType) (weights : List ℚ) :
    (typeWeights types weights).length = types.length := by
  rw [typeWeights, List.length_take, List.length_append, List.length_replicate]
  omega

theorem typeWeights_nonneg (types : List AnchorType) {weights : List ℚ}
    (h : ∀ weight ∈ weights, 0 ≤ weight) : ∀ weight ∈ typeWeights types weights, 0 ≤ weight := by
  intro weight hw
  rcases List.mem_append.mp (List.mem_of_mem_take hw) with hw | hw
  · exact h weight hw
  · rw [(List.mem_replicate.mp hw).2]
    exact zero_le_one

/-- Weights divided by their total, or replaced, as both sides do it. -/
theorem map_shares {types : List AnchorType} {weights : List ℚ}
    (hlen : weights.length = types.length) (hnonneg : ∀ weight ∈ weights, 0 ≤ weight) (eps : ℚ) :
    ((if (weights.map (max 0)).sum ≤ eps then types.map fun _ => 1 / (types.length : ℚ)
        else weights).map
      fun weight => max 0 weight /
        if (weights.map (max 0)).sum ≤ eps then 1 else (weights.map (max 0)).sum) =
      normalizeWeights eps weights := by
  rw [map_max_eq_self hnonneg, normalizeWeights]
  split
  · rw [List.map_map, List.map_const', hlen]
    have hshare : ((fun weight => max 0 weight / 1) ∘ fun _ : AnchorType => 1 / (types.length : ℚ)) =
        fun _ => 1 / (types.length : ℚ) := by
      funext _
      rw [Function.comp_apply, div_one, max_eq_right (by positivity)]
    rw [hshare, List.map_const']
  · exact List.map_congr_left fun weight hw => by rw [max_eq_right (hnonneg weight hw)]

theorem springIOTTypeShares_eq (types : List AnchorType) {weights : List ℚ}
    (hnonneg : ∀ weight ∈ weights, 0 ≤ weight) :
    springIOTTypeShares types weights =
      distribute types (normalizeWeights 0 (typeWeights types weights)) := by
  rw [← map_shares (length_typeWeights types weights) (typeWeights_nonneg types hnonneg) 0,
    distribute]
  simp only [springIOTTypeShares, positiveTotal_eq, ite_neg_eq_max]
  rw [List.zip_map_right, List.foldl_map]
  rfl

theorem iotTypeShares_eq (types : List AnchorType) {weights : List ℚ}
    (hnonneg : ∀ weight ∈ weights, 0 ≤ weight) :
    iotTypeShares types weights =
      distribute types (normalizeWeights offlineEps (typeWeights types weights)) := by
  rw [← map_shares (length_typeWeights types weights) (typeWeights_nonneg types hnonneg) offlineEps,
    distribute]
  simp only [iotTypeShares]
  rw [List.zip_map_right, List.foldl_map]
  rfl

/-! ## The number of anchors -/

/-- The numbers of anchors that both sides take alike, beside a number of weights. -/
def CountsAlike (number : ℚ) (weights : ℕ) : Prop :=
  number = 0 ∨ number < 0 ∧ weights = 1 ∨ number = 1 ∨ number = 2 ∨ number = 3 ∨ 4 ≤ number

theorem springClamp_quarter (q : ℚ) (h : 0 ≤ q) : springClamp (q / 4) 0 1 = min (q / 4) 1 := by
  have hnonneg : ¬q / 4 < 0 := not_lt.mpr (by positivity)
  rw [springClamp, if_neg hnonneg]
  split
  · next hgt => rw [min_eq_right (le_of_lt hgt)]
  · next hgt => rw [min_eq_left (not_lt.mp hgt)]

/-- There is a weight, so that the last fallback is never taken. -/
theorem springIOTAnchorCount_eq (number : ℚ) {weights : ℕ} (hpos : 0 < weights) :
    springIOTAnchorCount number weights = if number ≤ 0 then (weights : ℚ) else number := by
  rw [springIOTAnchorCount]
  refine if_neg ?_
  split
  · exact not_le.mpr (Nat.cast_pos.mpr hpos)
  · next hnumber => exact hnumber

/-- A positive number of anchors, cut off after the point by one side. -/
theorem floor_count_iff {number : ℚ} (hnumber : 0 < number) (weights : ℕ) :
    min (number / 4) 1 = springClamp ((⌊max 1 number⌋ : ℤ) / 4 : ℚ) 0 1 ↔
      CountsAlike number weights := by
  have hfloor : (1 : ℤ) ≤ ⌊max 1 number⌋ := Int.le_floor.mpr (by exact_mod_cast le_max_left 1 number)
  have hcast : (1 : ℚ) ≤ (⌊max 1 number⌋ : ℤ) := by exact_mod_cast hfloor
  rw [springClamp_quarter _ (zero_le_one.trans hcast)]
  by_cases hfour : 4 ≤ number
  · have hfloor4 : (4 : ℚ) ≤ (⌊max 1 number⌋ : ℤ) := by
      exact_mod_cast Int.le_floor.mpr (by exact_mod_cast hfour.trans (le_max_right 1 number))
    rw [min_eq_right (by linarith), min_eq_right (by linarith)]
    exact iff_of_true rfl (.inr (.inr (.inr (.inr (.inr hfour)))))
  have hless : ((⌊max 1 number⌋ : ℤ) : ℚ) < 4 :=
    (Int.floor_le _).trans_lt (max_lt (by norm_num) (not_le.mp hfour))
  rw [min_eq_left (by linarith), min_eq_left (by linarith)]
  constructor
  · intro heq
    -- the number is whole, and one, two or three
    have hwhole : number = (⌊max 1 number⌋ : ℤ) := by linarith
    have hlt : ⌊max 1 number⌋ < 4 := by exact_mod_cast hless
    have hcases : ⌊max 1 number⌋ = 1 ∨ ⌊max 1 number⌋ = 2 ∨ ⌊max 1 number⌋ = 3 := by omega
    rcases hcases with h | h | h
    · exact .inr (.inr (.inl (by rw [hwhole, h, Int.cast_one])))
    · exact .inr (.inr (.inr (.inl (by rw [hwhole, h, Int.cast_ofNat]))))
    · exact .inr (.inr (.inr (.inr (.inl (by rw [hwhole, h, Int.cast_ofNat])))))
  · rintro (rfl | ⟨hneg, -⟩ | rfl | rfl | rfl | h)
    · exact absurd hnumber (lt_irrefl _)
    · exact absurd hneg (not_lt.mpr hnumber.le)
    · norm_num
    · norm_num
    · norm_num
    · exact absurd h hfour

/-- **Which numbers of anchors give the same feature.** -/
theorem anchorCount_eq_iff (number : ℚ) {weights : ℕ} (hpos : 0 < weights) :
    springClamp (springIOTAnchorCount number weights / 4) 0 1 =
        springClamp ((iotAnchorCount number weights : ℚ) / 4) 0 1 ↔
      CountsAlike number weights := by
  have hweights : (1 : ℚ) ≤ weights := Nat.one_le_cast.mpr hpos
  rcases lt_trichotomy number 0 with hneg | rfl | hnumber
  · -- Go counts the weights, Python one
    have hpy : iotAnchorCount number weights = 1 := by
      rw [iotAnchorCount, if_pos hneg.ne, max_eq_left (hneg.le.trans zero_le_one), Int.floor_one]
    rw [springIOTAnchorCount_eq number hpos, if_pos hneg.le, hpy,
      springClamp_quarter _ (zero_le_one.trans hweights), Int.cast_one,
      springClamp_quarter _ zero_le_one, min_eq_left (a := (1 : ℚ) / 4) (by norm_num)]
    constructor
    · intro heq
      refine .inr (.inl ⟨hneg, ?_⟩)
      rcases min_choice ((weights : ℚ) / 4) 1 with hmin | hmin
      · rw [hmin] at heq
        have hone : (weights : ℚ) = 1 := by linarith
        exact_mod_cast hone
      · rw [hmin] at heq
        norm_num at heq
    · rintro (rfl | ⟨-, rfl⟩ | rfl | rfl | rfl | hfour)
      · exact absurd hneg (lt_irrefl _)
      · norm_num
      all_goals linarith
  · rw [springIOTAnchorCount_eq 0 hpos, if_pos le_rfl, iotAnchorCount, if_neg (not_not.mpr rfl),
      if_pos hpos.ne', max_eq_right hweights, Int.floor_natCast, Int.cast_natCast]
    exact iff_of_true rfl (.inl rfl)
  · rw [springIOTAnchorCount_eq number hpos, if_neg (not_le.mpr hnumber), iotAnchorCount,
      if_pos hnumber.ne', springClamp_quarter _ hnumber.le]
    exact floor_count_iff hnumber weights

/-! ## The row -/

section

variable (log1p : ℚ → ℚ) (T : TextTables) (row : SidecarRow)

/-- A row of which both sides read the same: the numbers, none of them infinite or no
number; the weights and values in the lists; the groups of the anchors, and whether the
protocol is one of control. The weights are alike. -/
structure RowAlike : Prop where
  /-- Go reads the number of the transaction -/
  index : ∃ txIndex, parseUint64 (springIOTCleanCell (row "tx_index")) = some txIndex
  /-- the cells of one number -/
  number : ∀ column ∈ ["anchor_count", "srcPayloadSize", "dstPayloadSize", "flowDuration"],
    ∃ q, springIOTNumber (row column) = some q ∧ numericIotCell T (row column) = some q
  /-- the weights, also where none are given -/
  weights : ∃ ws, springIOTRawWeights row = some ws ∧ rawIotWeights T row = some ws ∧
    WeightsAlike ws ∧
    WeightsAlike (typeWeights (springIOTRawTypes T row) (normalizeWeights 0 ws))
  /-- the distances, or the one distance -/
  distances : ∃ vs, springIOTRawValues row "anchor_distances" "distance" = some vs ∧
    rawIotValues T row "anchor_distances" "distance" = some vs
  /-- the link qualities, or the one link quality -/
  linkQualities : ∃ vs, springIOTRawValues row "anchor_link_qualities" "link_quality" = some vs ∧
    rawIotValues T row "anchor_link_qualities" "link_quality" = some vs
  /-- the types of the anchors -/
  types : springIOTRawTypes T row = rawIotTypes T row
  /-- the mark of control -/
  control : springIOTBool T (row "is_control_protocol") = boolIotCell T (row "is_control_protocol")
  /-- the protocol, where there is no mark -/
  protocol : springIOTBool T (row "is_control_protocol") = false →
    (stringsToLower T (springIOTProtocol T row) ∈ controlProtocols ↔
      strLower T (normalizedIotProtocol T row) ∈ controlProtocols)

/-- The number of anchors is one that both sides take alike. -/
def CountAlike : Prop :=
  ∃ number ws, springIOTNumber (row "anchor_count") = some number ∧
    springIOTRawWeights row = some ws ∧ CountsAlike number ws.length

/-- Both sides give the same features and the same cost. -/
def SameFeature : Prop :=
  ∃ feature, springIOTFeatureFromRow log1p T row = some feature ∧
    iotFeatureVector log1p T row = some feature.features ∧
    iotCommunicationCostWeight log1p T row = some feature.communicationCostWeight

variable {log1p T row}

theorem controlFlag_eq (h : RowAlike T row) :
    springIOTControlProtocolFlag T row (springIOTProtocol T row) =
      iotControlProtocolFlag T row (normalizedIotProtocol T row) := by
  simp only [springIOTControlProtocolFlag, iotControlProtocolFlag, ← h.control]
  cases hcontrol : springIOTBool T (row "is_control_protocol") with
  | true => rw [if_pos rfl, if_pos rfl]
  | false => exact if_congr Iff.rfl rfl (if_congr (h.protocol hcontrol) rfl rfl)

/-- Fitted values are as many as the weights. -/
theorem length_springIOTFitValues {expectedLen : ℕ} (hpos : 0 < expectedLen) (values : List ℚ) :
    (springIOTFitValues expectedLen values).length = expectedLen := by
  simp only [springIOTFitValues, repeatLast_eq, if_neg (not_le.mpr hpos), List.length_take,
    List.length_append, List.length_replicate]
  omega

/-- The statistics of a fitted list are the same. -/
theorem fittedStats_eq {weights : List ℚ} {expectedLen : ℕ} (hlen : weights.length = expectedLen)
    (hpos : 0 < expectedLen) (hnonneg : ∀ weight ∈ weights, 0 ≤ weight) (hsum : weights.sum = 1)
    (f : ℚ → ℚ) (values : List ℚ) :
    weightedIotStats ((fitIotValues expectedLen values).map f) weights =
      springIOTWeightedStats ((springIOTFitValues expectedLen values).map f) weights := by
  rw [fitIotValues_eq hpos]
  apply weightedIotStats_eq
  · rw [List.length_map, length_springIOTFitValues hpos, hlen]
  · rw [positiveTotal_eq, map_max_eq_self hnonneg, hsum, offlineEps]
    norm_num

/-- All but the first feature are the same, and so is the cost. -/
theorem row_features (h : RowAlike T row) :
    ∃ number ws feature others,
      springIOTNumber (row "anchor_count") = some number ∧
      springIOTRawWeights row = some ws ∧
      springIOTFeatureFromRow log1p T row = some feature ∧
      feature.features = springClamp (springIOTAnchorCount number ws.length / 4) 0 1 :: others ∧
      iotFeatureVector log1p T row =
        some (springClamp ((iotAnchorCount number ws.length : ℚ) / 4) 0 1 :: others) ∧
      iotCommunicationCostWeight log1p T row = some feature.communicationCostWeight := by
  obtain ⟨txIndex, hindex⟩ := h.index
  obtain ⟨number, hnumber, hnumber'⟩ := h.number "anchor_count" (by simp)
  obtain ⟨src, hsrc, hsrc'⟩ := h.number "srcPayloadSize" (by simp)
  obtain ⟨dst, hdst, hdst'⟩ := h.number "dstPayloadSize" (by simp)
  obtain ⟨duration, hduration, hduration'⟩ := h.number "flowDuration" (by simp)
  obtain ⟨ws, hws, hws', halike, htypes⟩ := h.weights
  obtain ⟨distances, hdist, hdist'⟩ := h.distances
  obtain ⟨qualities, hqual, hqual'⟩ := h.linkQualities
  have hraw := springIOTRawWeights_nonneg hws
  have hweights : springIOTNormalizedWeights row = some (normalizeWeights 0 ws) := by
    rw [springIOTNormalizedWeights, hws, Option.map_some]
  have hweights' : normalizedIotWeights T row = some (normalizeWeights 0 ws) := by
    rw [normalizedIotWeights, hws', Option.map_some, normalizeWeights_eq halike]
  have hpos : 0 < ws.length := List.length_pos_iff.mpr (springIOTRawWeights_ne_nil hws)
  have hnonneg := normalizeWeights_nonneg hraw le_rfl
  have hsum := normalizeWeights_sum (springIOTRawWeights_ne_nil hws) (le_refl (0 : ℚ))
  have hlen := normalizeWeights_length 0 ws
  rw [h.types] at htypes
  have hshares := springIOTTypeShares_eq (rawIotTypes T row) hnonneg
  have hshares' := iotTypeShares_eq (rawIotTypes T row) hnonneg
  rw [normalizeWeights_eq htypes, ← hshares] at hshares'
  simp only [springIOTFeatureFromRow, iotFeatureVector, iotCommunicationCostWeight, iotStats,
    springIOTNumericList, normalizedIotNumericList, hindex, hnumber, hnumber', hsrc, hsrc', hdst,
    hdst', hduration, hduration', hws, hweights, hweights', hdist, hdist', hqual, hqual',
    hshares', h.types, controlFlag_eq h, fittedStats_eq hlen hpos hnonneg hsum, hlen, Option.map_some,
    Option.bind_eq_bind, Option.bind_some, Option.pure_def]
  exact ⟨_, _, _, _, rfl, rfl, rfl, rfl, rfl, rfl⟩

/-- **On a row that is read alike, the features and the cost are the same exactly where the
number of anchors is taken alike.** -/
theorem feature_parity (h : RowAlike T row) : SameFeature log1p T row ↔ CountAlike row := by
  obtain ⟨number, ws, feature, others, hnumber, hws, hgo, hfeatures, hpy, hcost⟩ :=
    @row_features log1p T row h
  have hpos : 0 < ws.length := List.length_pos_iff.mpr (springIOTRawWeights_ne_nil hws)
  have hiff := anchorCount_eq_iff number hpos
  constructor
  · rintro ⟨feature', hgo', hpy', -⟩
    rw [Option.some.inj (hgo'.symm.trans hgo), hpy, hfeatures] at hpy'
    have hfirst := (List.cons.inj (Option.some.inj hpy')).1
    exact ⟨number, ws, hnumber, hws, hiff.mp hfirst.symm⟩
  · rintro ⟨number', ws', hnumber', hws', halike⟩
    rw [Option.some.inj (hnumber'.symm.trans hnumber), Option.some.inj (hws'.symm.trans hws)]
      at halike
    exact ⟨feature, hgo, by rw [hpy, hfeatures, hiff.mpr halike], hcost⟩

end

/-! ## Two rows -/

/-- A row by its filled cells. -/
def rowOf (cells : List (String × String)) : SidecarRow :=
  fun column => ((cells.lookup column).getD "").toList

/-- Tables for texts of ASCII only. -/
def asciiTables : TextTables where
  toLower := id
  lower := id
  decimal _ := none
  isPrivate _ := false

/-- A row with three anchors, two of them by a list. -/
def threeAnchors : SidecarRow :=
  rowOf [("tx_index", "7"), ("protocol", "MQTT"), ("from_address", "aa"),
    ("anchor_addresses", "bb;cc"), ("anchor_weights", "0.5;0.25"), ("anchor_distances", "30"),
    ("link_quality", "\"0.75\""), ("anchor_types", "edge-gateway;cloud"), ("anchor_count", "3"),
    ("srcPayloadSize", "1e3"), ("dstPayloadSize", "n/a")]

theorem threeAnchors_parity : SameFeature id asciiTables threeAnchors := by
  refine (feature_parity ?_).mpr ⟨3, [1 / 2, 1 / 4], by decide +kernel, by decide +kernel, ?_⟩
  · exact {
      index := ⟨7, by decide +kernel⟩
      number := by
        intro column hcolumn
        simp only [List.mem_cons, List.not_mem_nil, or_false] at hcolumn
        rcases hcolumn with rfl | rfl | rfl | rfl
        · exact ⟨3, by decide +kernel, by decide +kernel⟩
        · exact ⟨1000, by decide +kernel, by decide +kernel⟩
        · exact ⟨0, by decide +kernel, by decide +kernel⟩
        · exact ⟨0, by decide +kernel, by decide +kernel⟩
      weights := ⟨[1 / 2, 1 / 4], by decide +kernel, by decide +kernel,
        .inr (.inl (by decide +kernel)), .inr (.inl (by decide +kernel))⟩
      distances := ⟨[30], by decide +kernel, by decide +kernel⟩
      linkQualities := ⟨[3 / 4], by decide +kernel, by decide +kernel⟩
      types := by decide +kernel
      control := by decide +kernel
      protocol := fun _ => by decide +kernel }
  · exact .inr (.inr (.inr (.inr (.inl rfl))))

/-- A row with two and a half anchors. -/
def fractionalCount : SidecarRow := rowOf [("tx_index", "0"), ("anchor_count", "2.5")]

theorem broken_count : ¬SameFeature id asciiTables fractionalCount := by
  rintro ⟨feature, hgo, hpy, -⟩
  have hne : (springIOTFeatureFromRow id asciiTables fractionalCount).map (·.features) ≠
      iotFeatureVector id asciiTables fractionalCount := by decide +kernel
  rw [hgo, hpy] at hne
  exact hne rfl

end BlockEmulator
