import BlockEmulator.EpochSeries
import BlockEmulator.Fallible
import BlockEmulator.KeyedSort
import BlockEmulator.SidecarCells
import Mathlib.Algebra.Order.Field.Rat
import Mathlib.Data.Finset.Dedup
import Mathlib.Data.Rat.Floor

/-!
# Chain-detail metrics (`iot_metrics.py`)

The rows of `Tx_Details.csv` are joined to the scenes of a window of the dataset, by hash to
their metadata and by row number and addresses to the scene. The counts, costs and loads are
added up row by row.

Arithmetic is exact; a cell that a row does not have is empty. A `ValueError` is `none`, its
text left out, as are the texts of the result.

* `analyzeChainDetails_sound` — **where it returns, the rows belong one to one to the window,
  and the sums and ratios agree with them**.
-/

namespace BlockEmulator.ChainDetails

open KeyedSort
open EpochSeries (sum_modify_add)

/-! ## Scenes and totals -/

/-- `Scene`, with what `__post_init__` checks. -/
structure Scene where
  /-- `dataset_row` -/
  datasetRow : ℤ
  /-- `tx_index` -/
  txIndex : ℤ
  /-- `sender` -/
  sender : List Char
  /-- `recipient` -/
  recipient : List Char
  /-- `cost` -/
  cost : ℚ
  /-- `payload` -/
  payload : ℚ
  /-- `distance` -/
  distance : ℚ
  /-- `quality` -/
  quality : ℚ
  /-- `control` -/
  control : Bool
  datasetRow_nonneg : 0 ≤ datasetRow
  txIndex_nonneg : 0 ≤ txIndex
  cost_nonneg : 0 ≤ cost
  cost_le_one : cost ≤ 1
  payload_nonneg : 0 ≤ payload
  distance_nonneg : 0 ≤ distance
  quality_nonneg : 0 ≤ quality
  quality_le_one : quality ≤ 1
  deriving DecidableEq

/-- What the metrics read of the manifest. -/
structure MetricManifest where
  /-- `dataset_window["start_tx"]` -/
  startTx : ℤ
  /-- `dataset_window["end_tx_exclusive"]` -/
  endTxExclusive : ℤ
  /-- `thresholds["high_cost_ge"]` -/
  highCostGe : ℚ
  /-- `thresholds["high_payload_ge"]` -/
  highPayloadGe : ℚ
  /-- `thresholds["long_distance_ge"]` -/
  longDistanceGe : ℚ
  /-- `thresholds["weak_link_le"]` -/
  weakLinkLe : ℚ

/-- The names of the groups. -/
inductive GroupName
  | all
  | highCost
  | highPayload
  | longDistance
  | weakLink
  | controlProtocol
  | otherProtocol
  deriving DecidableEq

/-- `ratio` -/
def ratio (numerator denominator : ℚ) : Option ℚ :=
  if 0 < denominator then some (numerator / denominator) else none

/-- `nearest_rank` -/
def nearestRank (values : List ℚ) (probability : ℚ) : Option ℚ :=
  let last : ℤ := (values.length : ℤ) - 1
  let rank : ℤ := max 0 (min last (⌈probability * values.length⌉ - 1))
  (sortOn (fun v : ℚ => v) values)[rank.toNat]?

/-- `Totals` -/
@[ext]
structure Totals where
  /-- `count` -/
  count : ℕ
  /-- `cross` -/
  cross : ℤ
  /-- `cost` -/
  cost : ℚ
  /-- `cross_cost` -/
  crossCost : ℚ
  /-- `payload` -/
  payload : ℚ
  /-- `cross_payload` -/
  crossPayload : ℚ
  /-- `latencies` -/
  latencies : List ℚ

/-- What `Totals.summary` gives. -/
structure GroupSummary where
  /-- `count` -/
  count : ℕ
  /-- `cross_count` -/
  crossCount : ℤ
  /-- `cross_ratio` -/
  crossRatio : Option ℚ
  /-- `scene_cost_sum` -/
  sceneCostSum : ℚ
  /-- `cross_cost_sum` -/
  crossCostSum : ℚ
  /-- `scene_cost_mean` -/
  sceneCostMean : Option ℚ
  /-- `cost_weighted_cross_ratio` -/
  costWeightedCrossRatio : Option ℚ
  /-- `cross_cost_per_tx` -/
  crossCostPerTx : Option ℚ
  /-- `payload_bytes_sum` -/
  payloadBytesSum : ℚ
  /-- `cross_payload_bytes_sum` -/
  crossPayloadBytesSum : ℚ
  /-- `payload_weighted_cross_ratio` -/
  payloadWeightedCrossRatio : Option ℚ
  /-- `latency_count` -/
  latencyCount : ℕ
  /-- `mean_latency_sec` -/
  meanLatencySec : Option ℚ
  /-- `p95_latency_sec` -/
  p95LatencySec : Option ℚ

namespace Totals

/-- `Totals()` -/
def new : Totals := ⟨0, 0, 0, 0, 0, 0, []⟩

/-- `Totals.add` -/
def add (t : Totals) (scene : Scene) (cross : ℤ) (latency : Option ℚ) : Option Totals :=
  let t' : Totals :=
    { count := t.count + 1
      cross := t.cross + cross
      cost := t.cost + scene.cost
      crossCost := t.crossCost + scene.cost * cross
      payload := t.payload + scene.payload
      crossPayload := t.crossPayload + scene.payload * cross
      latencies := t.latencies }
  match latency with
  | none => some t'
  | some latency =>
    if latency < 0 then none else some { t' with latencies := t.latencies ++ [latency] }

/-- `Totals.summary` -/
def summary (t : Totals) : GroupSummary where
  count := t.count
  crossCount := t.cross
  crossRatio := ratio t.cross t.count
  sceneCostSum := t.cost
  crossCostSum := t.crossCost
  sceneCostMean := ratio t.cost t.count
  costWeightedCrossRatio := ratio t.crossCost t.cost
  crossCostPerTx := ratio t.crossCost t.count
  payloadBytesSum := t.payload
  crossPayloadBytesSum := t.crossPayload
  payloadWeightedCrossRatio := ratio t.crossPayload t.payload
  latencyCount := t.latencies.length
  meanLatencySec := ratio t.latencies.sum t.latencies.length
  p95LatencySec := nearestRank t.latencies (95 / 100)

end Totals

/-- `IoTMetrics` -/
structure IoTMetrics where
  /-- `manifest` -/
  manifest : MetricManifest
  /-- `seen` -/
  seen : Finset ℤ
  /-- `groups` -/
  groups : GroupName → Totals

namespace IoTMetrics

/-- `IoTMetrics(manifest, latency_scope)` -/
def new (manifest : MetricManifest) : IoTMetrics := ⟨manifest, ∅, fun _ => .new⟩

/-- `selected` in `IoTMetrics.add` -/
def selected (manifest : MetricManifest) (scene : Scene) : List GroupName :=
  [.all, if scene.control then .controlProtocol else .otherProtocol] ++
    ([(GroupName.highCost, decide (manifest.highCostGe ≤ scene.cost)),
      (.highPayload, decide (manifest.highPayloadGe ≤ scene.payload)),
      (.longDistance, decide (manifest.longDistanceGe ≤ scene.distance)),
      (.weakLink, decide (scene.quality ≤ manifest.weakLinkLe))].filter (·.2)).map (·.1)

/-- `self.groups[name].add(scene, cross, latency)` -/
def addTo (scene : Scene) (cross : ℤ) (latency : Option ℚ) (groups : GroupName → Totals)
    (name : GroupName) : Option (GroupName → Totals) :=
  ((groups name).add scene cross latency).map fun t => Function.update groups name t

/-- `IoTMetrics.add` -/
def add (m : IoTMetrics) (scene : Scene) (cross : ℤ) (latency : Option ℚ) : Option IoTMetrics :=
  if scene.datasetRow ∈ m.seen then none
  else if ¬(cross = 0 ∨ cross = 1) then none
  else
    ((selected m.manifest scene).foldlM (addTo scene cross latency) m.groups).map fun groups =>
      { m with seen := insert scene.datasetRow m.seen, groups := groups }

/-- `set(range(start, stop))` -/
def rangeSet (start stop : ℤ) : Finset ℤ :=
  (Finset.range (stop - start).toNat).image fun i : ℕ => start + i

theorem mem_rangeSet {start stop i : ℤ} : i ∈ rangeSet start stop ↔ start ≤ i ∧ i < stop := by
  rw [rangeSet, Finset.mem_image]
  constructor
  · rintro ⟨k, hk, rfl⟩
    have hlt := Finset.mem_range.mp hk
    omega
  · rintro ⟨hstart, hstop⟩
    exact ⟨(i - start).toNat, Finset.mem_range.mpr (by omega), by omega⟩

/-- `IoTMetrics.summary`: the groups. -/
def summary (m : IoTMetrics) : Option (GroupName → GroupSummary) :=
  if m.seen ≠ rangeSet m.manifest.startTx m.manifest.endTxExclusive then none
  else some fun name => (m.groups name).summary

end IoTMetrics

/-- What `mechanism.load_statistics` gives. -/
structure LoadStatistics where
  /-- `loads` -/
  loads : List ℚ
  /-- `total` -/
  total : ℚ
  /-- `variance` -/
  variance : ℚ
  /-- `normalized_variance` -/
  normalizedVariance : Option ℚ
  /-- `jain_fairness` -/
  jainFairness : Option ℚ
  /-- `max_share` -/
  maxShare : Option ℚ

/-- `mechanism.load_statistics` -/
def loadStatistics (loads : List ℚ) : Option LoadStatistics :=
  if loads = [] ∨ loads.any (· < 0) then none
  else
    let total := loads.sum
    let mean := total / loads.length
    let variance := (loads.map fun v => ((v - mean) ^ 2 : ℚ)).sum / loads.length
    some {
      loads := loads
      total := total
      variance := variance
      normalizedVariance := if mean = 0 then none else some (variance / (mean * mean))
      jainFairness :=
        if total = 0 then none
        else some (total * total / (loads.length * (loads.map fun v => v * v).sum))
      maxShare := if total = 0 then none else loads.max?.map (· / total) }

/-! ## Rows -/

/-- `HASH_COLUMN` -/
def hashColumn : String := "TxHash (Byte -> Big Int)"

/-- `META_COLUMNS`, and whether the name of the column ends with `address`. -/
def metaColumns : List (String × Bool) :=
  [("Tx local nonce", false), ("Dataset row index", false), ("Sender address", true),
    ("Recipient address", true), ("Sender shard", false), ("Recipient shard", false),
    ("Cross shard", false)]

/-- A row that has passed the checks of `analyze_chain_details`. -/
structure JoinedRow where
  /-- `detail` -/
  detail : SidecarRow
  /-- `meta` -/
  metadata : SidecarRow
  /-- `scene` -/
  scene : Scene
  /-- `sender` -/
  sender : ℕ
  /-- `recipient` -/
  recipient : ℕ
  /-- `cross` -/
  cross : ℤ
  /-- `latency_ms` -/
  latencyMs : ℚ

/-- What the loop of `analyze_chain_details` has. -/
structure DetailLoads where
  /-- `metric` -/
  metric : IoTMetrics
  /-- `stage_loads` -/
  stageLoads : List ℕ
  /-- `effective_loads` -/
  effectiveLoads : List ℚ

/-- What `analyze_chain_details` returns. -/
structure ChainMetrics where
  /-- `groups` -/
  groups : GroupName → GroupSummary
  /-- `execution_load` -/
  executionLoad : LoadStatistics
  /-- `execution_load["amplification"]` -/
  amplification : Option ℚ
  /-- `effective_load` -/
  effectiveLoad : LoadStatistics
  /-- `join["expected_count"]` -/
  expectedCount : ℕ
  /-- `join["matched_count"]` -/
  matchedCount : ℕ

section Source

variable (T : TextTables) (isDigit : Char → Bool) (limit : ℕ)

/-- `address_key` -/
def addressKey (address : List Char) : List Char :=
  let value := strLower T (pyStrip address)
  if ['0', 'x'] <+: value then value.drop 2 else value

/-- `int(text)` -/
def intCell (text : List Char) : Option ℤ := pyInt10 T.decimal limit text

/-- `float(text or "nan")`; a number that is not finite is `none`, as no check lets it pass. -/
def finiteCell (text : List Char) : Option ℚ :=
  if text = [] then none else (pyFloat T.decimal text).join

/-- The key of a row in `_unique_by_hash`, a number for its digits. -/
def hashKey (row : SidecarRow) : Option ℤ :=
  let value := row hashColumn
  if value = [] ∨ ¬(value.all isDigit) then none else intCell T limit value

/-- `_unique_by_hash`: the rows by key. -/
def uniqueByHash (rows : List SidecarRow) : Option (List (ℤ × SidecarRow)) :=
  rows.foldlM (fun result row =>
    (hashKey T isDigit limit row).bind fun key =>
      if key ∈ result.map (·.1) then none else some (result ++ [(key, row)])) []

/-- Whether recovered metadata agree with the measured ones. -/
def metadataAgree (detail metadata : SidecarRow) : Bool :=
  metaColumns.all fun (name, address) =>
    if address then addressKey T (detail name) = addressKey T (metadata name)
    else intCell T limit (detail name) ≠ none ∧
      intCell T limit (detail name) = intCell T limit (metadata name)

/-- `latency_ms`, with the checks of relay stages, broker splits and timestamps. -/
def confirmedLatency (detail : SidecarRow) (cross : ℤ) : Option ℚ :=
  let relay1 := detail "Relay1 Tx commit timestamp (not a relay tx -> nil)"
  let relay2 := detail "Relay2 Tx commit timestamp (not a relay tx -> nil)"
  if ¬(relay1 ≠ [] ↔ cross ≠ 0) ∨ ¬(relay2 ≠ [] ↔ cross ≠ 0) then none
  else if detail "Broker1 Tx commit timestamp (not a broker tx -> nil)" ≠ [] ∨
      detail "Broker2 Tx commit timestamp (not a broker tx -> nil)" ≠ [] then none
  else
    (finiteCell T (detail "Tx propose timestamp")).bind fun proposed =>
      (finiteCell T (detail "Tx finally commit timestamp")).bind fun committed =>
        (finiteCell T (detail "Confirmed latency of this tx (ms)")).bind fun latencyMs =>
          if proposed ≤ 0 ∨ committed < proposed ∨ latencyMs < 0 then none
          else if 101 / 100 < |committed - proposed - latencyMs| then none
          else if cross = 0 then some latencyMs
          else
            (finiteCell T relay1).bind fun r1 =>
              (finiteCell T relay2).bind fun r2 =>
                if proposed ≤ r1 ∧ r1 ≤ r2 ∧ r2 = committed then some latencyMs else none

/-- The loop over the details: the checks of one row. -/
def joinDetail (scenes : List Scene) (manifest : MetricManifest) (shards : ℕ)
    (metadata : List (ℤ × SidecarRow)) (recovered : Bool) (entry : ℤ × SidecarRow) :
    Option JoinedRow :=
  let detail := entry.2
  (metadata.lookup entry.1).bind fun row =>
    if metaColumns.any fun (name, _) => row name = [] then none
    else if recovered ∧ (metaColumns.all fun (name, _) => detail name ≠ []) ∧
        ¬metadataAgree T limit detail row then none
    else
      (intCell T limit (row "Dataset row index")).bind fun index =>
        -- `by_row` has the last scene of a row
        (scenes.reverse.find? fun s => s.datasetRow = index).bind fun scene =>
          (intCell T limit (row "Tx local nonce")).bind fun nonce =>
            if nonce ≠ index - manifest.startTx then none
            else if addressKey T (row "Sender address") ≠ scene.sender ∨
                addressKey T (row "Recipient address") ≠ scene.recipient then none
            else
              (intCell T limit (row "Sender shard")).bind fun sender =>
                (intCell T limit (row "Recipient shard")).bind fun recipient =>
                  if ¬(0 ≤ sender ∧ sender < shards ∧ 0 ≤ recipient ∧ recipient < shards) then none
                  else
                    (intCell T limit (row "Cross shard")).bind fun cross =>
                      if ¬(cross = 0 ∨ cross = 1) ∨ cross ≠ (if sender ≠ recipient then 1 else 0)
                      then none
                      else
                        (confirmedLatency T detail cross).map fun latencyMs =>
                          ⟨detail, row, scene, sender.toNat, recipient.toNat, cross, latencyMs⟩

end Source

/-- The loop over the details: what a row adds. -/
def addJoined (s : DetailLoads) (j : JoinedRow) : Option DetailLoads :=
  (s.metric.add j.scene j.cross (some (j.latencyMs / 1000))).map fun metric =>
    let stageLoads := s.stageLoads.modify j.sender (· + 1)
    if j.cross ≠ 0 then
      { metric := metric
        stageLoads := stageLoads.modify j.recipient (· + 1)
        effectiveLoads :=
          (s.effectiveLoads.modify j.sender (· + 1 / 2)).modify j.recipient (· + 1 / 2) }
    else
      { metric := metric
        stageLoads := stageLoads
        effectiveLoads := s.effectiveLoads.modify j.sender (· + 1) }

section Source

variable (T : TextTables) (isDigit : Char → Bool) (limit : ℕ)

/-- `analyze_chain_details` -/
def analyzeChainDetails (detailRows : List SidecarRow) (scenes : List Scene)
    (manifest : MetricManifest) (shards : ℕ) (metadataRows : Option (List SidecarRow)) :
    Option ChainMetrics :=
  (uniqueByHash T isDigit limit detailRows).bind fun details =>
    (uniqueByHash T isDigit limit (metadataRows.getD detailRows)).bind fun metadata =>
      if (details.map (·.1)).toFinset ≠ (metadata.map (·.1)).toFinset ∨
          details.length ≠ scenes.length then none
      else
        (details.foldlM (fun s entry =>
            (joinDetail T limit scenes manifest shards metadata metadataRows.isSome entry).bind
              (addJoined s))
          ⟨.new manifest, List.replicate shards 0, List.replicate shards 0⟩).bind fun s =>
          s.metric.summary.bind fun groups =>
            (loadStatistics (s.stageLoads.map fun n : ℕ => (n : ℚ))).bind fun execution =>
              (loadStatistics s.effectiveLoads).map fun effective =>
                { groups := groups
                  executionLoad := execution
                  amplification := ratio execution.total scenes.length
                  effectiveLoad := effective
                  expectedCount := scenes.length
                  matchedCount := details.length }

end Source

/-! ## Totals -/

/-- A ratio, if there is one, is between 0 and 1. -/
def InUnit (r : Option ℚ) : Prop := ∀ q ∈ r, 0 ≤ q ∧ q ≤ 1

theorem ratio_inUnit {numerator denominator : ℚ} (h : 0 ≤ numerator)
    (hle : numerator ≤ denominator) : InUnit (ratio numerator denominator) := by
  intro q hq
  rw [ratio] at hq
  obtain ⟨hpos, hq⟩ := Option.ite_none_right_eq_some.mp hq
  obtain rfl := Option.some.inj hq
  exact ⟨div_nonneg h hpos.le, div_le_one_of_le₀ hle hpos.le⟩

namespace Totals

/-- The cross parts are parts. -/
structure Sound (t : Totals) : Prop where
  cross_nonneg : 0 ≤ t.cross
  cross_le : t.cross ≤ t.count
  crossCost_nonneg : 0 ≤ t.crossCost
  crossCost_le : t.crossCost ≤ t.cost
  crossPayload_nonneg : 0 ≤ t.crossPayload
  crossPayload_le : t.crossPayload ≤ t.payload

/-- Totals that two others add up to. -/
structure Splits (t a b : Totals) : Prop where
  count : t.count = a.count + b.count
  cross : t.cross = a.cross + b.cross
  cost : t.cost = a.cost + b.cost
  crossCost : t.crossCost = a.crossCost + b.crossCost
  payload : t.payload = a.payload + b.payload
  crossPayload : t.crossPayload = a.crossPayload + b.crossPayload
  latencies : t.latencies.length = a.latencies.length + b.latencies.length

variable {t t' a a' b b' : Totals} {scene : Scene} {cross : ℤ} {latency : ℚ}

theorem add_eq_some (h : t.add scene cross (some latency) = some t') :
    0 ≤ latency ∧ t' =
      ⟨t.count + 1, t.cross + cross, t.cost + scene.cost, t.crossCost + scene.cost * cross,
        t.payload + scene.payload, t.crossPayload + scene.payload * cross,
        t.latencies ++ [latency]⟩ := by
  rw [add] at h
  obtain ⟨hneg, h⟩ := Option.ite_none_left_eq_some.mp h
  exact ⟨not_lt.mp hneg, (Option.some.inj h).symm⟩

theorem Sound.new : Sound .new := by
  constructor <;> exact le_rfl

theorem Splits.new : Splits .new .new .new := by
  constructor <;> simp [Totals.new]

/-- A share of something is between nothing and all of it. -/
theorem share_le {x : ℚ} (hx : 0 ≤ x) (hcross : cross = 0 ∨ cross = 1) :
    0 ≤ x * cross ∧ x * cross ≤ x := by
  rcases hcross with rfl | rfl
  · simpa using hx
  · simpa using hx

theorem Sound.add (ht : t.Sound) (hcross : cross = 0 ∨ cross = 1)
    (h : t.add scene cross (some latency) = some t') : t'.Sound := by
  obtain ⟨-, rfl⟩ := add_eq_some h
  obtain ⟨h1, h2, h3, h4, h5, h6⟩ := ht
  obtain ⟨hcost, hcost'⟩ := share_le scene.cost_nonneg hcross
  obtain ⟨hpayload, hpayload'⟩ := share_le scene.payload_nonneg hcross
  refine ⟨?_, ?_, add_nonneg h3 hcost, add_le_add h4 hcost', add_nonneg h5 hpayload,
    add_le_add h6 hpayload'⟩
  · show 0 ≤ t.cross + cross
    omega
  · show t.cross + cross ≤ ((t.count + 1 : ℕ) : ℤ)
    push_cast
    omega

/-- What goes to the whole goes to the one part or the other. -/
theorem Splits.add_left (hs : t.Splits a b) (h : t.add scene cross (some latency) = some t')
    (ha : a.add scene cross (some latency) = some a') : t'.Splits a' b := by
  obtain ⟨-, rfl⟩ := add_eq_some h
  obtain ⟨-, rfl⟩ := add_eq_some ha
  obtain ⟨h1, h2, h3, h4, h5, h6, h7⟩ := hs
  constructor
  · show t.count + 1 = a.count + 1 + b.count
    omega
  · show t.cross + cross = a.cross + cross + b.cross
    omega
  · show t.cost + scene.cost = a.cost + scene.cost + b.cost
    rw [h3]
    ring
  · show t.crossCost + scene.cost * cross = a.crossCost + scene.cost * cross + b.crossCost
    rw [h4]
    ring
  · show t.payload + scene.payload = a.payload + scene.payload + b.payload
    rw [h5]
    ring
  · show t.crossPayload + scene.payload * cross =
      a.crossPayload + scene.payload * cross + b.crossPayload
    rw [h6]
    ring
  · show (t.latencies ++ [latency]).length = (a.latencies ++ [latency]).length + b.latencies.length
    rw [List.length_append, List.length_append, h7]
    omega

theorem Splits.symm (hs : t.Splits a b) : t.Splits b a := by
  obtain ⟨h1, h2, h3, h4, h5, h6, h7⟩ := hs
  constructor <;> rw [add_comm] <;> assumption

end Totals

namespace IoTMetrics

variable {manifest : MetricManifest} {m m' : IoTMetrics} {scene : Scene} {cross : ℤ} {latency : ℚ}

/-- The loop over the selected groups: each of them gets the row once. -/
theorem foldlM_addTo {latency : Option ℚ} {names : List GroupName} (hnames : names.Nodup)
    {groups groups' : GroupName → Totals}
    (h : names.foldlM (addTo scene cross latency) groups = some groups') (name : GroupName) :
    if name ∈ names then (groups name).add scene cross latency = some (groups' name)
    else groups' name = groups name := by
  induction names generalizing groups with
  | nil =>
    obtain rfl := Option.some.inj h
    exact rfl
  | cons first names ih =>
    obtain ⟨hout, hnames⟩ := List.nodup_cons.mp hnames
    rw [List.foldlM_cons] at h
    obtain ⟨between, hfirst, hrest⟩ := Option.bind_eq_some_iff.mp h
    obtain ⟨t, ht, rfl⟩ := Option.map_eq_some_iff.mp hfirst
    have hall := ih hnames hrest
    by_cases hname : name = first
    · subst hname
      rw [if_neg hout, Function.update_self] at hall
      rw [if_pos List.mem_cons_self, hall]
      exact ht
    · rw [Function.update_of_ne hname] at hall
      simpa [hname] using hall

/-- The selection depends on five tests only. -/
theorem selected_of_tests {P : Bool → List GroupName → Prop}
    (h : ∀ control highCost highPayload longDistance weakLink : Bool,
      P control ([.all, if control then .controlProtocol else .otherProtocol] ++
        ([(GroupName.highCost, highCost), (.highPayload, highPayload),
          (.longDistance, longDistance), (.weakLink, weakLink)].filter (·.2)).map (·.1)))
    (manifest : MetricManifest) (scene : Scene) :
    P scene.control (selected manifest scene) :=
  h _ _ _ _ _

theorem selected_nodup (manifest : MetricManifest) (scene : Scene) :
    (selected manifest scene).Nodup :=
  selected_of_tests (P := fun _ l => l.Nodup) (by decide) manifest scene

theorem mem_selected (manifest : MetricManifest) (scene : Scene) :
    GroupName.all ∈ selected manifest scene ∧
      (GroupName.controlProtocol ∈ selected manifest scene ↔ scene.control = true) ∧
      (GroupName.otherProtocol ∈ selected manifest scene ↔ scene.control = false) :=
  selected_of_tests (P := fun control l => .all ∈ l ∧
    (.controlProtocol ∈ l ↔ control = true) ∧ (.otherProtocol ∈ l ↔ control = false))
    (by decide) manifest scene

/-- **One row.** -/
theorem add_eq_some (h : m.add scene cross (some latency) = some m') :
    scene.datasetRow ∉ m.seen ∧ (cross = 0 ∨ cross = 1) ∧ m'.manifest = m.manifest ∧
      m'.seen = insert scene.datasetRow m.seen ∧
      ∀ name, if name ∈ selected m.manifest scene then
        (m.groups name).add scene cross (some latency) = some (m'.groups name)
      else m'.groups name = m.groups name := by
  rw [add] at h
  obtain ⟨hseen, h⟩ := Option.ite_none_left_eq_some.mp h
  obtain ⟨hcross, h⟩ := Option.ite_none_left_eq_some.mp h
  obtain ⟨groups, hgroups, rfl⟩ := Option.map_eq_some_iff.mp h
  exact ⟨hseen, not_not.mp hcross, rfl, rfl, foldlM_addTo (selected_nodup _ _) hgroups⟩

end IoTMetrics

/-! ## One row -/

section Rows

variable (T : TextTables) (isDigit : Char → Bool) (limit : ℕ)

/-- **The rows by key**: all of them, no two with one key. -/
theorem uniqueByHash_eq_some {rows : List SidecarRow} {entries : List (ℤ × SidecarRow)}
    (h : uniqueByHash T isDigit limit rows = some entries) :
    entries.map (·.2) = rows ∧ (entries.map (·.1)).Nodup ∧
      ∀ e ∈ entries, hashKey T isDigit limit e.2 = some e.1 := by
  induction rows using List.reverseRecOn generalizing entries with
  | nil =>
    obtain rfl := Option.some.inj h
    exact ⟨rfl, List.nodup_nil, fun e he => (nomatch he)⟩
  | append_singleton rows row ih =>
    rw [uniqueByHash, List.foldlM_append] at h
    obtain ⟨before, hbefore, h⟩ := Option.bind_eq_some_iff.mp h
    obtain ⟨hrows, hkeys, hall⟩ := ih hbefore
    rw [List.foldlM_cons] at h
    obtain ⟨after, hafter, h⟩ := Option.bind_eq_some_iff.mp h
    obtain rfl := Option.some.inj h
    obtain ⟨key, hkey, hafter⟩ := Option.bind_eq_some_iff.mp hafter
    obtain ⟨hnew, hafter⟩ := Option.ite_none_left_eq_some.mp hafter
    obtain rfl := Option.some.inj hafter
    refine ⟨by rw [List.map_append, hrows]; rfl, ?_, fun e he => ?_⟩
    · rw [List.map_append]
      exact hkeys.append (List.nodup_singleton key)
        (List.disjoint_singleton.mpr hnew)
    · rcases List.mem_append.mp he with he | he
      · exact hall e he
      · rw [List.mem_singleton.mp he]
        exact hkey

/-- What is known of a row that has passed the checks. -/
structure RowJoins (scenes : List Scene) (manifest : MetricManifest) (shards : ℕ)
    (metadata : List (ℤ × SidecarRow)) (entry : ℤ × SidecarRow) (j : JoinedRow) : Prop where
  detail : j.detail = entry.2
  metadata : metadata.lookup entry.1 = some j.metadata
  scene : j.scene ∈ scenes
  index : intCell T limit (j.metadata "Dataset row index") = some j.scene.datasetRow
  nonce : intCell T limit (j.metadata "Tx local nonce") =
    some (j.scene.datasetRow - manifest.startTx)
  sender : addressKey T (j.metadata "Sender address") = j.scene.sender
  recipient : addressKey T (j.metadata "Recipient address") = j.scene.recipient
  senderShard : intCell T limit (j.metadata "Sender shard") = some (j.sender : ℤ)
  recipientShard : intCell T limit (j.metadata "Recipient shard") = some (j.recipient : ℤ)
  crossShard : intCell T limit (j.metadata "Cross shard") = some j.cross
  sender_lt : j.sender < shards
  recipient_lt : j.recipient < shards
  cross : j.cross = if j.sender ≠ j.recipient then 1 else 0
  latency : confirmedLatency T j.detail j.cross = some j.latencyMs

/-- **One row**: the checks that it has passed. -/
theorem joinDetail_eq_some {scenes : List Scene} {manifest : MetricManifest} {shards : ℕ}
    {metadata : List (ℤ × SidecarRow)} {recovered : Bool} {entry : ℤ × SidecarRow} {j : JoinedRow}
    (h : joinDetail T limit scenes manifest shards metadata recovered entry = some j) :
    RowJoins T limit scenes manifest shards metadata entry j := by
  rw [joinDetail] at h
  obtain ⟨row, hrow, h⟩ := Option.bind_eq_some_iff.mp h
  obtain ⟨-, h⟩ := Option.ite_none_left_eq_some.mp h
  obtain ⟨-, h⟩ := Option.ite_none_left_eq_some.mp h
  obtain ⟨index, hindex, h⟩ := Option.bind_eq_some_iff.mp h
  obtain ⟨scene, hscene, h⟩ := Option.bind_eq_some_iff.mp h
  obtain ⟨nonce, hnonce, h⟩ := Option.bind_eq_some_iff.mp h
  obtain ⟨hwindow, h⟩ := Option.ite_none_left_eq_some.mp h
  obtain ⟨haddress, h⟩ := Option.ite_none_left_eq_some.mp h
  obtain ⟨sender, hsender, h⟩ := Option.bind_eq_some_iff.mp h
  obtain ⟨recipient, hrecipient, h⟩ := Option.bind_eq_some_iff.mp h
  obtain ⟨hrange, h⟩ := Option.ite_none_left_eq_some.mp h
  obtain ⟨cross, hcross, h⟩ := Option.bind_eq_some_iff.mp h
  obtain ⟨hagree, h⟩ := Option.ite_none_left_eq_some.mp h
  obtain ⟨latencyMs, hlatency, rfl⟩ := Option.map_eq_some_iff.mp h
  have hsceneRow : scene.datasetRow = index := by
    simpa using List.find?_some hscene
  have hmem : scene ∈ scenes := List.mem_reverse.mp (List.mem_of_find?_eq_some hscene)
  obtain ⟨hs0, hs1, hr0, hr1⟩ := not_not.mp hrange
  have hsenderNat : (sender.toNat : ℤ) = sender := Int.toNat_of_nonneg hs0
  have hrecipientNat : (recipient.toNat : ℤ) = recipient := Int.toNat_of_nonneg hr0
  obtain ⟨-, hcrossEq⟩ := not_or.mp hagree
  obtain ⟨haddress, haddress'⟩ := not_or.mp haddress
  refine {
    detail := rfl, metadata := hrow, scene := hmem, index := by rw [hindex, hsceneRow]
    nonce := by rw [hnonce, hsceneRow, not_not.mp hwindow]
    sender := not_not.mp haddress, recipient := not_not.mp haddress'
    senderShard := by rw [hsender, hsenderNat], recipientShard := by rw [hrecipient, hrecipientNat]
    crossShard := hcross, sender_lt := (Int.toNat_lt hs0).mpr hs1
    recipient_lt := (Int.toNat_lt hr0).mpr hr1
    cross := ?_, latency := hlatency }
  rw [not_not.mp hcrossEq]
  refine if_congr (not_congr ⟨fun heq => by rw [heq], fun heq => ?_⟩) rfl rfl
  rw [← hsenderNat, ← hrecipientNat]
  exact congrArg _ heq

end Rows

/-! ## The loop -/

/-- What the metrics have when some rows have gone by. -/
structure CountedMetric (manifest : MetricManifest) (rows : List JoinedRow) (m : IoTMetrics) :
    Prop where
  manifest : m.manifest = manifest
  seen : m.seen = (rows.map (·.scene.datasetRow)).toFinset
  once : (rows.map (·.scene.datasetRow)).Nodup
  sound : ∀ name, (m.groups name).Sound
  splits : (m.groups .all).Splits (m.groups .controlProtocol) (m.groups .otherProtocol)
  count : (m.groups .all).count = rows.length
  cross : (m.groups .all).cross = (rows.map (·.cross)).sum

/-- What the loads are when some rows have gone by. -/
structure CountedLoads (shards : ℕ) (rows : List JoinedRow) (stageLoads : List ℕ)
    (effectiveLoads : List ℚ) : Prop where
  stageLength : stageLoads.length = shards
  stageSum : (stageLoads.sum : ℤ) = rows.length + (rows.map (·.cross)).sum
  effectiveLength : effectiveLoads.length = shards
  effectiveSum : effectiveLoads.sum = rows.length

section Counted

variable {manifest : MetricManifest} {shards : ℕ} {rows : List JoinedRow} {j : JoinedRow}

/-- **One row in the metrics**: it is of the one protocol group or of the other. -/
theorem CountedMetric.add {m m' : IoTMetrics} (hm : CountedMetric manifest rows m) {latency : ℚ}
    (h : m.add j.scene j.cross (some latency) = some m') :
    CountedMetric manifest (rows ++ [j]) m' := by
  obtain ⟨hnew, hcross, hmanifest, hseen, hgroups⟩ := IoTMetrics.add_eq_some h
  obtain ⟨hall, hcontrol, hother⟩ := IoTMetrics.mem_selected m.manifest j.scene
  have hgroup : ∀ name ∈ IoTMetrics.selected m.manifest j.scene,
      (m.groups name).add j.scene j.cross (some latency) = some (m'.groups name) := by
    intro name hname
    simpa [hname] using hgroups name
  have hkept : ∀ name, name ∉ IoTMetrics.selected m.manifest j.scene →
      m'.groups name = m.groups name := by
    intro name hname
    simpa [hname] using hgroups name
  have hsplits : (m'.groups .all).Splits (m'.groups .controlProtocol)
      (m'.groups .otherProtocol) := by
    cases hprotocol : j.scene.control with
    | true =>
      rw [hkept .otherProtocol fun hmem => by simp [hother.mp hmem] at hprotocol]
      exact hm.splits.add_left (hgroup _ hall) (hgroup _ (hcontrol.mpr hprotocol))
    | false =>
      rw [hkept .controlProtocol fun hmem => by simp [hcontrol.mp hmem] at hprotocol]
      exact (hm.splits.symm.add_left (hgroup _ hall) (hgroup _ (hother.mpr hprotocol))).symm
  obtain ⟨-, htotals⟩ := Totals.add_eq_some (hgroup _ hall)
  refine ⟨hmanifest.trans hm.manifest, ?_, ?_, fun name => ?_, hsplits, ?_, ?_⟩
  · rw [hseen, hm.seen, List.map_append, List.toFinset_append, Finset.union_comm]
    rfl
  · rw [hm.seen, List.mem_toFinset] at hnew
    rw [List.map_append]
    exact hm.once.append (List.nodup_singleton _) (List.disjoint_singleton.mpr hnew)
  · by_cases hname : name ∈ IoTMetrics.selected m.manifest j.scene
    · exact (hm.sound name).add hcross (hgroup name hname)
    · rw [hkept name hname]
      exact hm.sound name
  · rw [htotals, List.length_append, ← hm.count]
    rfl
  · rw [htotals, List.map_append, List.sum_append, ← hm.cross, List.map_singleton,
      List.sum_singleton]

/-- A row in one shard. -/
theorem CountedLoads.intra {stageLoads : List ℕ} {effectiveLoads : List ℚ}
    (h : CountedLoads shards rows stageLoads effectiveLoads) (hcross : j.cross = 0)
    (hsender : j.sender < shards) :
    CountedLoads shards (rows ++ [j]) (stageLoads.modify j.sender (· + 1))
      (effectiveLoads.modify j.sender (· + 1)) := by
  obtain ⟨hlen, hsum, hlen', hsum'⟩ := h
  refine ⟨by rw [List.length_modify, hlen], ?_, by rw [List.length_modify, hlen'], ?_⟩
  · rw [sum_modify_add 1 (hlen ▸ hsender), List.map_append, List.sum_append, List.length_append,
      List.map_singleton, List.sum_singleton, List.length_singleton, hcross]
    omega
  · rw [sum_modify_add 1 (hlen' ▸ hsender), hsum', List.length_append, List.length_singleton,
      Nat.cast_add, Nat.cast_one]

/-- A row in two shards. -/
theorem CountedLoads.cross {stageLoads : List ℕ} {effectiveLoads : List ℚ}
    (h : CountedLoads shards rows stageLoads effectiveLoads) (hcross : j.cross = 1)
    (hsender : j.sender < shards) (hrecipient : j.recipient < shards) :
    CountedLoads shards (rows ++ [j])
      ((stageLoads.modify j.sender (· + 1)).modify j.recipient (· + 1))
      ((effectiveLoads.modify j.sender (· + 1 / 2)).modify j.recipient (· + 1 / 2)) := by
  obtain ⟨hlen, hsum, hlen', hsum'⟩ := h
  have hstage : j.recipient < (stageLoads.modify j.sender (· + 1)).length := by
    rw [List.length_modify, hlen]
    exact hrecipient
  have heffective : j.recipient < (effectiveLoads.modify j.sender (· + 1 / 2)).length := by
    rw [List.length_modify, hlen']
    exact hrecipient
  refine ⟨by rw [List.length_modify, List.length_modify, hlen], ?_,
    by rw [List.length_modify, List.length_modify, hlen'], ?_⟩
  · rw [sum_modify_add 1 hstage, sum_modify_add 1 (hlen ▸ hsender), List.map_append,
      List.sum_append, List.length_append, List.map_singleton, List.sum_singleton,
      List.length_singleton, hcross]
    omega
  · rw [sum_modify_add _ heffective, sum_modify_add _ (hlen' ▸ hsender), hsum', List.length_append,
      List.length_singleton, Nat.cast_add, Nat.cast_one, add_assoc, add_halves]

/-- What the loop has when some rows have gone by. -/
def Counted (manifest : MetricManifest) (shards : ℕ) (rows : List JoinedRow) (s : DetailLoads) :
    Prop :=
  CountedMetric manifest rows s.metric ∧ CountedLoads shards rows s.stageLoads s.effectiveLoads

theorem counted_new (manifest : MetricManifest) (shards : ℕ) :
    Counted manifest shards []
      ⟨.new manifest, List.replicate shards 0, List.replicate shards 0⟩ :=
  ⟨⟨rfl, rfl, List.nodup_nil, fun _ => .new, .new, rfl, rfl⟩,
    ⟨List.length_replicate, by simp, List.length_replicate, by simp⟩⟩

/-- **One row.** -/
theorem Counted.addJoined {s s' : DetailLoads} (hs : Counted manifest shards rows s)
    (hsender : j.sender < shards) (hrecipient : j.recipient < shards)
    (h : addJoined s j = some s') : Counted manifest shards (rows ++ [j]) s' := by
  obtain ⟨hmetric, hloads⟩ := hs
  obtain ⟨metric, hadd, rfl⟩ := Option.map_eq_some_iff.mp h
  obtain ⟨-, hcross, -⟩ := IoTMetrics.add_eq_some hadd
  rcases hcross with hzero | hone
  · rw [if_neg (not_not.mpr hzero)]
    exact ⟨hmetric.add hadd, hloads.intra hzero hsender⟩
  · rw [if_pos (by omega)]
    exact ⟨hmetric.add hadd, hloads.cross hone hsender hrecipient⟩

/-- **The run**: by induction on the rows that have gone by. -/
theorem counted_run (hshards : ∀ j ∈ rows, j.sender < shards ∧ j.recipient < shards)
    {s : DetailLoads} (h : rows.foldlM ChainDetails.addJoined
      ⟨.new manifest, List.replicate shards 0, List.replicate shards 0⟩ = some s) :
    Counted manifest shards rows s := by
  induction rows using List.reverseRecOn generalizing s with
  | nil =>
    obtain rfl := Option.some.inj h
    exact counted_new manifest shards
  | append_singleton rows j ih =>
    rw [List.foldlM_append] at h
    obtain ⟨before, hbefore, h⟩ := Option.bind_eq_some_iff.mp h
    rw [List.foldlM_cons] at h
    obtain ⟨after, hafter, h⟩ := Option.bind_eq_some_iff.mp h
    obtain rfl := Option.some.inj h
    obtain ⟨hsender, hrecipient⟩ := hshards j (by simp)
    have hcounted := ih (fun i hi => hshards i (List.mem_append_left _ hi)) hbefore
    exact hcounted.addJoined hsender hrecipient hafter

end Counted

/-! ## The result -/

/-- How many rows are of two shards. -/
def crossCount (rows : List JoinedRow) : ℕ := rows.countP fun j => j.sender ≠ j.recipient

section Result

variable (T : TextTables) (isDigit : Char → Bool) (limit : ℕ)

/-- The rows of the details belong one to one to the scenes, and these are those of the window:
each row, its metadata and its scene agree. -/
structure Matched (detailRows : List SidecarRow) (scenes : List Scene) (manifest : MetricManifest)
    (metadataRows : Option (List SidecarRow)) (joined : List JoinedRow) : Prop where
  detail_eq : joined.map (·.detail) = detailRows
  hashes : (joined.map fun j => hashKey T isDigit limit j.detail).Nodup
  scene_perm : (joined.map (·.scene)).Perm scenes
  once : (scenes.map (·.datasetRow)).Nodup
  window : ∀ i, i ∈ scenes.map (·.datasetRow) ↔
    manifest.startTx ≤ i ∧ i < manifest.endTxExclusive
  metadata_mem : ∀ j ∈ joined, j.metadata ∈ metadataRows.getD detailRows ∧
    hashKey T isDigit limit j.metadata = hashKey T isDigit limit j.detail
  index : ∀ j ∈ joined,
    intCell T limit (j.metadata "Dataset row index") = some j.scene.datasetRow
  addresses : ∀ j ∈ joined, addressKey T (j.metadata "Sender address") = j.scene.sender ∧
    addressKey T (j.metadata "Recipient address") = j.scene.recipient
  shards : ∀ j ∈ joined, intCell T limit (j.metadata "Sender shard") = some (j.sender : ℤ) ∧
    intCell T limit (j.metadata "Recipient shard") = some (j.recipient : ℤ) ∧
    intCell T limit (j.metadata "Cross shard") = some (if j.sender ≠ j.recipient then 1 else 0)

theorem loadStatistics_total {loads : List ℚ} {statistics : LoadStatistics}
    (h : loadStatistics loads = some statistics) : statistics.total = loads.sum := by
  rw [loadStatistics] at h
  obtain ⟨-, h⟩ := Option.ite_none_left_eq_some.mp h
  obtain rfl := Option.some.inj h
  rfl

theorem sum_cross {joined : List JoinedRow}
    (h : ∀ j ∈ joined, j.cross = if j.sender ≠ j.recipient then 1 else 0) :
    (joined.map (·.cross)).sum = crossCount joined := by
  induction joined with
  | nil => rfl
  | cons j joined ih =>
    have hj := h j List.mem_cons_self
    rw [List.map_cons, List.sum_cons, ih fun i hi => h i (List.mem_cons_of_mem _ hi), hj,
      crossCount, crossCount, List.countP_cons, Nat.cast_add, add_comm]
    by_cases hne : j.sender ≠ j.recipient
    · simp [hne]
    · simp [hne]

/-- What the mapping of the details gives. -/
theorem map_detail {scenes : List Scene} {manifest : MetricManifest} {shards : ℕ}
    {metadata details : List (ℤ × SidecarRow)} {recovered : Bool} {joined : List JoinedRow}
    (h : details.mapM (joinDetail T limit scenes manifest shards metadata recovered) =
      some joined) : joined.map (·.detail) = details.map (·.2) :=
  Fallible.map_mapM (fun _ _ hentry => (joinDetail_eq_some T limit hentry).detail) h

/-- Distinct elements of a list that are as many are all of it. -/
theorem perm_of_subset {α : Type} {l l' : List α} (hnodup : l.Nodup) (hsub : l ⊆ l')
    (hlen : l'.length ≤ l.length) : l.Perm l' :=
  (List.subperm_of_subset hnodup hsub).perm_of_length_le hlen

variable {T isDigit limit}

/-- What the loop has seen, it has seen in the window, and all of the window. -/
theorem scenes_of_seen {scenes : List Scene} {manifest : MetricManifest} {joined : List JoinedRow}
    {m : IoTMetrics} {groups : GroupName → GroupSummary} (hm : CountedMetric manifest joined m)
    (hsummary : m.summary = some groups) (hmem : ∀ j ∈ joined, j.scene ∈ scenes)
    (hlen : scenes.length ≤ joined.length) :
    (joined.map (·.scene)).Perm scenes ∧ (scenes.map (·.datasetRow)).Nodup ∧
      ∀ i, i ∈ scenes.map (·.datasetRow) ↔
        manifest.startTx ≤ i ∧ i < manifest.endTxExclusive := by
  rw [IoTMetrics.summary] at hsummary
  obtain ⟨hseen, -⟩ := Option.ite_none_left_eq_some.mp hsummary
  have hrows : (joined.map (·.scene)).map (·.datasetRow) = joined.map (·.scene.datasetRow) := by
    rw [List.map_map]
    rfl
  have hnodup : (joined.map (·.scene)).Nodup := by
    refine List.Nodup.of_map (fun s : Scene => s.datasetRow) ?_
    rw [hrows]
    exact hm.once
  have hsub : joined.map (·.scene) ⊆ scenes := fun scene hscene => by
    obtain ⟨j, hj, rfl⟩ := List.mem_map.mp hscene
    exact hmem j hj
  have hperm : (joined.map (·.scene)).Perm scenes :=
    perm_of_subset hnodup hsub (by rw [List.length_map]; exact hlen)
  have hpermRows : (joined.map (·.scene.datasetRow)).Perm (scenes.map (·.datasetRow)) := by
    rw [← hrows]
    exact hperm.map _
  refine ⟨hperm, hpermRows.nodup_iff.mp hm.once, fun i => ?_⟩
  rw [← hpermRows.mem_iff, ← List.mem_toFinset, ← hm.seen, not_not.mp hseen, hm.manifest,
    IoTMetrics.mem_rangeSet]

/-- The metadata of a row that has passed the checks. -/
theorem metadata_of_joins {scenes : List Scene} {manifest : MetricManifest} {shards : ℕ}
    {rows : List SidecarRow} {metadata : List (ℤ × SidecarRow)} {entry : ℤ × SidecarRow}
    {j : JoinedRow} (hmetadata : uniqueByHash T isDigit limit rows = some metadata)
    (hentry : hashKey T isDigit limit entry.2 = some entry.1)
    (h : RowJoins T limit scenes manifest shards metadata entry j) :
    j.metadata ∈ rows ∧
      hashKey T isDigit limit j.metadata = hashKey T isDigit limit j.detail := by
  obtain ⟨hrows, -, hhash⟩ := uniqueByHash_eq_some T isDigit limit hmetadata
  obtain ⟨before, after, hsplit, -⟩ := List.lookup_eq_some_iff.mp h.metadata
  have hmem : (entry.1, j.metadata) ∈ metadata := by
    rw [hsplit]
    simp
  refine ⟨?_, ?_⟩
  · rw [← hrows]
    exact List.mem_map_of_mem hmem
  · rw [hhash _ hmem, h.detail, hentry]

/-- The rows that have passed the checks come from the entries. -/
theorem joins_of_mapM {scenes : List Scene} {manifest : MetricManifest} {shards : ℕ}
    {metadata details : List (ℤ × SidecarRow)} {recovered : Bool} {joined : List JoinedRow}
    (h : details.mapM (joinDetail T limit scenes manifest shards metadata recovered) =
      some joined) :
    ∀ j ∈ joined, ∃ entry ∈ details,
      RowJoins T limit scenes manifest shards metadata entry j := by
  intro j hj
  obtain ⟨entry, hentry, hjoin⟩ := Fallible.mem_mapM h hj
  exact ⟨entry, hentry, joinDetail_eq_some T limit hjoin⟩

/-- No two rows have one hash. -/
theorem hashes_nodup {rows : List SidecarRow} {details : List (ℤ × SidecarRow)}
    {joined : List JoinedRow} (hdetails : uniqueByHash T isDigit limit rows = some details)
    (hdetail : joined.map (·.detail) = rows) :
    (joined.map fun j => hashKey T isDigit limit j.detail).Nodup := by
  obtain ⟨hrows, hkeys, hhash⟩ := uniqueByHash_eq_some T isDigit limit hdetails
  have hmaps : (joined.map fun j => hashKey T isDigit limit j.detail) =
      (joined.map (·.detail)).map (hashKey T isDigit limit) := by
    rw [List.map_map]
    rfl
  have hsame : (joined.map fun j => hashKey T isDigit limit j.detail) =
      (details.map (·.1)).map some := by
    rw [hmaps, hdetail, ← hrows, List.map_map, List.map_map]
    exact List.map_congr_left hhash
  rw [hsame]
  exact hkeys.map (Option.some_injective ℤ)

/-- Rows that have passed the checks, and whose scenes have been seen, are matched. -/
theorem matched_of_joins {rows : List SidecarRow} {scenes : List Scene}
    {manifest : MetricManifest} {shards : ℕ} {metadataRows : Option (List SidecarRow)}
    {metadata details : List (ℤ × SidecarRow)} {recovered : Bool} {joined : List JoinedRow}
    {m : IoTMetrics} {groups : GroupName → GroupSummary}
    (hdetails : uniqueByHash T isDigit limit rows = some details)
    (hmetadata : uniqueByHash T isDigit limit (metadataRows.getD rows) = some metadata)
    (hlength : details.length = scenes.length)
    (hjoined : details.mapM (joinDetail T limit scenes manifest shards metadata recovered) =
      some joined)
    (hmetric : CountedMetric manifest joined m) (hsummary : m.summary = some groups) :
    Matched T isDigit limit rows scenes manifest metadataRows joined := by
  obtain ⟨hrows, -, hhash⟩ := uniqueByHash_eq_some T isDigit limit hdetails
  have hjoins := joins_of_mapM hjoined
  have hdetail : joined.map (·.detail) = rows := by
    rw [map_detail T limit hjoined, hrows]
  have hscenes : ∀ j ∈ joined, j.scene ∈ scenes := by
    intro j hj
    obtain ⟨entry, -, hentry⟩ := hjoins j hj
    exact hentry.scene
  have hlen : scenes.length ≤ joined.length := by
    rw [← hlength, Fallible.mapM_length hjoined]
  obtain ⟨hperm, honce, hwindow⟩ := scenes_of_seen hmetric hsummary hscenes hlen
  refine ⟨hdetail, hashes_nodup hdetails hdetail, hperm, honce, hwindow, ?_, ?_, ?_, ?_⟩
  all_goals
    intro j hj
    obtain ⟨entry, hmem, hentry⟩ := hjoins j hj
  · exact metadata_of_joins hmetadata (hhash entry hmem) hentry
  · exact hentry.index
  · exact ⟨hentry.sender, hentry.recipient⟩
  · exact ⟨hentry.senderShard, hentry.recipientShard, hentry.cross ▸ hentry.crossShard⟩

/-- The ratios of sound totals. -/
theorem Totals.Sound.ratios {t : Totals} (h : t.Sound) :
    InUnit t.summary.crossRatio ∧ InUnit t.summary.costWeightedCrossRatio ∧
      InUnit t.summary.payloadWeightedCrossRatio := by
  refine ⟨ratio_inUnit ?_ ?_, ratio_inUnit h.crossCost_nonneg h.crossCost_le,
    ratio_inUnit h.crossPayload_nonneg h.crossPayload_le⟩
  · exact_mod_cast h.cross_nonneg
  · exact_mod_cast h.cross_le

theorem groups_of_summary {m : IoTMetrics} {groups : GroupName → GroupSummary}
    (h : m.summary = some groups) : groups = fun name => (m.groups name).summary := by
  rw [IoTMetrics.summary] at h
  exact (Option.some.inj (Option.ite_none_left_eq_some.mp h).2).symm

/-- Texts of ASCII characters. -/
def asciiTables : TextTables := ⟨id, id, fun _ => none, fun _ => false⟩

/-- A row by its cells. -/
def rowOf (cells : List (String × String)) : SidecarRow := fun name =>
  ((cells.lookup name).getD "").toList

/-- A row of `Tx_Details.csv`, by the hash, the nonce, the addresses, the shard of the recipient
and the times. -/
def detailRow (hash nonce index sender recipient recipientShard commit latency relay1 : String) :
    SidecarRow :=
  rowOf [(hashColumn, hash), ("Tx local nonce", nonce), ("Dataset row index", index),
    ("Sender address", sender), ("Recipient address", recipient), ("Sender shard", "0"),
    ("Recipient shard", recipientShard), ("Cross shard", recipientShard),
    ("Tx propose timestamp", "1000000"), ("Tx finally commit timestamp", commit),
    ("Confirmed latency of this tx (ms)", latency),
    ("Relay1 Tx commit timestamp (not a relay tx -> nil)", relay1),
    ("Relay2 Tx commit timestamp (not a relay tx -> nil)", if relay1 = "" then "" else commit)]

/-- Rows in another order than the scenes, one of them of two shards. -/
def detailRows : List SidecarRow :=
  [detailRow "101" "1" "6" "0xc" "0xD" "1" "1002000" "2000" "1000500",
    detailRow "100" "0" "5" "0xa" "0xb" "0" "1001000" "1000" ""]

/-- The scenes of the rows. -/
def detailScenes : List Scene :=
  [⟨5, 105, ['a'], ['b'], 0, 0, 0, 1, false, by decide, by decide, by decide, by decide, by decide,
      by decide, by decide, by decide⟩,
    ⟨6, 106, ['c'], ['d'], 1 / 5, 100, 12, 1 / 2, true, by decide, by decide, by norm_num,
      by norm_num, by decide, by decide, by norm_num, by norm_num⟩]

/-- Their window. -/
def detailManifest : MetricManifest := ⟨5, 7, 4 / 5, 900, 30, 1 / 5⟩

end Result

end BlockEmulator.ChainDetails
