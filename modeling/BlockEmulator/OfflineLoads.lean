import BlockEmulator.OfflineAddress
import BlockEmulator.SpringParams
import Mathlib.Data.List.AList
import Mathlib.Algebra.BigOperators.Group.List.Basic
import Mathlib.Tactic.NormNum

/-!
# Loads of a batch in the offline environment (`_simulate_batch_loads`)

The offline environment does not execute transactions: it charges each to the shards of
its two ends, in one pass over the batch. A list is indexed by the shard, and an index
out of range is the `IndexError` of Python, `none` here.

* `PlacedBy` — the table, with the hash placement for what it does not hold, is a given
  placement. The pass may fill the table, and keeps this.
* `simulateBatchLoads_spec` — **what the pass computes**: the sums, over the batch, of
  what each transaction costs each shard.
-/

namespace BlockEmulator

/-! ## Transactions and the table -/

/-- `Tx`. -/
structure OfflineTx where
  /-- `sender` -/
  sender : Address
  /-- `recipient` -/
  recipient : Address
  /-- `related_addresses` -/
  relatedAddresses : List Address
  /-- `related_weights` -/
  relatedWeights : List ℚ
  /-- `iot_features` -/
  iotFeatures : List ℚ
  /-- `communication_cost_weight` -/
  communicationCostWeight : ℚ
  /-- `real_accounts` -/
  realAccounts : Bool
  /-- `recipient_iot_features` -/
  recipientIotFeatures : List ℚ
  /-- `recipient_communication_cost_weight` -/
  recipientCommunicationCostWeight : ℚ
  deriving DecidableEq

/-- `EPS`. -/
def offlineEps : ℚ := 1 / 100000000

theorem offlineEps_pos : 0 < offlineEps := by
  rw [offlineEps]
  norm_num

/-- `tx_related_addresses`. -/
def txRelatedAddresses (tx : OfflineTx) : List Address :=
  if tx.relatedAddresses ≠ [] then tx.relatedAddresses
  else if tx.recipient ≠ "" then [tx.recipient]
  else []

/-- `tx_related_weight_pairs`. -/
def txRelatedWeightPairs (tx : OfflineTx) : List (Address × ℚ) :=
  let anchors := txRelatedAddresses tx
  let weights :=
    if tx.relatedWeights.length ≠ anchors.length then anchors.map fun _ => 1
    else tx.relatedWeights
  let weights := weights.map fun weight => max 0 weight
  let total := weights.sum
  let weights :=
    -- no weight at all: the anchors share evenly
    if total ≤ offlineEps then weights.map fun _ => 1 / (anchors.length : ℚ)
    else weights.map (· / total)
  anchors.zip weights

/-- `addr_shard`, and `springAddrShard`: the placement table. -/
abbrev AddrShard : Type := AList fun _ : Address => ℕ

/-- `l[i] += x`. -/
def indexAdd {α : Type} [Add α] (l : List α) (i : ℕ) (x : α) : Option (List α) :=
  if i < l.length then some (l.modify i (· + x)) else none

/-! ## The pass over the batch -/

/-- `BatchLoadSimulation`, while it is built: the communication cost is still a sum. -/
structure BatchLoadSimulation where
  /-- `stage_loads` -/
  stageLoads : List ℕ
  /-- `effective_loads` -/
  effectiveLoads : List ℚ
  /-- `cross_loads` -/
  crossLoads : List ℚ
  /-- `owner_loads` -/
  ownerLoads : List ℕ
  /-- `relation_effective_loads` -/
  relationEffectiveLoads : List ℚ
  /-- `relation_cross_loads` -/
  relationCrossLoads : List ℚ
  /-- `total_inner` -/
  totalInner : ℕ
  /-- `total_relay1` -/
  totalRelay1 : ℕ
  /-- `total_relay2` -/
  totalRelay2 : ℕ
  /-- `communication_cost` -/
  communicationCost : ℚ

/-- The lists of zeros. -/
def BatchLoadSimulation.zero (shards : ℕ) : BatchLoadSimulation where
  stageLoads := List.replicate shards 0
  effectiveLoads := List.replicate shards 0
  crossLoads := List.replicate shards 0
  ownerLoads := List.replicate shards 0
  relationEffectiveLoads := List.replicate shards 0
  relationCrossLoads := List.replicate shards 0
  totalInner := 0
  totalRelay1 := 0
  totalRelay2 := 0
  communicationCost := 0

/-- The part of the environment's configuration that the pass reads. -/
structure LoadConfig where
  /-- `shards` -/
  shards : ℕ
  /-- `mechanism_version` -/
  mechanismVersion : MechanismVersion
  /-- `scene_cost_mode` -/
  sceneCostMode : SceneCostMode

section

variable (addr2shard : Address → ℕ) (env : LoadConfig)

/-- The shard of an address; one that is not in the table is entered by its hash. -/
def shardOrHash (addr : Address) (addrShard : AddrShard) : ℕ × AddrShard :=
  match addrShard.lookup addr with
  | some sid => (sid, addrShard)
  | none => (addr2shard addr, addrShard.insert addr (addr2shard addr))

/-- The loop over the related addresses of one transaction. -/
def chargeRelated (senderShard : ℕ) :
    List (Address × ℚ) → BatchLoadSimulation × AddrShard →
      Option (BatchLoadSimulation × AddrShard)
  | [], acc => some acc
  | (anchor, weight) :: pairs, (sim, addrShard) =>
    let (anchorShard, addrShard) := shardOrHash addr2shard anchor addrShard
    -- a relation across shards counts half on either side
    if senderShard = anchorShard then
      (indexAdd sim.relationEffectiveLoads senderShard weight).bind fun effective =>
        chargeRelated senderShard pairs ({ sim with relationEffectiveLoads := effective }, addrShard)
    else
      (indexAdd sim.relationEffectiveLoads senderShard (weight / 2)).bind fun effective =>
      (indexAdd effective anchorShard (weight / 2)).bind fun effective =>
      (indexAdd sim.relationCrossLoads senderShard (weight / 2)).bind fun cross =>
      (indexAdd cross anchorShard (weight / 2)).bind fun cross =>
        chargeRelated senderShard pairs
          ({ sim with relationEffectiveLoads := effective, relationCrossLoads := cross }, addrShard)

/-- The loads of the two ends of one transaction. -/
def chargeEnds (senderShard recipientShard : ℕ) (sim : BatchLoadSimulation) :
    Option BatchLoadSimulation :=
  (indexAdd sim.ownerLoads recipientShard 1).bind fun owner =>
  (indexAdd sim.stageLoads senderShard 1).bind fun stage =>
    if senderShard = recipientShard then
      (indexAdd sim.effectiveLoads senderShard 1).map fun effective =>
        { sim with
          ownerLoads := owner
          stageLoads := stage
          effectiveLoads := effective
          totalInner := sim.totalInner + 1 }
    else
      (indexAdd stage recipientShard 1).bind fun stage =>
      (indexAdd sim.effectiveLoads senderShard (1 / 2)).bind fun effective =>
      (indexAdd effective recipientShard (1 / 2)).bind fun effective =>
      (indexAdd sim.crossLoads senderShard (1 / 2)).bind fun cross =>
      (indexAdd cross recipientShard (1 / 2)).map fun cross =>
        { sim with
          ownerLoads := owner
          stageLoads := stage
          effectiveLoads := effective
          crossLoads := cross
          totalRelay1 := sim.totalRelay1 + 1
          totalRelay2 := sim.totalRelay2 + 1 }

/-- `cost_factor`. -/
def costFactor (cross : Bool) : ℚ :=
  if env.mechanismVersion = .v3 then
    if env.sceneCostMode = .cross ∧ cross then 1 else 0
  else 1

/-- The loop of `_simulate_batch_loads`. -/
def simulateTxs :
    List OfflineTx → BatchLoadSimulation × AddrShard → Option (BatchLoadSimulation × AddrShard)
  | [], acc => some acc
  | tx :: txs, (sim, addrShard) =>
    let (senderShard, addrShard) := shardOrHash addr2shard tx.sender addrShard
    let (recipientShard, addrShard) := shardOrHash addr2shard tx.recipient addrShard
    (chargeEnds senderShard recipientShard sim).bind fun sim =>
    (chargeRelated addr2shard senderShard (txRelatedWeightPairs tx) (sim, addrShard)).bind fun acc =>
      let cost := tx.communicationCostWeight * costFactor env (senderShard != recipientShard)
      simulateTxs txs ({ acc.1 with communicationCost := acc.1.communicationCost + cost }, acc.2)

/-- `_simulate_batch_loads`, with the table as the pass leaves it. -/
def simulateBatchLoads (txs : List OfflineTx) (addrShard : AddrShard) :
    Option (BatchLoadSimulation × AddrShard) :=
  (simulateTxs addr2shard env txs (.zero env.shards, addrShard)).map fun acc =>
    let cost := springClamp (acc.1.communicationCost / max 1 txs.length) 0 1
    ({ acc.1 with communicationCost := cost }, acc.2)

end

/-! ## What the pass computes -/

/-- A list over the shards. -/
def loadsOf {α : Type} (n : ℕ) (f : ℕ → α) : List α := (List.range n).map f

theorem loadsOf_zero {α : Type} [Zero α] (n : ℕ) :
    List.replicate n (0 : α) = loadsOf n fun _ => 0 := by
  simp [loadsOf]

theorem loadsOf_getElem? {α : Type} {n i : ℕ} (f : ℕ → α) (h : i < n) :
    (loadsOf n f)[i]? = some (f i) := by
  simp [loadsOf, h]

theorem indexAdd_loadsOf {α : Type} [AddZeroClass α] {n i : ℕ} (f : ℕ → α) (h : i < n) (x : α) :
    indexAdd (loadsOf n f) i x = some (loadsOf n fun s => f s + if s = i then x else 0) := by
  rw [indexAdd, if_pos (by simpa [loadsOf] using h)]
  refine congrArg some (List.ext_getElem? fun s => ?_)
  rw [List.getElem?_modify, loadsOf, loadsOf, List.getElem?_map, List.getElem?_map]
  by_cases hs : s < n
  · by_cases heq : i = s
    · simp [hs, heq]
    · simp [hs, heq, Ne.symm heq]
  · simp [hs]

theorem indexAdd_length {α : Type} [Add α] {l : List α} {i n : ℕ} (hl : l.length = n)
    (h : i < n) (x : α) : ∃ l', indexAdd l i x = some l' ∧ l'.length = n :=
  ⟨_, if_pos (hl ▸ h), by simpa using hl⟩

theorem indexAdd_nonneg {l l' : List ℚ} {i : ℕ} {x : ℚ} (hl : ∀ c ∈ l, 0 ≤ c) (hx : 0 ≤ x)
    (h : indexAdd l i x = some l') : (∀ c ∈ l', 0 ≤ c) ∧ l'.length = l.length := by
  rw [indexAdd] at h
  split at h
  · obtain rfl := Option.some.inj h
    refine ⟨fun c hc => ?_, List.length_modify _ _ _⟩
    obtain ⟨k, hk, rfl⟩ := List.mem_iff_getElem.mp hc
    rw [List.length_modify] at hk
    rw [List.getElem_modify]
    split
    · exact add_nonneg (hl _ (List.getElem_mem hk)) hx
    · exact hl _ (List.getElem_mem hk)
  · cases h

/-- What a transaction between two shards costs a shard in executed stages. -/
def stageOf (a b s : ℕ) : ℕ := (if s = a then 1 else 0) + (if a ≠ b ∧ s = b then 1 else 0)

/-- In transactions. -/
def effectiveOf (a b s : ℕ) : ℚ := (if s = a then 1 / 2 else 0) + (if s = b then 1 / 2 else 0)

/-- In cross-shard transactions. -/
def crossOf (a b s : ℕ) : ℚ := if a = b then 0 else effectiveOf a b s

/-- Whether a table, with the hash placement behind it, is a given placement. -/
def PlacedBy (addr2shard : Address → ℕ) (place : Address → ℕ) (addrShard : AddrShard) : Prop :=
  ∀ addr, (addrShard.lookup addr).getD (addr2shard addr) = place addr

variable {addr2shard : Address → ℕ} {place : Address → ℕ} {addrShard : AddrShard} {env : LoadConfig}

theorem shardOrHash_spec (h : PlacedBy addr2shard place addrShard) (addr : Address) :
    (shardOrHash addr2shard addr addrShard).1 = place addr ∧
      PlacedBy addr2shard place (shardOrHash addr2shard addr addrShard).2 := by
  rw [shardOrHash]
  split
  · rename_i sid hsid
    refine ⟨?_, h⟩
    rw [← h addr, hsid, Option.getD_some]
  · rename_i hnone
    refine ⟨by rw [← h addr, hnone, Option.getD_none], fun a => ?_⟩
    by_cases ha : a = addr
    · subst ha
      rw [AList.lookup_insert, ← h a, hnone, Option.getD_some, Option.getD_none]
    · rw [AList.lookup_insert_ne ha]
      exact h a

/-- What is said of a simulation on the way: its loads, and that the lists of the
relations are indexed by the shards. -/
structure Charged (n : ℕ) (stage : ℕ → ℕ) (effective cross : ℕ → ℚ)
    (sim : BatchLoadSimulation) : Prop where
  /-- the stages -/
  stageLoads : sim.stageLoads = loadsOf n stage
  /-- the transactions -/
  effectiveLoads : sim.effectiveLoads = loadsOf n effective
  /-- the cross-shard transactions -/
  crossLoads : sim.crossLoads = loadsOf n cross
  /-- one entry for each shard -/
  owner : sim.ownerLoads.length = n
  /-- one entry for each shard -/
  relationEffective : sim.relationEffectiveLoads.length = n
  /-- one entry for each shard -/
  relationCross : sim.relationCrossLoads.length = n

variable {n : ℕ} {stage : ℕ → ℕ} {effective cross : ℕ → ℚ} {sim : BatchLoadSimulation}

theorem Charged.zero (n : ℕ) : Charged n (fun _ => 0) (fun _ => 0) (fun _ => 0) (.zero n) where
  stageLoads := loadsOf_zero n
  effectiveLoads := loadsOf_zero n
  crossLoads := loadsOf_zero n
  owner := by simp [BatchLoadSimulation.zero]
  relationEffective := by simp [BatchLoadSimulation.zero]
  relationCross := by simp [BatchLoadSimulation.zero]

/-- The related addresses leave the loads alone. -/
theorem chargeRelated_spec (hplace : ∀ a, place a < n) {senderShard : ℕ}
    (hsender : senderShard < n) (pairs : List (Address × ℚ))
    (ht : PlacedBy addr2shard place addrShard) (hc : Charged n stage effective cross sim) :
    ∃ sim' addrShard',
      chargeRelated addr2shard senderShard pairs (sim, addrShard) = some (sim', addrShard') ∧
        PlacedBy addr2shard place addrShard' ∧ Charged n stage effective cross sim' := by
  induction pairs generalizing sim addrShard with
  | nil => exact ⟨sim, addrShard, rfl, ht, hc⟩
  | cons pair pairs ih =>
    obtain ⟨anchor, weight⟩ := pair
    obtain ⟨hsid, ht'⟩ := shardOrHash_spec ht anchor
    rw [chargeRelated]
    simp only [hsid]
    split
    · obtain ⟨eff, heff, hlen⟩ := indexAdd_length hc.relationEffective hsender weight
      rw [heff, Option.bind_some]
      exact ih ht' ⟨hc.1, hc.2, hc.3, hc.4, hlen, hc.6⟩
    · obtain ⟨eff, heff, hlen⟩ := indexAdd_length hc.relationEffective hsender (weight / 2)
      obtain ⟨eff', heff', hlen'⟩ := indexAdd_length hlen (hplace anchor) (weight / 2)
      obtain ⟨cr, hcr, hclen⟩ := indexAdd_length hc.relationCross hsender (weight / 2)
      obtain ⟨cr', hcr', hclen'⟩ := indexAdd_length hclen (hplace anchor) (weight / 2)
      rw [heff, Option.bind_some, heff', Option.bind_some, hcr, Option.bind_some, hcr',
        Option.bind_some]
      exact ih ht' ⟨hc.1, hc.2, hc.3, hc.4, hlen', hclen'⟩

/-- The two ends of a transaction are charged. -/
theorem chargeEnds_spec {a b : ℕ} (ha : a < n) (hb : b < n)
    (hc : Charged n stage effective cross sim) :
    ∃ sim', chargeEnds a b sim = some sim' ∧
      Charged n (fun s => stage s + stageOf a b s) (fun s => effective s + effectiveOf a b s)
        (fun s => cross s + crossOf a b s) sim' := by
  obtain ⟨owner, howner, hlen⟩ := indexAdd_length hc.owner hb 1
  rw [chargeEnds, howner, Option.bind_some, hc.stageLoads, indexAdd_loadsOf _ ha,
    Option.bind_some, hc.effectiveLoads, hc.crossLoads]
  split
  · rename_i heq
    subst heq
    rw [indexAdd_loadsOf _ ha, Option.map_some]
    refine ⟨_, rfl, ?_, ?_, ?_, hlen, hc.5, hc.6⟩
    · simp [stageOf]
    · refine congrArg (loadsOf n) (funext fun s => ?_)
      rw [effectiveOf]
      split
      · norm_num
      · norm_num
    · simp [crossOf]
  · rename_i hne
    rw [indexAdd_loadsOf _ hb, Option.bind_some, indexAdd_loadsOf _ ha, Option.bind_some,
      indexAdd_loadsOf _ hb, Option.bind_some, indexAdd_loadsOf _ ha, Option.bind_some,
      indexAdd_loadsOf _ hb, Option.map_some]
    refine ⟨_, rfl, ?_, ?_, ?_, hlen, hc.5, hc.6⟩
    · simp [stageOf, hne, add_assoc]
    · simp [effectiveOf, add_assoc]
    · simp [crossOf, hne, effectiveOf, add_assoc]

/-- **What the pass computes**: the sums of what the transactions cost. -/
theorem simulateTxs_spec (env : LoadConfig) (hplace : ∀ a, place a < n) (txs : List OfflineTx)
    (ht : PlacedBy addr2shard place addrShard) (hc : Charged n stage effective cross sim) :
    ∃ sim' addrShard',
      simulateTxs addr2shard env txs (sim, addrShard) = some (sim', addrShard') ∧
        PlacedBy addr2shard place addrShard' ∧
        Charged n
          (fun s => stage s +
            (txs.map fun tx => stageOf (place tx.sender) (place tx.recipient) s).sum)
          (fun s => effective s +
            (txs.map fun tx => effectiveOf (place tx.sender) (place tx.recipient) s).sum)
          (fun s => cross s +
            (txs.map fun tx => crossOf (place tx.sender) (place tx.recipient) s).sum) sim' := by
  induction txs generalizing sim addrShard stage effective cross with
  | nil => exact ⟨sim, addrShard, rfl, ht, by simpa using hc⟩
  | cons tx txs ih =>
    obtain ⟨hsender, ht₁⟩ := shardOrHash_spec ht tx.sender
    obtain ⟨hrecipient, ht₂⟩ := shardOrHash_spec ht₁ tx.recipient
    obtain ⟨sim₁, hends, hc₁⟩ := chargeEnds_spec (hplace tx.sender) (hplace tx.recipient) hc
    obtain ⟨sim₂, addrShard₂, hrel, ht₃, hc₂⟩ :=
      chargeRelated_spec hplace (hplace tx.sender) (txRelatedWeightPairs tx) ht₂ hc₁
    rw [simulateTxs]
    simp only [hsender, hrecipient, hends, Option.bind_some, hrel]
    let cost :=
      tx.communicationCostWeight * costFactor env (place tx.sender != place tx.recipient)
    have hc₃ : Charged n _ _ _
        { sim₂ with communicationCost := sim₂.communicationCost + cost } :=
      ⟨hc₂.1, hc₂.2, hc₂.3, hc₂.4, hc₂.5, hc₂.6⟩
    obtain ⟨sim', addrShard', hrun, hp, hfinal⟩ := ih ht₃ hc₃
    refine ⟨sim', addrShard', hrun, hp, ?_⟩
    simpa only [List.map_cons, List.sum_cons, add_assoc] using hfinal

theorem simulateBatchLoads_spec (hplace : ∀ a, place a < env.shards) (txs : List OfflineTx)
    (ht : PlacedBy addr2shard place addrShard) :
    ∃ sim addrShard', simulateBatchLoads addr2shard env txs addrShard = some (sim, addrShard') ∧
      sim.stageLoads = loadsOf env.shards (fun s =>
        (txs.map fun tx => stageOf (place tx.sender) (place tx.recipient) s).sum) ∧
      sim.effectiveLoads = loadsOf env.shards (fun s =>
        (txs.map fun tx => effectiveOf (place tx.sender) (place tx.recipient) s).sum) ∧
      sim.crossLoads = loadsOf env.shards (fun s =>
        (txs.map fun tx => crossOf (place tx.sender) (place tx.recipient) s).sum) ∧
      PlacedBy addr2shard place addrShard' := by
  obtain ⟨sim, addrShard', hrun, hp, hc⟩ :=
    simulateTxs_spec env hplace txs ht (Charged.zero env.shards)
  refine ⟨_, addrShard', by rw [simulateBatchLoads, hrun]; rfl, ?_, ?_, ?_, hp⟩
  · simpa using hc.stageLoads
  · simpa using hc.effectiveLoads
  · simpa using hc.crossLoads

end BlockEmulator
