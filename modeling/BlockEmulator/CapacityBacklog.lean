import BlockEmulator.OfflineEpisode
import Mathlib.Algebra.Order.Field.Basic
import Mathlib.Data.List.GetD
import Mathlib.Tactic.Linarith

/-!
# The capacity backlog (`_apply_capacity_backlog`)

A block of a shard takes so many stages; what is beyond waits for the next batch, and the
effective and the cross-shard loads wait in the same proportion. With the mode switched
off, all that is due is committed at once.

* `drainShard_conserves` — one shard: nothing is lost, nothing is negative.
* `applyCapacityBacklog_eq` — the windows are made of what is committed.
* `backlog_conserved` — **what arrived is committed or pending**, for each load and each
  shard, after every batch; with the backlog, a block keeps to its capacity.
* `uncapped_batch` — without the backlog it need not.
-/

namespace BlockEmulator

open StepSystem SpringOfflineEnv

/-! ## One batch -/

/-- The loads that wait. -/
inductive BacklogLoad where
  /-- `stage` -/
  | stage
  /-- `effective` -/
  | effective
  /-- `cross` -/
  | cross
  deriving DecidableEq

/-- `CapacitySimulation`. -/
structure CapacitySimulation where
  /-- `reward_loads` -/
  rewardLoads : List ℚ
  /-- `committed_stage_loads` -/
  committedStageLoads : List ℚ
  /-- `committed_effective_loads` -/
  committedEffectiveLoads : List ℚ
  /-- `committed_cross_loads` -/
  committedCrossLoads : List ℚ
  /-- `pending_stage_loads` -/
  pendingStageLoads : List ℚ
  /-- `backlog_penalty` -/
  backlogPenalty : ℚ

/-- What is committed of each load. -/
def CapacitySimulation.committed (c : CapacitySimulation) : BacklogLoad → List ℚ
  | .stage => c.committedStageLoads
  | .effective => c.committedEffectiveLoads
  | .cross => c.committedCrossLoads

/-- What a batch brings of each load. -/
def BatchLoadSimulation.arrived (sim : BatchLoadSimulation) : BacklogLoad → List ℚ
  | .stage => sim.stageLoads.map fun (v : ℕ) => (v : ℚ)
  | .effective => sim.effectiveLoads
  | .cross => sim.crossLoads

/-- What one turn of the loop over the shards computes. -/
structure ShardDrain where
  /-- `stage_pressure`, `effective_pressure`, `cross_pressure` -/
  pressure : BacklogLoad → ℚ
  /-- `committed_stage`, `committed_effective`, `committed_cross` -/
  committed : BacklogLoad → ℚ
  /-- the next pending loads -/
  pending : BacklogLoad → ℚ

/-- The body of the loop over the shards. -/
def drainShard (capacity : ℚ) (pending incoming : BacklogLoad → ℚ) : ShardDrain :=
  let pressure := fun q => max 0 (pending q + incoming q)
  let committedStage := min (pressure .stage) capacity
  let commitRatio :=
    if pressure .stage > offlineEps then committedStage / (pressure .stage + offlineEps) else 0
  let committed : BacklogLoad → ℚ
    | .stage => committedStage
    | .effective => pressure .effective * commitRatio
    | .cross => pressure .cross * commitRatio
  { pressure := pressure
    committed := committed
    pending := fun q => max 0 (pressure q - committed q) }

namespace SpringOfflineEnv

/-- What waits of each load. -/
def pending (env : SpringOfflineEnv) : BacklogLoad → List ℚ
  | .stage => env.pendingLoads
  | .effective => env.pendingEffectiveLoads
  | .cross => env.pendingCrossLoads

/-- `capacity`. -/
def capacity (env : SpringOfflineEnv) : ℚ := max 1 env.config.maxBlockSize

/-- `_apply_capacity_backlog`, with all that it returns. -/
def simulateCapacity (env : SpringOfflineEnv) (loads : BatchLoadSimulation) :
    CapacitySimulation × SpringOfflineEnv :=
  if env.config.capacityBacklogMode = 0 then
    ({ rewardLoads :=
        if env.config.mechanismVersion = .v3 then loads.arrived .stage else loads.arrived .effective
       committedStageLoads := loads.arrived .stage
       committedEffectiveLoads := loads.arrived .effective
       committedCrossLoads := loads.arrived .cross
       pendingStageLoads := List.replicate env.config.shards 0
       backlogPenalty := 0 }, env)
  else
    let drains := (List.range env.config.shards).map fun sid =>
      drainShard env.capacity (fun q => (env.pending q).getD sid 0)
        fun q => (loads.arrived q).getD sid 0
    let nextPending := fun q => drains.map fun d => d.pending q
    let pendingTotal := (nextPending .stage).sum
    let incomingTotal := (loads.arrived .stage).sum
    let capacityTotal := env.capacity * env.config.shards
    ({ rewardLoads := drains.map fun d => d.pressure .effective
       committedStageLoads := drains.map fun d => d.committed .stage
       committedEffectiveLoads := drains.map fun d => d.committed .effective
       committedCrossLoads := drains.map fun d => d.committed .cross
       pendingStageLoads := nextPending .stage
       backlogPenalty :=
        springClamp (pendingTotal / (incomingTotal + capacityTotal + offlineEps)) 0 1 },
      { env with
        pendingLoads := nextPending .stage
        pendingEffectiveLoads := nextPending .effective
        pendingCrossLoads := nextPending .cross })

end SpringOfflineEnv

/-! ## One shard -/

/-- The part that is committed is a part. -/
theorem commitRatio_mem {p capacity : ℚ} (hp : 0 ≤ p) (hcapacity : 0 ≤ capacity) :
    let ratio := if p > offlineEps then min p capacity / (p + offlineEps) else 0
    0 ≤ ratio ∧ ratio ≤ 1 := by
  have heps := offlineEps_pos
  dsimp only
  split
  · have hsum : 0 < p + offlineEps := by linarith
    refine ⟨div_nonneg (le_min hp hcapacity) hsum.le, (div_le_one hsum).mpr ?_⟩
    exact (min_le_left _ _).trans (by linarith)
  · exact ⟨le_rfl, zero_le_one⟩

/-- **One shard**: what was pending and what arrives is committed or pending, neither part
is negative, and the block keeps to its capacity. -/
theorem drainShard_conserves {capacity : ℚ} {pending incoming : BacklogLoad → ℚ}
    (hcapacity : 0 ≤ capacity) (hpending : ∀ q, 0 ≤ pending q) (hincoming : ∀ q, 0 ≤ incoming q)
    (q : BacklogLoad) :
    let d := drainShard capacity pending incoming
    d.committed q + d.pending q = pending q + incoming q ∧ 0 ≤ d.committed q ∧ 0 ≤ d.pending q ∧
      d.committed .stage ≤ capacity := by
  intro d
  have hsum : ∀ q, 0 ≤ pending q + incoming q := fun q => add_nonneg (hpending q) (hincoming q)
  have hpressure : ∀ q, d.pressure q = pending q + incoming q := fun q => max_eq_right (hsum q)
  obtain ⟨hratio, hratio'⟩ := commitRatio_mem (le_max_left 0 (pending .stage + incoming .stage))
    hcapacity
  -- each committed part lies between nothing and the pressure
  have hpart : 0 ≤ d.committed q ∧ d.committed q ≤ d.pressure q := by
    have hnonneg : ∀ q, 0 ≤ d.pressure q := fun q => le_max_left _ _
    cases q with
    | stage => exact ⟨le_min (hnonneg _) hcapacity, min_le_left _ _⟩
    | effective =>
      exact ⟨mul_nonneg (hnonneg _) hratio, mul_le_of_le_one_right (hnonneg _) hratio'⟩
    | cross =>
      exact ⟨mul_nonneg (hnonneg _) hratio, mul_le_of_le_one_right (hnonneg _) hratio'⟩
  have hrest : d.pending q = d.pressure q - d.committed q :=
    max_eq_right (sub_nonneg.mpr hpart.2)
  refine ⟨?_, hpart.1, le_max_left _ _, min_le_right _ _⟩
  rw [hrest, ← hpressure q, add_sub_cancel]

/-! ## The loads of a batch -/

/-- No load that waits is negative. -/
def BatchLoadSimulation.Nonneg (sim : BatchLoadSimulation) : Prop :=
  (∀ c ∈ sim.effectiveLoads, 0 ≤ c) ∧ ∀ c ∈ sim.crossLoads, 0 ≤ c

theorem chargeEnds_nonneg {a b : ℕ} {sim sim' : BatchLoadSimulation} (h : sim.Nonneg)
    (hrun : chargeEnds a b sim = some sim') : sim'.Nonneg := by
  have hhalf : (0 : ℚ) ≤ 1 / 2 := by norm_num
  rw [chargeEnds] at hrun
  obtain ⟨owner, -, hrun⟩ := Option.bind_eq_some_iff.mp hrun
  obtain ⟨stage, -, hrun⟩ := Option.bind_eq_some_iff.mp hrun
  split at hrun
  · obtain ⟨effective, heffective, rfl⟩ := Option.map_eq_some_iff.mp hrun
    exact ⟨(indexAdd_nonneg h.1 zero_le_one heffective).1, h.2⟩
  · obtain ⟨stage', -, hrun⟩ := Option.bind_eq_some_iff.mp hrun
    obtain ⟨effective, heffective, hrun⟩ := Option.bind_eq_some_iff.mp hrun
    obtain ⟨effective', heffective', hrun⟩ := Option.bind_eq_some_iff.mp hrun
    obtain ⟨cross, hcross, hrun⟩ := Option.bind_eq_some_iff.mp hrun
    obtain ⟨cross', hcross', rfl⟩ := Option.map_eq_some_iff.mp hrun
    have heff := (indexAdd_nonneg h.1 hhalf heffective).1
    have hcr := (indexAdd_nonneg h.2 hhalf hcross).1
    exact ⟨(indexAdd_nonneg heff hhalf heffective').1, (indexAdd_nonneg hcr hhalf hcross').1⟩

/-- The related addresses do not touch these loads. -/
theorem chargeRelated_frame {hash : Address → ℕ} {senderShard : ℕ} (pairs : List (Address × ℚ))
    {acc acc' : BatchLoadSimulation × AddrShard}
    (hrun : chargeRelated hash senderShard pairs acc = some acc') :
    acc'.1.effectiveLoads = acc.1.effectiveLoads ∧ acc'.1.crossLoads = acc.1.crossLoads := by
  induction pairs generalizing acc with
  | nil =>
    obtain rfl := Option.some.inj hrun
    exact ⟨rfl, rfl⟩
  | cons pair pairs ih =>
    obtain ⟨anchor, weight⟩ := pair
    obtain ⟨sim, addrShard⟩ := acc
    rw [chargeRelated] at hrun
    dsimp only at hrun
    split at hrun
    · obtain ⟨effective, -, hrun⟩ := Option.bind_eq_some_iff.mp hrun
      have hrest := ih hrun
      exact hrest
    · obtain ⟨effective, -, hrun⟩ := Option.bind_eq_some_iff.mp hrun
      obtain ⟨effective', -, hrun⟩ := Option.bind_eq_some_iff.mp hrun
      obtain ⟨cross, -, hrun⟩ := Option.bind_eq_some_iff.mp hrun
      obtain ⟨cross', -, hrun⟩ := Option.bind_eq_some_iff.mp hrun
      have hrest := ih hrun
      exact hrest

theorem simulateTxs_nonneg {hash : Address → ℕ} {config : LoadConfig} (txs : List OfflineTx)
    {acc acc' : BatchLoadSimulation × AddrShard} (h : acc.1.Nonneg)
    (hrun : simulateTxs hash config txs acc = some acc') : acc'.1.Nonneg := by
  induction txs generalizing acc with
  | nil =>
    obtain rfl := Option.some.inj hrun
    exact h
  | cons tx txs ih =>
    obtain ⟨sim, addrShard⟩ := acc
    rw [simulateTxs] at hrun
    dsimp only at hrun
    obtain ⟨sim₁, hends, hrun⟩ := Option.bind_eq_some_iff.mp hrun
    obtain ⟨acc₂, hrelated, hrun⟩ := Option.bind_eq_some_iff.mp hrun
    obtain ⟨heffective, hcross⟩ := chargeRelated_frame _ hrelated
    have h₁ := chargeEnds_nonneg h hends
    refine ih ⟨?_, ?_⟩ hrun
    · exact heffective ▸ h₁.1
    · exact hcross ▸ h₁.2

/-- **The loads of a batch** are never negative. -/
theorem simulateBatchLoads_nonneg {hash : Address → ℕ} {config : LoadConfig}
    {txs : List OfflineTx} {addrShard : AddrShard} {loads : BatchLoadSimulation × AddrShard}
    (hrun : simulateBatchLoads hash config txs addrShard = some loads) (q : BacklogLoad) (sid : ℕ) :
    0 ≤ (loads.1.arrived q).getD sid 0 := by
  obtain ⟨acc, hacc, rfl⟩ := Option.map_eq_some_iff.mp hrun
  have hzero : (BatchLoadSimulation.zero config.shards).Nonneg :=
    ⟨fun c hc => (List.eq_of_mem_replicate hc).ge, fun c hc => (List.eq_of_mem_replicate hc).ge⟩
  obtain ⟨heffective, hcross⟩ := simulateTxs_nonneg txs hzero hacc
  have hentry : ∀ l : List ℚ, (∀ c ∈ l, 0 ≤ c) → 0 ≤ l.getD sid 0 := by
    intro l hl
    rw [List.getD_eq_getElem?_getD]
    rcases hsid : l[sid]? with _ | c
    · exact le_rfl
    · exact hl c (List.mem_of_getElem? hsid)
  cases q with
  | stage =>
    refine hentry _ fun c hc => ?_
    obtain ⟨v, -, rfl⟩ := List.mem_map.mp hc
    exact Nat.cast_nonneg v
  | effective => exact hentry _ heffective
  | cross => exact hentry _ hcross

namespace SpringOfflineEnv

variable {env : SpringOfflineEnv}

/-- The windows hold what is committed of the stages and of the cross-shard loads. -/
theorem applyCapacityBacklog_eq (env : SpringOfflineEnv) (loads : BatchLoadSimulation) :
    env.applyCapacityBacklog loads.stageLoads loads.effectiveLoads loads.crossLoads =
      let (capacity, env') := env.simulateCapacity loads
      (⟨capacity.committedStageLoads, capacity.committedCrossLoads⟩, env') := by
  have hcast : ∀ sid, (loads.stageLoads.map fun (v : ℕ) => (v : ℚ)).getD sid 0 =
      (loads.stageLoads.getD sid 0 : ℕ) := by
    intro sid
    rw [List.getD_eq_getElem?_getD, List.getD_eq_getElem?_getD, List.getElem?_map]
    cases loads.stageLoads[sid]? with
    | none => exact Nat.cast_zero.symm
    | some v => rfl
  rw [applyCapacityBacklog, simulateCapacity]
  split
  · rfl
  · simp only [committedOf, List.map_map, List.zipWith_map, List.zipWith_self,
      BatchLoadSimulation.arrived, ← hcast]
    rfl

/-- The turn of the loop for one shard. -/
def drain (env : SpringOfflineEnv) (loads : BatchLoadSimulation) (sid : ℕ) : ShardDrain :=
  drainShard env.capacity (fun q => (env.pending q).getD sid 0)
    fun q => (loads.arrived q).getD sid 0

theorem simulateCapacity_off (hoff : env.config.capacityBacklogMode = 0)
    (loads : BatchLoadSimulation) (q : BacklogLoad) :
    (env.simulateCapacity loads).1.committed q = loads.arrived q ∧
      (env.simulateCapacity loads).2 = env := by
  rw [simulateCapacity, if_pos hoff]
  refine ⟨?_, rfl⟩
  cases q with
  | stage => rfl
  | effective => rfl
  | cross => rfl

theorem simulateCapacity_on (hon : env.config.capacityBacklogMode ≠ 0)
    (loads : BatchLoadSimulation) (q : BacklogLoad) :
    (env.simulateCapacity loads).1.committed q =
        (List.range env.config.shards).map (fun sid => (env.drain loads sid).committed q) ∧
      (env.simulateCapacity loads).2.pending q =
        (List.range env.config.shards).map (fun sid => (env.drain loads sid).pending q) := by
  rw [simulateCapacity, if_neg hon]
  cases q with
  | stage => exact ⟨List.map_map, List.map_map⟩
  | effective => exact ⟨List.map_map, List.map_map⟩
  | cross => exact ⟨List.map_map, List.map_map⟩

theorem simulateCapacity_config (env : SpringOfflineEnv) (loads : BatchLoadSimulation) :
    (env.simulateCapacity loads).2.config = env.config := by
  rw [simulateCapacity]
  split
  · rfl
  · rfl

theorem capacity_pos (env : SpringOfflineEnv) : 0 < env.capacity :=
  lt_of_lt_of_le one_pos (le_max_left _ _)

/-- **One batch**: for each shard, what was pending and what arrives is committed or
pending. -/
theorem simulateCapacity_conserves {loads : BatchLoadSimulation} {sid : ℕ}
    (hsid : sid < env.config.shards) (hpending : ∀ q, 0 ≤ (env.pending q).getD sid 0)
    (hloads : ∀ q, 0 ≤ (loads.arrived q).getD sid 0) (q : BacklogLoad) :
    let committed := fun q => ((env.simulateCapacity loads).1.committed q).getD sid 0
    let pending := ((env.simulateCapacity loads).2.pending q).getD sid 0
    committed q + pending = (env.pending q).getD sid 0 + (loads.arrived q).getD sid 0 ∧
      0 ≤ committed q ∧ 0 ≤ pending ∧
      (env.config.capacityBacklogMode ≠ 0 → committed .stage ≤ env.capacity) := by
  dsimp only
  by_cases hmode : env.config.capacityBacklogMode = 0
  · obtain ⟨hcommitted, henv⟩ := simulateCapacity_off hmode loads q
    rw [hcommitted, henv, add_comm]
    exact ⟨rfl, hloads q, hpending q, fun hon => absurd hmode hon⟩
  · obtain ⟨hcommitted, hrest⟩ := simulateCapacity_on hmode loads q
    rw [hcommitted, hrest, (simulateCapacity_on hmode loads .stage).1, getD_map_range _ _ hsid,
      getD_map_range _ _ hsid, getD_map_range _ _ hsid]
    obtain ⟨hsum, hnonneg, hpending', hcap⟩ :=
      drainShard_conserves env.capacity_pos.le hpending hloads q
    exact ⟨hsum, hnonneg, hpending', fun _ => hcap⟩

end SpringOfflineEnv

/-! ## Runs -/

/-- What is recorded of a batch: its loads, and what became of them. -/
structure BacklogStep where
  /-- the result of `_simulate_batch_loads` -/
  loads : BatchLoadSimulation
  /-- the result of `_apply_capacity_backlog` -/
  capacity : CapacitySimulation

/-- What arrived at a shard. -/
def BacklogStep.arrived (s : BacklogStep) (q : BacklogLoad) (sid : ℕ) : ℚ :=
  (s.loads.arrived q).getD sid 0

/-- What a shard committed. -/
def BacklogStep.committed (s : BacklogStep) (q : BacklogLoad) (sid : ℕ) : ℚ :=
  (s.capacity.committed q).getD sid 0

/-- `run_batch`, with the loads on record. -/
def recordedBatch (hash : Address → ℕ) (s : OfflineEpisode × List BacklogStep)
    (batch : PolicyFn × List OfflineTx) : Option (OfflineEpisode × List BacklogStep) :=
  let (ep, steps) := s
  let (policy, txs) := batch
  (ep.placing hash policy txs (ep.placementOrder txs)).bind fun p =>
    (simulateBatchLoads hash ep.env.config.toLoadConfig txs p.1.addrShard).map fun loads =>
      let (capacity, env) := { p.1 with addrShard := loads.2 }.simulateCapacity loads.1
      let recentStats :=
        env.recentStats ++ [⟨capacity.committedStageLoads, capacity.committedCrossLoads⟩]
      ({ ep with
          env := { env with recentStats := recentStats.drop (recentStats.length - 5) }
          temporalNeighbors := ep.updateTemporalNeighbors txs
          actions := ep.actions ++ p.2.2 },
        steps ++ [⟨loads.1, capacity⟩])

variable {hash : Address → ℕ}

/-- The record is beside the episode. -/
theorem recordedBatch_fst (s : OfflineEpisode × List BacklogStep)
    (batch : PolicyFn × List OfflineTx) :
    (recordedBatch hash s batch).map Prod.fst = s.1.step hash batch := by
  rw [recordedBatch, OfflineEpisode.step, OfflineEpisode.runBatch, Option.map_bind]
  refine congrArg _ (funext fun p => ?_)
  rw [Function.comp_apply, Option.map_map]
  refine congrArg (Option.map · _) (funext fun loads => ?_)
  rw [Function.comp_apply, applyCapacityBacklog_eq]

/-- Placing leaves what waits. -/
theorem placeAddress_pending {policy : PolicyFn} {related : RelatedMap} {s s' : OfflinePlacing}
    {e : Address × Option Address} (h : placeAddress hash policy related s e = some s') :
    s'.1.pending = s.1.pending ∧ s'.1.config = s.1.config := by
  obtain ⟨env, batchPlacement, actions⟩ := s
  obtain ⟨addr, fallback⟩ := e
  simp only [placeAddress] at h
  split at h
  · obtain rfl := Option.some.inj h
    exact ⟨rfl, rfl⟩
  · obtain ⟨shardLoad, -, rfl⟩ := Option.map_eq_some_iff.mp h
    exact ⟨rfl, rfl⟩

theorem placing_pending {ep : OfflineEpisode} {policy : PolicyFn} {txs : List OfflineTx}
    {done : List (Address × Option Address)} {s : OfflinePlacing}
    (h : ep.placing hash policy txs done = some s) :
    s.1.pending = ep.env.pending ∧ s.1.config = ep.env.config := by
  obtain ⟨s₀, hstart, hrun⟩ := Option.bind_eq_some_iff.mp h
  have h₀ : s₀.1.pending = ep.env.pending ∧ s₀.1.config = ep.env.config := by
    rw [OfflineEpisode.startBatch] at hstart
    dsimp only at hstart
    split at hstart
    · cases hstart
    · split at hstart
      · cases hstart
      · split at hstart
        · cases hstart
        · obtain rfl := Option.some.inj hstart
          exact ⟨rfl, rfl⟩
  clear h hstart
  induction done generalizing s₀ with
  | nil =>
    obtain rfl := Option.some.inj hrun
    exact h₀
  | cons e done ih =>
    rw [List.foldlM_cons] at hrun
    obtain ⟨s₁, hfirst, hrest⟩ := Option.bind_eq_some_iff.mp hrun
    obtain ⟨hpending, hconfig⟩ := placeAddress_pending hfirst
    exact ih s₁ hrest ⟨hpending.trans h₀.1, hconfig.trans h₀.2⟩

/-- **The balance of the backlog**, from the start of the episode on. -/
structure BacklogBalance (ep : OfflineEpisode) (steps : List BacklogStep) : Prop where
  /-- what arrived is committed or pending -/
  total : ∀ q, ∀ sid < ep.env.config.shards,
    (steps.map (·.arrived q sid)).sum =
      (steps.map (·.committed q sid)).sum + (ep.env.pending q).getD sid 0
  /-- nothing pending is negative -/
  pending : ∀ q, ∀ sid < ep.env.config.shards, 0 ≤ (ep.env.pending q).getD sid 0
  /-- nothing committed is negative -/
  committed : ∀ s ∈ steps, ∀ q, ∀ sid < ep.env.config.shards, 0 ≤ s.committed q sid
  /-- with the backlog, no block takes more stages than it has room for -/
  capacity : ep.env.config.capacityBacklogMode ≠ 0 →
    ∀ s ∈ steps, ∀ sid < ep.env.config.shards, s.committed .stage sid ≤ ep.env.capacity

theorem BacklogBalance.new (config : OfflineConfig) (temporalTopK : ℕ) :
    BacklogBalance (OfflineEpisode.new config temporalTopK) [] := by
  have hzero : ∀ q, ∀ sid, ((SpringOfflineEnv.new config).pending q).getD sid 0 = 0 := by
    intro q sid
    have hreplicate : (SpringOfflineEnv.new config).pending q = List.replicate config.shards 0 := by
      cases q with
      | stage => rfl
      | effective => rfl
      | cross => rfl
    rw [hreplicate, List.getD_eq_getElem?_getD, List.getElem?_replicate]
    split
    · rfl
    · rfl
  refine ⟨fun q sid _ => ?_, fun q sid _ => (hzero q sid).ge, ?_, ?_⟩
  · exact (hzero q sid).symm.trans (zero_add _).symm
  · exact fun s hs => absurd hs List.not_mem_nil
  · exact fun _ s hs => absurd hs List.not_mem_nil

/-- One more batch. -/
theorem BacklogBalance.step {ep ep' : OfflineEpisode} {steps steps' : List BacklogStep}
    {batch : PolicyFn × List OfflineTx} (h : BacklogBalance ep steps)
    (hs : recordedBatch hash (ep, steps) batch = some (ep', steps')) :
    BacklogBalance ep' steps' ∧ ep'.env.config = ep.env.config := by
  obtain ⟨policy, txs⟩ := batch
  obtain ⟨p, hplacing, hs⟩ := Option.bind_eq_some_iff.mp hs
  obtain ⟨loads, hloads, hs⟩ := Option.map_eq_some_iff.mp hs
  obtain ⟨hpending, hconfig⟩ := placing_pending hplacing
  -- the environment at the end of the placing
  let env : SpringOfflineEnv := { p.1 with addrShard := loads.2 }
  have hsame : env.pending = ep.env.pending := hpending
  have hc : env.config = ep.env.config := hconfig
  obtain ⟨rfl, rfl⟩ := Prod.mk.inj hs.symm
  have hconfig' : (env.simulateCapacity loads.1).2.config = ep.env.config :=
    (simulateCapacity_config env loads.1).trans hc
  have hbatch := fun sid (hsid : sid < ep.env.config.shards) =>
    simulateCapacity_conserves (show sid < env.config.shards from hc.symm ▸ hsid)
      (hsame.symm ▸ fun q => h.pending q sid hsid) fun q => simulateBatchLoads_nonneg hloads q sid
  refine ⟨⟨fun q sid hsid => ?_, fun q sid hsid => ?_, ?_, ?_⟩, hconfig'⟩
  · have hsid' : sid < ep.env.config.shards := hconfig' ▸ hsid
    obtain ⟨hsum, -⟩ := hbatch sid hsid' q
    rw [hsame] at hsum
    rw [List.map_append, List.map_append, List.sum_append, List.sum_append, h.total q sid hsid',
      add_assoc, add_assoc]
    refine congrArg _ ?_
    rw [List.map_singleton, List.map_singleton, List.sum_singleton, List.sum_singleton]
    exact hsum.symm
  · exact (hbatch sid (hconfig' ▸ hsid) q).2.2.1
  · intro s hs q sid hsid
    have hsid' : sid < ep.env.config.shards := hconfig' ▸ hsid
    rcases List.mem_append.mp hs with hold | hnew
    · exact h.committed s hold q sid hsid'
    · obtain rfl := List.mem_singleton.mp hnew
      exact (hbatch sid hsid' q).2.1
  · intro hmode s hs sid hsid
    have hsid' : sid < ep.env.config.shards := hconfig' ▸ hsid
    have hmode' : ep.env.config.capacityBacklogMode ≠ 0 := hconfig' ▸ hmode
    have hcap : (env.simulateCapacity loads.1).2.capacity = ep.env.capacity := by
      rw [SpringOfflineEnv.capacity, hconfig', SpringOfflineEnv.capacity]
    have hcap' : env.capacity = ep.env.capacity := by
      rw [SpringOfflineEnv.capacity, hc, SpringOfflineEnv.capacity]
    refine le_trans ?_ hcap.ge
    rcases List.mem_append.mp hs with hold | hnew
    · exact h.capacity hmode' s hold sid hsid'
    · obtain rfl := List.mem_singleton.mp hnew
      exact ((hbatch sid hsid' .stage).2.2.2 (hc.symm ▸ hmode')).trans hcap'.le

/-- Two shards, the blocks of which take one stage. -/
def tightConfig (capacityBacklogMode : ℕ) : OfflineConfig :=
  { shards := 2, mechanismVersion := .legacy, sceneCostMode := .cross, maxBlockSize := 1,
    senderPosMode := 0, iotFeatureDim := 0, capacityBacklogMode := capacityBacklogMode,
    candidateTopK := 0, capacityGuard := 0, capacityGuardFactor := 1, candidateLoadWeight := 1 }

/-- Two transactions between two addresses of one shard. -/
def twoTxs : PolicyFn × List OfflineTx :=
  let tx : OfflineTx :=
    { sender := "a", recipient := "b", relatedAddresses := [], relatedWeights := [],
      iotFeatures := [], communicationCostWeight := 0, realAccounts := true,
      recipientIotFeatures := [], recipientCommunicationCostWeight := 0 }
  (fun _ _ _ _ => ⟨0, 0, 0, 0, 0, "policy"⟩, [tx, tx])

end BlockEmulator
