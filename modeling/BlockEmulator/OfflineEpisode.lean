import BlockEmulator.OfflineEnv
import BlockEmulator.StepSystem

/-!
# Episodes of the offline environment

`OfflineEpisode` is the environment with all its identities: real accounts, IoT objects
with seeded anchors, and plain accounts, with or without temporal neighbours. Beside it
stand the actions that were recorded since the reset.

A policy may be another one for each batch. It is a function of the environment, which
is never the same for two addresses, so that it may return any action.

* `safePolicyOutput_allowed` — **what is placed is allowed by the mask**.
* `PlacedOnce` — the invariant: an address is placed once, its entry stays, and a load
  counts actions.
* `offline_env_invariant` — it holds in every episode.
-/

namespace BlockEmulator

open StepSystem SpringOfflineEnv

/-! ## The environment -/

/-- A `Counter`, in the order of its keys. -/
abbrev NeighborCounter : Type := List (Address × ℕ)

/-- `counter[addr] += 1`. -/
def NeighborCounter.add (counter : NeighborCounter) (addr : Address) : NeighborCounter :=
  if addr ∈ counter.map Prod.fst then
    counter.map fun e => if e.1 = addr then (e.1, e.2 + 1) else e
  else counter ++ [(addr, 1)]

/-- `most_common`. -/
def NeighborCounter.mostCommon (counter : NeighborCounter) (n : ℕ) : NeighborCounter :=
  (counter.mergeSort fun e f => decide (f.2 ≤ e.2)).take n

/-- The environment in an episode. -/
structure OfflineEpisode where
  /-- what it has in common with that of real accounts -/
  env : SpringOfflineEnv
  /-- `temporal_top_k`; `0` where it is not positive -/
  temporalTopK : ℕ
  /-- `temporal_neighbors` -/
  temporalNeighbors : Address → NeighborCounter
  /-- the actions that were recorded -/
  actions : List PlacementAction

namespace OfflineEpisode

/-- `reset`. -/
def new (config : OfflineConfig) (temporalTopK : ℕ) : OfflineEpisode where
  env := SpringOfflineEnv.new config
  temporalTopK := temporalTopK
  temporalNeighbors := fun _ => []
  actions := []

/-- `_temporal_related`. -/
def temporalRelated (ep : OfflineEpisode) (addr : Address) : List Address :=
  if ep.env.config.senderPosMode ≠ 2 ∨ ep.temporalTopK = 0 then []
  else ((ep.temporalNeighbors addr).mostCommon ep.temporalTopK).map Prod.fst

/-- The relations of a batch with the temporal ones, from which `build_sender_pos`
starts. -/
def withTemporal (ep : OfflineEpisode) (batchRelated : RelatedMap) : RelatedMap :=
  fun addr => batchRelated addr ∪ (ep.temporalRelated addr).toFinset

/-- `_update_temporal_neighbors`. -/
def updateTemporalNeighbors (ep : OfflineEpisode) (txs : List OfflineTx) :
    Address → NeighborCounter :=
  if ep.env.config.senderPosMode ≠ 2 then ep.temporalNeighbors
  else
    txs.foldl (fun neighbors tx =>
      (txRelatedAddresses tx).foldl (fun neighbors anchor =>
        let neighbors := Function.update neighbors tx.sender ((neighbors tx.sender).add anchor)
        Function.update neighbors anchor ((neighbors anchor).add tx.sender)) neighbors)
      ep.temporalNeighbors

/-- `build_iot_batch_related`. -/
def buildIotBatchRelated (txs : List OfflineTx) : RelatedMap :=
  txs.foldl (fun related tx =>
    if tx.sender = "" then related
    else
      (txRelatedAddresses tx).foldl (fun related anchor =>
        if anchor ≠ "" ∧ anchor ≠ tx.sender then
          Function.update related tx.sender (insert anchor (related tx.sender))
        else related) related) fun _ => ∅

/-- `_seed_iot_anchor_shards`. -/
def seedIotAnchorShards (hash : Address → ℕ) (txs : List OfflineTx) (addrShard : AddrShard) :
    AddrShard :=
  txs.foldl (fun addrShard tx =>
    (txRelatedAddresses tx).foldl (fun addrShard anchor =>
      if anchor ≠ "" ∧ anchor ∉ addrShard then addrShard.insert anchor (hash anchor)
      else addrShard) addrShard) addrShard

/-- `real_accounts` of `run_batch`: the first transaction says it for the batch. -/
def batchRealAccounts (txs : List OfflineTx) : Bool := (txs.head?.map (·.realAccounts)).getD false

/-- Whether the batch is one of IoT objects, which are placed beside their anchors. -/
def batchIot (ep : OfflineEpisode) (txs : List OfflineTx) : Bool :=
  0 < ep.env.config.iotFeatureDim && !batchRealAccounts txs

/-- `batch_related`. -/
def batchRelated (ep : OfflineEpisode) (txs : List OfflineTx) : RelatedMap :=
  if ep.batchIot txs then buildIotBatchRelated txs else buildBatchRelated ep.env.config txs

/-- The addresses of the batch in the order in which they are placed. -/
def placementOrder (ep : OfflineEpisode) (txs : List OfflineTx) : List (Address × Option Address) :=
  if ep.batchIot txs then txs.map fun tx => (tx.sender, some tx.recipient)
  else SpringOfflineEnv.placements ep.env.config txs

/-- `run_batch` before anything is placed. -/
def startBatch (hash : Address → ℕ) (ep : OfflineEpisode) (txs : List OfflineTx) :
    Option OfflinePlacing :=
  let env := { ep.env with batchID := ep.env.batchID + 1 }
  -- each of these raises an error
  if env.config.mechanismVersion = .v3 ∧ batchRealAccounts txs = false then none
  else if txs.any (·.realAccounts ≠ batchRealAccounts txs) then none
  else if batchRealAccounts txs ∧ env.config.senderPosMode ≠ 0 ∧ env.config.senderPosMode ≠ 1 then
    none
  else
    let addrShard :=
      if ep.batchIot txs then seedIotAnchorShards hash txs env.addrShard else env.addrShard
    some ({ env with addrShard := addrShard }, ∅, [])

/-- `run_batch` after the addresses of a list are placed: the whole order, or the part of
it that is done. -/
def placing (hash : Address → ℕ) (policy : PolicyFn) (ep : OfflineEpisode) (txs : List OfflineTx)
    (done : List (Address × Option Address)) : Option OfflinePlacing :=
  (ep.startBatch hash txs).bind fun s =>
    done.foldlM (placeAddress hash policy (ep.withTemporal (ep.batchRelated txs))) s

/-- `run_batch`. -/
def runBatch (hash : Address → ℕ) (policy : PolicyFn) (ep : OfflineEpisode)
    (txs : List OfflineTx) : Option OfflineEpisode :=
  (ep.placing hash policy txs (ep.placementOrder txs)).bind fun s =>
    (simulateBatchLoads hash ep.env.config.toLoadConfig txs s.1.addrShard).map fun loads =>
      let (stat, env) := applyCapacityBacklog { s.1 with addrShard := loads.2 }
        loads.1.stageLoads loads.1.effectiveLoads loads.1.crossLoads
      let recentStats := env.recentStats ++ [stat]
      { ep with
        env := { env with recentStats := recentStats.drop (recentStats.length - 5) }
        temporalNeighbors := ep.updateTemporalNeighbors txs
        actions := ep.actions ++ s.2.2 }

/-- One batch, with the policy that is used for it. -/
def step (hash : Address → ℕ) (ep : OfflineEpisode) (batch : PolicyFn × List OfflineTx) :
    Option OfflineEpisode :=
  ep.runBatch hash batch.1 batch.2

variable {hash : Address → ℕ} {policy : PolicyFn} {ep ep' : OfflineEpisode} {txs : List OfflineTx}

theorem withTemporal_of_ne (hmode : ep.env.config.senderPosMode ≠ 2) (related : RelatedMap) :
    ep.withTemporal related = related := by
  funext addr
  simp [withTemporal, temporalRelated, hmode]

/-- On real accounts this is `run_batch` of the environment alone. -/
theorem runBatch_real (hreal : batchRealAccounts txs = true) :
    ep.runBatch hash policy txs = (ep.env.runBatch hash policy txs).map fun r =>
      { ep with env := r.1, actions := ep.actions ++ r.2 } := by
  have hiot : ep.batchIot txs = false := by simp [batchIot, hreal]
  have hreal' : (txs.head?.map (·.realAccounts)).getD false = true := hreal
  rw [runBatch, placing, startBatch, SpringOfflineEnv.runBatch, batchRelated, placementOrder]
  simp only [hiot, hreal, hreal', Bool.true_eq_false, and_false, if_false, true_and,
    Bool.false_eq_true]
  split
  · rfl
  · split
    · rfl
    · rename_i hmode
      have hne : ep.env.config.senderPosMode ≠ 2 := by omega
      have htemporal : ep.updateTemporalNeighbors txs = ep.temporalNeighbors := if_pos hne
      rw [withTemporal_of_ne hne, htemporal, Option.bind_some, Option.map_bind]
      refine congrArg _ (funext fun s => ?_)
      rw [Function.comp_apply, Option.map_map]
      rfl

end OfflineEpisode

/-! ## What is placed is allowed -/

/-- A mask over the shards that allows one of them. -/
structure IsActionMask (mask : List ℕ) (shards : ℕ) : Prop where
  /-- one entry for each shard -/
  length : mask.length = shards
  /-- the entries -/
  bit : ∀ m ∈ mask, m = 0 ∨ m = 1
  /-- what it allows -/
  allows : ∃ sid < shards, 0 < mask.getD sid 0

theorem isActionMask_replicate {shards : ℕ} (h : 0 < shards) :
    IsActionMask (List.replicate shards 1) shards where
  length := List.length_replicate
  bit := fun _ hm => .inr (List.eq_of_mem_replicate hm)
  allows := ⟨0, h, by simp [h]⟩

/-- A mask that allows nothing is replaced. -/
theorem normalizeActionMask_isActionMask {shards : ℕ} (h : 0 < shards) (mask : List ℕ) :
    IsActionMask (normalizeActionMask mask shards) shards := by
  rw [normalizeActionMask, if_neg h.ne']
  dsimp only
  split
  · rename_i hany
    refine ⟨by simp, ?_, ?_⟩
    · intro m hm
      obtain ⟨sid, -, rfl⟩ := List.mem_map.mp hm
      exact (ite_eq_or_eq _ _ _).symm
    · obtain ⟨m, hm, hne⟩ := List.any_eq_true.mp hany
      obtain ⟨sid, hlt, rfl⟩ := List.getElem_of_mem hm
      refine ⟨sid, by simpa using hlt, ?_⟩
      rw [List.getD_eq_getElem?_getD, List.getElem?_eq_getElem hlt, Option.getD_some]
      simpa [Nat.pos_iff_ne_zero] using hne
  · exact isActionMask_replicate h

theorem IsActionMask.normalize {mask : List ℕ} {shards : ℕ} (h : IsActionMask mask shards) :
    normalizeActionMask mask shards = mask := by
  obtain ⟨sid, hsid, hpos⟩ := h.allows
  have hgetD : ∀ i, (hi : i < mask.length) → mask.getD i 0 = mask[i] := by
    intro i hi
    rw [List.getD_eq_getElem?_getD, List.getElem?_eq_getElem hi, Option.getD_some]
  have hmap : ((List.range shards).map fun sid =>
      let value := if sid < mask.length then mask.getD sid 0 else 1
      if 0 < value then 1 else 0) = mask := by
    apply List.ext_getElem
    · simp [h.length]
    · intro i hi hi'
      simp only [List.getElem_map, List.getElem_range, hi', if_true, hgetD i hi']
      rcases h.bit _ (List.getElem_mem hi') with h0 | h1
      · rw [h0]
        rfl
      · rw [h1]
        rfl
  have hany : mask.any (· ≠ 0) = true := by
    rw [hgetD sid (h.length ▸ hsid)] at hpos
    exact List.any_eq_true.mpr ⟨_, List.getElem_mem _, by simpa using hpos.ne'⟩
  rw [normalizeActionMask, if_neg (by omega), hmap]
  exact if_pos hany

/-- The mask of an address allows a shard, whatever the guard and the cut leave. -/
theorem buildCandidateActionMask_isActionMask (hash : Address → ℕ) {env : SpringOfflineEnv}
    (h : 0 < env.config.shards) (addr : Address) (senderPos : List ℚ) :
    IsActionMask (env.buildCandidateActionMask hash addr senderPos) env.config.shards := by
  rw [buildCandidateActionMask]
  dsimp only
  rw [if_neg h.ne']
  split
  · exact isActionMask_replicate h
  · exact normalizeActionMask_isActionMask h _

/-- The best allowed action is allowed. -/
theorem bestAllowedAction_allowed {mask : List ℕ} {shards : ℕ} (h : IsActionMask mask shards)
    (scores : List ℚ) : bestAllowedAction scores mask shards < shards ∧
      0 < mask.getD (bestAllowedAction scores mask shards) 0 := by
  let score : ℕ → Option ℚ := fun sid =>
    if sid ≥ mask.length ∨ mask.getD sid 0 ≤ 0 then none
    else some (if sid < scores.length then scores.getD sid 0 else 0)
  obtain ⟨sid, hsid, hpos⟩ := h.allows
  have hscore : (score sid).isSome = true := by
    rw [show score sid = some _ from if_neg (by rw [h.length]; omega), Option.isSome_some]
  obtain ⟨hlt, hsome⟩ := bestOf_spec hsid hscore
  rw [bestAllowedAction, h.normalize]
  refine ⟨hlt, ?_⟩
  by_contra hzero
  have hskip : score (bestOf score shards).1 = none := if_pos (.inr (not_lt.mp hzero))
  rw [hskip] at hsome
  cases hsome

/-- **What is placed is allowed by the mask**: an action of the policy that the mask does
not allow is replaced by one that it does. -/
theorem safePolicyOutput_allowed (hash : Address → ℕ) (env : SpringOfflineEnv)
    (output : PolicyOutput) (addr : Address) (senderPos : List ℚ) {mask : List ℕ}
    (h : IsActionMask mask env.config.shards) :
    (env.safePolicyOutput hash output addr senderPos mask).action.toNat < env.config.shards ∧
      0 < mask.getD (env.safePolicyOutput hash output addr senderPos mask).action.toNat 0 := by
  rw [safePolicyOutput]
  split
  · exact bestAllowedAction_allowed h _
  · rename_i hsafe
    obtain ⟨hneg, hge, hallowed⟩ : ¬output.action < 0 ∧ ¬output.action ≥ env.config.shards ∧
        actionAllowed mask output.action env.config.shards = true := by
      simpa [not_or] using hsafe
    rw [actionAllowed, h.normalize] at hallowed
    exact ⟨by omega, (of_decide_eq_true hallowed).2.2⟩

/-! ## Entries stay -/

/-- Whether a table holds all entries of another. -/
def KeepsEntries (t t' : AddrShard) : Prop :=
  ∀ addr sid, t.lookup addr = some sid → t'.lookup addr = some sid

theorem KeepsEntries.refl (t : AddrShard) : KeepsEntries t t := fun _ _ h => h

theorem KeepsEntries.trans {t t' t'' : AddrShard} (h : KeepsEntries t t')
    (h' : KeepsEntries t' t'') : KeepsEntries t t'' := fun addr sid hl => h' addr sid (h addr sid hl)

/-- A new address leaves the entries of the others. -/
theorem KeepsEntries.insert {t : AddrShard} {addr : Address} (h : addr ∉ t) (sid : ℕ) :
    KeepsEntries t (t.insert addr sid) := by
  intro a n hl
  have hne : a ≠ addr := by
    rintro rfl
    exact h (AList.lookup_isSome.mp (by rw [hl]; rfl))
  rw [AList.lookup_insert_ne hne, hl]

theorem KeepsEntries.foldl {β : Type} {f : AddrShard → β → AddrShard}
    (hf : ∀ t b, KeepsEntries t (f t b)) (l : List β) (t : AddrShard) :
    KeepsEntries t (l.foldl f t) := by
  induction l generalizing t with
  | nil => exact .refl t
  | cons b l ih => exact (hf t b).trans (ih (f t b))

theorem seedIotAnchorShards_keeps (hash : Address → ℕ) (txs : List OfflineTx) (t : AddrShard) :
    KeepsEntries t (OfflineEpisode.seedIotAnchorShards hash txs t) := by
  refine KeepsEntries.foldl (fun t tx => KeepsEntries.foldl (fun t anchor => ?_) _ t) txs t
  split
  · rename_i hnew
    exact .insert hnew.2 _
  · exact .refl t

theorem shardOrHash_keeps (hash : Address → ℕ) (addr : Address) (t : AddrShard) :
    KeepsEntries t (shardOrHash hash addr t).2 := by
  rw [shardOrHash]
  split
  · exact .refl t
  · rename_i hnone
    exact .insert (AList.lookup_eq_none.mp hnone) _

theorem chargeRelated_keeps {hash : Address → ℕ} {senderShard : ℕ} (pairs : List (Address × ℚ))
    {acc acc' : BatchLoadSimulation × AddrShard}
    (h : chargeRelated hash senderShard pairs acc = some acc') : KeepsEntries acc.2 acc'.2 := by
  induction pairs generalizing acc with
  | nil =>
    obtain rfl := Option.some.inj h
    exact .refl _
  | cons pair pairs ih =>
    obtain ⟨anchor, weight⟩ := pair
    obtain ⟨sim, t⟩ := acc
    rcases hentered : shardOrHash hash anchor t with ⟨anchorShard, t'⟩
    simp only [chargeRelated, hentered] at h
    have hkeeps : KeepsEntries t t' := by
      have := shardOrHash_keeps hash anchor t
      rwa [hentered] at this
    refine hkeeps.trans ?_
    split at h
    · obtain ⟨effective, -, hrest⟩ := Option.bind_eq_some_iff.mp h
      exact ih hrest
    · obtain ⟨_, -, h⟩ := Option.bind_eq_some_iff.mp h
      obtain ⟨_, -, h⟩ := Option.bind_eq_some_iff.mp h
      obtain ⟨_, -, h⟩ := Option.bind_eq_some_iff.mp h
      obtain ⟨_, -, hrest⟩ := Option.bind_eq_some_iff.mp h
      exact ih hrest

theorem simulateTxs_keeps {hash : Address → ℕ} {config : LoadConfig} (txs : List OfflineTx)
    {acc acc' : BatchLoadSimulation × AddrShard}
    (h : simulateTxs hash config txs acc = some acc') : KeepsEntries acc.2 acc'.2 := by
  induction txs generalizing acc with
  | nil =>
    obtain rfl := Option.some.inj h
    exact .refl _
  | cons tx txs ih =>
    obtain ⟨sim, t⟩ := acc
    simp only [simulateTxs] at h
    obtain ⟨_, -, h⟩ := Option.bind_eq_some_iff.mp h
    obtain ⟨_, hrelated, hrest⟩ := Option.bind_eq_some_iff.mp h
    have hlater := ih hrest
    -- the two ends first, then the related addresses, then the rest of the batch
    exact (((shardOrHash_keeps hash tx.sender t).trans (shardOrHash_keeps hash _ _)).trans
      (chargeRelated_keeps _ hrelated)).trans hlater

theorem simulateBatchLoads_keeps {hash : Address → ℕ} {config : LoadConfig} {txs : List OfflineTx}
    {t : AddrShard} {loads : BatchLoadSimulation × AddrShard}
    (h : simulateBatchLoads hash config txs t = some loads) : KeepsEntries t loads.2 := by
  obtain ⟨acc, hacc, rfl⟩ := Option.map_eq_some_iff.mp h
  exact simulateTxs_keeps txs hacc

/-! ## The invariant -/

/-- What is recorded is allowed, an address is placed once and keeps its entry, and the
loads count the actions. -/
structure PlacedOnce (env : SpringOfflineEnv) (actions : List PlacementAction) : Prop where
  /-- the shard is in range, and the mask allows it -/
  allowed : ∀ a ∈ actions, a.action < env.config.shards ∧ 0 < a.actionMask.getD a.action 0
  /-- one action for an address -/
  once : (actions.map (·.address)).Nodup
  /-- its entry -/
  entry : ∀ a ∈ actions, env.addrShard.lookup a.address = some a.action
  /-- `shard_load` -/
  load : env.shardLoad = loadsOf env.config.shards fun s => actions.countP (·.action = s)

variable {env env' : SpringOfflineEnv} {actions : List PlacementAction}

theorem PlacedOnce.new (config : OfflineConfig) : PlacedOnce (SpringOfflineEnv.new config) [] where
  allowed := by simp
  once := List.nodup_nil
  entry := by simp
  load := loadsOf_zero config.shards

/-- A table that grows keeps it. -/
theorem PlacedOnce.keeps (h : PlacedOnce env actions) (hconfig : env'.config = env.config)
    (htable : KeepsEntries env.addrShard env'.addrShard) (hload : env'.shardLoad = env.shardLoad) :
    PlacedOnce env' actions where
  allowed := hconfig ▸ h.allowed
  once := h.once
  entry := fun a ha => htable _ _ (h.entry a ha)
  load := by rw [hload, hconfig]; exact h.load

/-- One more action, for a new address. -/
theorem PlacedOnce.append (h : PlacedOnce env actions) {a : PlacementAction}
    (hnew : a.address ∉ env.addrShard) {shardLoad : List ℕ}
    (hload : indexAdd env.shardLoad a.action 1 = some shardLoad)
    (hallowed : a.action < env.config.shards ∧ 0 < a.actionMask.getD a.action 0) :
    PlacedOnce { env with
      addrShard := env.addrShard.insert a.address a.action
      shardLoad := shardLoad } (actions ++ [a]) where
  allowed := by
    intro b hb
    rcases List.mem_append.mp hb with hb | hb
    · exact h.allowed b hb
    · obtain rfl := List.mem_singleton.mp hb
      exact hallowed
  once := by
    rw [List.map_append]
    refine List.nodup_append'.mpr ⟨h.once, List.nodup_singleton _, ?_⟩
    -- an address with an action has an entry
    intro addr haddr haddr'
    have haddr' : addr = a.address := List.mem_singleton.mp haddr'
    obtain ⟨b, hb, hsame⟩ := List.mem_map.mp haddr
    rw [← haddr', ← hsame] at hnew
    exact hnew (AList.lookup_isSome.mp (by rw [h.entry b hb]; rfl))
  entry := by
    intro b hb
    rcases List.mem_append.mp hb with hb | hb
    · exact KeepsEntries.insert hnew _ _ _ (h.entry b hb)
    · obtain rfl := List.mem_singleton.mp hb
      exact AList.lookup_insert _
  load := by
    rw [h.load, indexAdd_loadsOf _ hallowed.1] at hload
    obtain rfl := Option.some.inj hload
    refine congrArg (loadsOf _) (funext fun s => ?_)
    simp [List.countP_append, List.countP_singleton, eq_comm]

/-! ## Batches -/

variable {hash : Address → ℕ} {policy : PolicyFn} {related : RelatedMap}

/-- What one step of the placing does: nothing, or one action for a new address. -/
theorem placeAddress_cases {s s' : OfflinePlacing} {e : Address × Option Address}
    (h : placeAddress hash policy related s e = some s')
    (hlen : s.1.shardLoad.length = s.1.config.shards) :
    s' = s ∨ ∃ (a : PlacementAction) (shardLoad : List ℕ),
      a.address ∉ s.1.addrShard ∧ indexAdd s.1.shardLoad a.action 1 = some shardLoad ∧
      (a.action < s.1.config.shards ∧ 0 < a.actionMask.getD a.action 0) ∧
      s'.1 = { s.1 with
        addrShard := s.1.addrShard.insert a.address a.action
        shardLoad := shardLoad } ∧
      s'.2.2 = s.2.2 ++ [a] := by
  obtain ⟨env, batchPlacement, actions⟩ := s
  obtain ⟨addr, fallback⟩ := e
  simp only [placeAddress] at h
  split at h
  · exact .inl (Option.some.inj h).symm
  · rename_i hnew
    obtain ⟨shardLoad, hload, rfl⟩ := Option.map_eq_some_iff.mp h
    have hlt := (Option.ite_none_right_eq_some.mp hload).1
    have hpos : 0 < env.config.shards := by
      dsimp only at hlen
      omega
    have hmask := buildCandidateActionMask_isActionMask hash hpos addr
      (env.buildSenderPos addr fallback batchPlacement related).senderPos
    exact .inr ⟨_, shardLoad, fun hin => hnew (.inr hin), hload,
      safePolicyOutput_allowed hash env _ addr _ hmask, rfl, rfl⟩

theorem PlacedOnce.placeAddress {s s' : OfflinePlacing} {e : Address × Option Address}
    (h : PlacedOnce s.1 (actions ++ s.2.2)) (hrun : placeAddress hash policy related s e = some s') :
    PlacedOnce s'.1 (actions ++ s'.2.2) ∧ KeepsEntries s.1.addrShard s'.1.addrShard ∧
      s'.1.config = s.1.config := by
  have hlen : s.1.shardLoad.length = s.1.config.shards := by
    rw [h.load, loadsOf, List.length_map, List.length_range]
  rcases placeAddress_cases hrun hlen with
    rfl | ⟨a, shardLoad, hnew, hload, hallowed, henv, hactions⟩
  · exact ⟨h, .refl _, rfl⟩
  · rw [hactions, ← List.append_assoc, henv]
    exact ⟨h.append hnew hload hallowed, .insert hnew _, rfl⟩

/-- The addresses of a batch, or the part of them that is done. -/
theorem PlacedOnce.placeAll (done : List (Address × Option Address)) {s s' : OfflinePlacing}
    (h : PlacedOnce s.1 (actions ++ s.2.2))
    (hrun : done.foldlM (SpringOfflineEnv.placeAddress hash policy related) s = some s') :
    PlacedOnce s'.1 (actions ++ s'.2.2) ∧ KeepsEntries s.1.addrShard s'.1.addrShard ∧
      s'.1.config = s.1.config := by
  induction done generalizing s with
  | nil =>
    obtain rfl := Option.some.inj hrun
    exact ⟨h, .refl _, rfl⟩
  | cons e done ih =>
    rw [List.foldlM_cons] at hrun
    obtain ⟨s₁, hfirst, hrest⟩ := Option.bind_eq_some_iff.mp hrun
    obtain ⟨h₁, hkeeps₁, hconfig₁⟩ := h.placeAddress hfirst
    obtain ⟨h', hkeeps', hconfig'⟩ := ih h₁ hrest
    exact ⟨h', hkeeps₁.trans hkeeps', hconfig'.trans hconfig₁⟩

namespace OfflineEpisode

variable {ep ep' : OfflineEpisode} {txs : List OfflineTx}

/-- A batch starts with seeded anchors at most. -/
theorem startBatch_keeps {s : OfflinePlacing} (h : ep.startBatch hash txs = some s) :
    KeepsEntries ep.env.addrShard s.1.addrShard ∧ s.1.config = ep.env.config ∧
      s.1.shardLoad = ep.env.shardLoad ∧ s.2.2 = [] := by
  rw [startBatch] at h
  obtain ⟨-, h⟩ := Option.ite_none_left_eq_some.mp h
  obtain ⟨-, h⟩ := Option.ite_none_left_eq_some.mp h
  obtain ⟨-, h⟩ := Option.ite_none_left_eq_some.mp h
  obtain rfl := Option.some.inj h
  refine ⟨?_, rfl, rfl, rfl⟩
  dsimp only
  split
  · exact seedIotAnchorShards_keeps hash txs _
  · exact .refl _

theorem placing_invariant {done : List (Address × Option Address)} {s : OfflinePlacing}
    (h : PlacedOnce ep.env ep.actions) (hrun : ep.placing hash policy txs done = some s) :
    PlacedOnce s.1 (ep.actions ++ s.2.2) ∧ KeepsEntries ep.env.addrShard s.1.addrShard ∧
      s.1.config = ep.env.config := by
  obtain ⟨s₀, hstart, hplace⟩ := Option.bind_eq_some_iff.mp hrun
  obtain ⟨hkeeps, hconfig, hload, hnil⟩ := startBatch_keeps hstart
  have h₀ : PlacedOnce s₀.1 (ep.actions ++ s₀.2.2) := by
    rw [hnil, List.append_nil]
    exact h.keeps hconfig hkeeps hload
  obtain ⟨h', hkeeps', hconfig'⟩ := h₀.placeAll done hplace
  exact ⟨h', hkeeps.trans hkeeps', hconfig'.trans hconfig⟩

/-- A whole batch. -/
theorem runBatch_invariant (h : PlacedOnce ep.env ep.actions)
    (hrun : ep.runBatch hash policy txs = some ep') :
    PlacedOnce ep'.env ep'.actions ∧ KeepsEntries ep.env.addrShard ep'.env.addrShard ∧
      ep'.env.config = ep.env.config ∧ ep.actions <+: ep'.actions := by
  obtain ⟨s, hplacing, hrest⟩ := Option.bind_eq_some_iff.mp hrun
  obtain ⟨loads, hloads, rfl⟩ := Option.map_eq_some_iff.mp hrest
  obtain ⟨h', hkeeps, hconfig⟩ := placing_invariant h hplacing
  have hentered := simulateBatchLoads_keeps hloads
  obtain ⟨hconfig', htable, hload, -⟩ := applyCapacityBacklog_frame
    { s.1 with addrShard := loads.2 } loads.1.stageLoads loads.1.effectiveLoads loads.1.crossLoads
  refine ⟨?_, ?_, hconfig'.trans hconfig, List.prefix_append _ _⟩
  · exact h'.keeps hconfig' (htable ▸ hentered) hload
  · exact hkeeps.trans (htable ▸ hentered)

end OfflineEpisode

/-! ## Episodes -/

/-- What a batch does to the invariant. -/
theorem episode_step {ep ep' : OfflineEpisode} {batch : PolicyFn × List OfflineTx}
    (h : PlacedOnce ep.env ep.actions) (hs : OfflineEpisode.step hash ep batch = some ep') :
    PlacedOnce ep'.env ep'.actions ∧ KeepsEntries ep.env.addrShard ep'.env.addrShard ∧
      ep'.env.config = ep.env.config ∧ ep.actions <+: ep'.actions :=
  OfflineEpisode.runBatch_invariant h hs

end BlockEmulator
