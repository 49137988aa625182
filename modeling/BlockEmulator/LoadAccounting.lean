import BlockEmulator.RelayShard
import BlockEmulator.Routing
import BlockEmulator.OfflineLoads
import BlockEmulator.SpringReward
import Mathlib.Algebra.BigOperators.Ring.Finset
import Mathlib.Tactic.Ring

/-!
# The two accountings of load agree

On the chain a batch is executed in blocks, and the supervisor adds up what the leaders
report of them. Offline the batch is charged in one pass from the placement. Every
phase of a transaction stands in one block of one shard, whatever the packing; so the
reports of a shard count the phases that the pass charges to it.

* `relayBlock_report` — what the leader reports of a block.
* `stageTxs` — the phases that are due in a shard, `Packing` — blocks that hold them.
* `collected_loads` — **both accountings give the same loads**, for every packing.
-/

namespace BlockEmulator

variable {H : Type}

/-! ## The report of a block -/

/-- A block that a leader has added, with its chain and its configuration. -/
structure CommittedBlock (H : Type) where
  /-- the configuration of the leader -/
  cc : ChainConfig H
  /-- its sequence number -/
  seqID : ℕ
  /-- its chain, with the block on top -/
  bc : BlockChain H
  /-- the block -/
  block : Block H

namespace CommittedBlock

/-- What the leader tells the supervisor; `none` where it panics. -/
def reports (c : CommittedBlock H) : Option (List BlockInfoMsg) :=
  (RawRelay.relayBlock c.cc c.seqID c.bc c.block).map fun r => r.2.filterMap Outgoing.toBlockInfo

/-- The placements the leader goes by. -/
def place (c : CommittedBlock H) : Address → ℕ := c.bc.getPartitionMap c.cc

/-- The transactions of the block. -/
def txs (c : CommittedBlock H) : List Transaction := c.block.body.filterMap id

/-- The report on a block of transactions that are in their shards. -/
def report (c : CommittedBlock H) : BlockInfoMsg where
  blockBodyLength := c.txs.length
  innerShardTxs := c.txs.filter fun tx => c.place tx.recipient = c.cc.shardID ∧ tx.relayed = false
  epoch := c.block.header.number
  relay1Txs := (c.txs.filter fun tx => c.place tx.recipient ≠ c.cc.shardID).map fun tx =>
    { tx with relayed := true }
  relay2Txs := c.txs.filter fun tx => c.place tx.recipient = c.cc.shardID ∧ tx.relayed = true
  senderShardID := c.cc.shardID

end CommittedBlock

/-- How the loop of `HandleinCommit` sorts transactions that are in their shards. -/
theorem routeTxs_sorted {cc : ChainConfig H} {bc : BlockChain H} {txs : List Transaction}
    {pool : TxPool} (acc : Routed) (hf : pool.relayPool.isSome = true)
    (h : ∀ tx ∈ txs, tx.Placed (bc.getPartitionMap cc) cc.shardID) :
    ∃ pool', RawRelay.routeTxs cc bc (txs.map some) pool acc = some (pool',
      { relay1Txs := acc.relay1Txs ++ (txs.filter fun tx =>
          bc.getPartitionMap cc tx.recipient ≠ cc.shardID).map fun tx => { tx with relayed := true }
        relay2Txs := acc.relay2Txs ++ txs.filter fun tx =>
          bc.getPartitionMap cc tx.recipient = cc.shardID ∧ tx.relayed = true
        interShardTxs := acc.interShardTxs ++ txs.filter fun tx =>
          bc.getPartitionMap cc tx.recipient = cc.shardID ∧ tx.relayed = false }) := by
  induction txs generalizing pool acc with
  | nil => exact ⟨pool, by simp [RawRelay.routeTxs]⟩
  | cons tx txs ih =>
    obtain ⟨hsender, hrecipient⟩ := h tx List.mem_cons_self
    have hrest : ∀ t ∈ txs, t.Placed (bc.getPartitionMap cc) cc.shardID :=
      fun t ht => h t (List.mem_cons_of_mem _ ht)
    rw [List.map_cons, RawRelay.routeTxs]
    -- neither phase is in the wrong shard
    rw [if_neg fun hbad => hbad.2 (hsender hbad.1), if_neg fun hbad => hbad.2 (hrecipient hbad.1)]
    by_cases hhere : bc.getPartitionMap cc tx.recipient = cc.shardID
    · rw [if_neg (not_not.mpr hhere)]
      cases hrel : tx.relayed with
      | true =>
        obtain ⟨pool', hroute⟩ := ih { acc with relay2Txs := acc.relay2Txs ++ [tx] } hf hrest
        exact ⟨pool', by simp [hroute, hhere, hrel]⟩
      | false =>
        obtain ⟨pool', hroute⟩ :=
          ih { acc with interShardTxs := acc.interShardTxs ++ [tx] } hf hrest
        exact ⟨pool', by simp [hroute, hhere, hrel]⟩
    · rw [if_pos hhere]
      obtain ⟨f, hf⟩ := Option.isSome_iff_exists.mp hf
      rw [TxPool.addRelayTx, hf, Option.map_some, Option.bind_some]
      have hpool : ({ pool with
          relayPool := some (Function.update f (bc.getPartitionMap cc tx.recipient)
            (f (bc.getPartitionMap cc tx.recipient) ++ [{ tx with relayed := true }])) } :
          TxPool).relayPool.isSome = true := rfl
      obtain ⟨pool', hroute⟩ :=
        ih { acc with relay1Txs := acc.relay1Txs ++ [{ tx with relayed := true }] } hpool hrest
      exact ⟨pool', by simp [hroute, hhere]⟩

/-- **The report of a block** whose transactions are in their shards: it sends one. -/
theorem relayBlock_report (c : CommittedBlock H) (hbody : c.block.body = c.txs.map some)
    (h : ∀ tx ∈ c.txs, tx.Placed c.place c.cc.shardID) : c.reports = some [c.report] := by
  have hlen : c.block.body.length = c.txs.length := by rw [hbody, List.length_map]
  have hpool : ({ c.bc.txpool with relayPool := some fun _ => [] } : TxPool).relayPool.isSome :=
    rfl
  obtain ⟨pool', hroute⟩ := routeTxs_sorted ⟨[], [], []⟩ hpool h
  -- what goes to the other shards is no report
  have hrelays : ((RawRelay.relayMsgSend c.cc c.seqID pool').1).filterMap
      Outgoing.toBlockInfo = [] := by
    simp [RawRelay.relayMsgSend, Outgoing.toBlockInfo]
  rw [CommittedBlock.reports, RawRelay.relayBlock, hlen, hbody, hroute, Option.map_some,
    Option.map_some]
  simp only [List.filterMap_append, hrelays, List.nil_append]
  rfl

/-! ## Packings -/

/-- The phases of a batch that are due in a shard: the first phases of its senders, the
second phases of recipients whose senders are elsewhere. -/
def stageTxs (place : Address → ℕ) (txs : List Transaction) (s : ℕ) : List Transaction :=
  (txs.filter fun tx => place tx.sender = s).map (fun tx => { tx with relayed := false }) ++
    (txs.filter fun tx => place tx.sender ≠ s ∧ place tx.recipient = s).map
      fun tx => { tx with relayed := true }

/-- Blocks that leaders of `n` shards committed by one placement, and that hold every
phase of a batch once, in the shard where it is due. -/
structure Packing (n : ℕ) (place : Address → ℕ) (txs : List Transaction)
    (commits : List (CommittedBlock H)) : Prop where
  /-- the leaders go by the placement, as far as the batch is concerned -/
  placed : ∀ c ∈ commits, ∀ tx ∈ txs,
    c.place tx.sender = place tx.sender ∧ c.place tx.recipient = place tx.recipient
  /-- they are those of the shards -/
  shard : ∀ c ∈ commits, c.cc.shardID < n
  /-- the blocks of a shard hold what is due there, in any order -/
  body : ∀ s < n, ((commits.filter (·.cc.shardID = s)).flatMap (·.block.body)).Perm
    ((stageTxs place txs s).map some)

/-- The blocks of a shard. -/
def ofShard (commits : List (CommittedBlock H)) (s : ℕ) : List (CommittedBlock H) :=
  commits.filter (·.cc.shardID = s)

/-- A phase has the ends of its transaction, and is in its shard. -/
theorem mem_stageTxs {place : Address → ℕ} {txs : List Transaction} {s : ℕ}
    {tx : Transaction} (h : tx ∈ stageTxs place txs s) :
    (∃ t ∈ txs, tx.sender = t.sender ∧ tx.recipient = t.recipient) ∧ tx.Placed place s := by
  rw [stageTxs, List.mem_append, List.mem_map, List.mem_map] at h
  obtain ⟨tx, hf, rfl⟩ | ⟨tx, hf, rfl⟩ := h
  · obtain ⟨hmem, hs⟩ := List.mem_filter.mp hf
    exact ⟨⟨tx, hmem, rfl, rfl⟩, fun _ => by simpa using hs, nofun⟩
  · obtain ⟨hmem, hs⟩ := List.mem_filter.mp hf
    exact ⟨⟨tx, hmem, rfl, rfl⟩, nofun, fun _ => by simp at hs; exact hs.2⟩

namespace Packing

variable {n : ℕ} {place : Address → ℕ} {txs : List Transaction} {commits : List (CommittedBlock H)}
  {c : CommittedBlock H}

theorem mem_body (h : Packing n place txs commits) (hc : c ∈ commits) {ptr : Option Transaction}
    (hp : ptr ∈ c.block.body) : ∃ tx ∈ stageTxs place txs c.cc.shardID, ptr = some tx := by
  have hmem : ptr ∈ (commits.filter (·.cc.shardID = c.cc.shardID)).flatMap (·.block.body) :=
    List.mem_flatMap.mpr ⟨c, List.mem_filter.mpr ⟨hc, by simp⟩, hp⟩
  obtain ⟨tx, htx, rfl⟩ := List.mem_map.mp ((h.body _ (h.shard c hc)).mem_iff.mp hmem)
  exact ⟨tx, htx, rfl⟩

theorem body_eq (h : Packing n place txs commits) (hc : c ∈ commits) :
    c.block.body = c.txs.map some := by
  have hsome : ∀ ptr ∈ c.block.body, ptr.isSome = true := by
    intro ptr hptr
    obtain ⟨tx, -, rfl⟩ := h.mem_body hc hptr
    rfl
  rw [CommittedBlock.txs]
  revert hsome
  induction c.block.body with
  | nil => intro _; rfl
  | cons ptr body ih =>
    intro hsome
    obtain ⟨tx, rfl⟩ := Option.isSome_iff_exists.mp (hsome ptr List.mem_cons_self)
    exact congrArg (some tx :: ·) (ih fun p hp => hsome p (List.mem_cons_of_mem _ hp))

theorem mem_txs (h : Packing n place txs commits) (hc : c ∈ commits) {tx : Transaction}
    (htx : tx ∈ c.txs) : tx ∈ stageTxs place txs c.cc.shardID := by
  have hmem : some tx ∈ c.block.body := by
    rw [h.body_eq hc]
    exact List.mem_map_of_mem htx
  obtain ⟨tx', htx', heq⟩ := h.mem_body hc hmem
  rwa [Option.some.inj heq]

/-- A leader places the ends of what is in its block. -/
theorem place_eq (h : Packing n place txs commits) (hc : c ∈ commits) {tx : Transaction}
    (htx : tx ∈ c.txs) :
    c.place tx.sender = place tx.sender ∧ c.place tx.recipient = place tx.recipient := by
  obtain ⟨⟨t, ht, hsender, hrecipient⟩, -⟩ := mem_stageTxs (h.mem_txs hc htx)
  rw [hsender, hrecipient]
  exact h.placed c hc t ht

/-- Every leader reports its block. -/
theorem reports (h : Packing n place txs commits) (hc : c ∈ commits) :
    c.reports = some [c.report] := by
  refine relayBlock_report c (h.body_eq hc) fun tx htx => ?_
  obtain ⟨hsender, hrecipient⟩ := h.place_eq hc htx
  rw [Transaction.Placed, hsender, hrecipient]
  exact (mem_stageTxs (h.mem_txs hc htx)).2

/-- The transactions in the blocks of a shard are the phases that are due there. -/
theorem txs_perm (h : Packing n place txs commits) {s : ℕ} (hs : s < n) :
    ((ofShard commits s).flatMap (·.txs)).Perm (stageTxs place txs s) := by
  have hperm := (h.body s hs).filterMap id
  rw [List.filterMap_map, List.filterMap_flatMap] at hperm
  simpa [ofShard, CommittedBlock.txs] using hperm

end Packing

/-! ## Counting the phases -/

section

variable (place : Address → ℕ) (s : ℕ)

/-- Whether a phase in shard `s` belongs to a cross-shard transaction. -/
def IsCrossPhase (tx : Transaction) : Prop := place tx.recipient ≠ s ∨ tx.relayed = true

instance : DecidablePred (IsCrossPhase place s) :=
  fun _ => inferInstanceAs (Decidable (_ ∨ _))

/-- What a phase counts for in transactions. -/
def phaseWeight (tx : Transaction) : ℚ := if IsCrossPhase place s tx then 1 / 2 else 1

/-- What it counts for in cross-shard transactions. -/
def crossWeight (tx : Transaction) : ℚ := if IsCrossPhase place s tx then 1 / 2 else 0

end

theorem isCrossPhase_congr {place place' : Address → ℕ} {s : ℕ} {tx : Transaction}
    (h : place tx.recipient = place' tx.recipient) :
    IsCrossPhase place s tx ↔ IsCrossPhase place' s tx := by
  rw [IsCrossPhase, IsCrossPhase, h]

/-- The lists that a block is sorted into, weighed. -/
theorem springBlockStat_report (p : SpringConfig) (rows : SceneRows) (c : CommittedBlock H) :
    (springBlockStat p rows c.report).numTx = c.txs.length ∧
      (springBlockStat p rows c.report).crossTx =
        (c.txs.map (crossWeight c.place c.cc.shardID)).sum ∧
      (springBlockStat p rows c.report).effectiveTx =
        (c.txs.map (phaseWeight c.place c.cc.shardID)).sum := by
  refine ⟨rfl, ?_, ?_⟩
  · simp only [springBlockStat, CommittedBlock.report, List.length_map]
    induction c.txs with
    | nil => simp
    | cons tx txs ih =>
      rw [List.map_cons, List.sum_cons, ← ih]
      by_cases hhere : c.place tx.recipient = c.cc.shardID <;> cases hrel : tx.relayed <;>
        simp [crossWeight, IsCrossPhase, hhere, hrel] <;> ring
  · simp only [springBlockStat, CommittedBlock.report, List.length_map]
    induction c.txs with
    | nil => simp
    | cons tx txs ih =>
      rw [List.map_cons, List.sum_cons, ← ih]
      by_cases hhere : c.place tx.recipient = c.cc.shardID <;> cases hrel : tx.relayed <;>
        simp [phaseWeight, IsCrossPhase, hhere, hrel] <;> ring

/-- What a weight of the phases of a batch sums up to in a shard. -/
theorem sum_stageTxs {M : Type} [AddCommMonoid M] (place : Address → ℕ) (s : ℕ)
    (w : Transaction → M) (v : ℕ → ℕ → M) (txs : List Transaction)
    (hin : ∀ tx ∈ txs, place tx.sender = s →
      w { tx with relayed := false } = v (place tx.sender) (place tx.recipient))
    (hcross : ∀ tx ∈ txs, place tx.sender ≠ s → place tx.recipient = s →
      w { tx with relayed := true } = v (place tx.sender) (place tx.recipient))
    (hout : ∀ a b, a ≠ s → b ≠ s → v a b = 0) :
    ((stageTxs place txs s).map w).sum =
      (txs.map fun tx => v (place tx.sender) (place tx.recipient)).sum := by
  rw [stageTxs, List.map_append, List.sum_append]
  induction txs with
  | nil => simp
  | cons tx txs ih =>
    have hrest := ih (fun t ht => hin t (List.mem_cons_of_mem _ ht))
      (fun t ht => hcross t (List.mem_cons_of_mem _ ht))
    rw [List.map_cons, List.sum_cons, ← hrest]
    by_cases hs : place tx.sender = s
    · have hw := hin tx List.mem_cons_self hs
      rw [hs] at hw
      simp [hs, hw, add_assoc]
    · by_cases hr : place tx.recipient = s
      · have hw := hcross tx List.mem_cons_self hs hr
        rw [hr] at hw
        simp [hs, hr, hw, add_left_comm]
      · simp [hs, hr, hout _ _ hs hr]

/-! ## Sums over the shards -/

section

variable {M : Type} [AddCommMonoid M] {n : ℕ}

theorem sum_loadsOf_add (f g : ℕ → M) :
    (loadsOf n fun s => f s + g s).sum = (loadsOf n f).sum + (loadsOf n g).sum :=
  List.sum_map_add

theorem sum_loadsOf_ite {a : ℕ} (ha : a < n) (x : M) :
    (loadsOf n fun s => if s = a then x else 0).sum = x := by
  have hsum : (loadsOf n fun s => if s = a then x else 0).sum =
      ∑ s ∈ Finset.range n, if s = a then x else 0 := rfl
  rw [hsum, Finset.sum_ite_eq', if_pos (Finset.mem_range.mpr ha)]

theorem sum_loadsOf_sum {α : Type} (g : ℕ → α → M) (l : List α) :
    (loadsOf n fun s => (l.map (g s)).sum).sum =
      (l.map fun x => (loadsOf n fun s => g s x).sum).sum := by
  induction l with
  | nil => simp [loadsOf]
  | cons x l ih =>
    simp only [List.map_cons, List.sum_cons]
    rw [sum_loadsOf_add, ih]

end

theorem sum_ite_eq_countP {α : Type} (q : α → Prop) [DecidablePred q] (l : List α) :
    (l.map fun x => if q x then 1 else 0).sum = l.countP q := by
  induction l with
  | nil => rfl
  | cons x l ih => rw [List.map_cons, List.sum_cons, ih, List.countP_cons]; simp [add_comm]

theorem sum_effectiveOf {n a b : ℕ} (ha : a < n) (hb : b < n) :
    (loadsOf n (effectiveOf a b)).sum = 1 := by
  have hsplit := sum_loadsOf_add (n := n) (fun s => if s = a then (1 / 2 : ℚ) else 0)
    fun s => if s = b then (1 / 2 : ℚ) else 0
  rw [sum_loadsOf_ite ha, sum_loadsOf_ite hb] at hsplit
  refine hsplit.trans ?_
  norm_num

theorem sum_stageOf {n a b : ℕ} (ha : a < n) (hb : b < n) :
    (loadsOf n (stageOf a b)).sum = 1 + if a ≠ b then 1 else 0 := by
  have hsplit := sum_loadsOf_add (n := n) (fun s => if s = a then 1 else 0)
    fun s => if a ≠ b ∧ s = b then 1 else 0
  rw [sum_loadsOf_ite ha] at hsplit
  refine hsplit.trans ?_
  by_cases hne : a = b
  · simp [hne, loadsOf]
  · simp only [hne, ne_eq, not_false_eq_true, true_and, if_true]
    rw [sum_loadsOf_ite hb]

/-! ## Both accountings -/

/-- What the supervisor collects of a shard: the sum of a quantity of its reports. -/
def collected (p : SpringConfig) (rows : SceneRows) (infos : List BlockInfoMsg) (s : ℕ)
    {M : Type} [AddCommMonoid M] (f : SpringBlockStat → M) : M :=
  ((infos.filter (·.senderShardID = s)).map fun b => f (springBlockStat p rows b)).sum

section

variable {p : SpringConfig} {rows : SceneRows} {place : Address → ℕ} {txs : List Transaction}
  {commits : List (CommittedBlock H)} {infos : List BlockInfoMsg} {n s : ℕ}

/-- A quantity that is a sum over the transactions of a block is, collected, the sum
over the phases that are due. -/
theorem collected_eq {M : Type} [AddCommMonoid M] (hpack : Packing n place txs commits)
    (hinfos : infos.Perm (commits.flatMap fun c => c.reports.getD [])) (hs : s < n)
    {f : SpringBlockStat → M} {w : Transaction → M}
    (hf : ∀ c ∈ ofShard commits s, f (springBlockStat p rows c.report) = (c.txs.map w).sum) :
    collected p rows infos s f = ((stageTxs place txs s).map w).sum := by
  have hreports : (commits.flatMap fun c => c.reports.getD []) = commits.map (·.report) := by
    rw [List.map_eq_flatMap]
    refine List.flatMap_congr fun c hc => ?_
    rw [hpack.reports hc, Option.getD_some]
  have hmine : (commits.map (·.report)).filter (·.senderShardID = s) =
      (ofShard commits s).map (·.report) := by
    rw [List.filter_map]
    rfl
  calc collected p rows infos s f
      = ((ofShard commits s).map fun c => f (springBlockStat p rows c.report)).sum := by
        rw [collected, ((hinfos.filter _).map _).sum_eq, hreports, hmine, List.map_map]
        rfl
    _ = ((ofShard commits s).map fun c => (c.txs.map w).sum).sum :=
        congrArg List.sum (List.map_congr_left hf)
    _ = (((ofShard commits s).flatMap (·.txs)).map w).sum := by
        rw [List.map_flatMap, List.flatMap_def, List.sum_flatten, List.map_map]
        rfl
    _ = ((stageTxs place txs s).map w).sum := ((hpack.txs_perm hs).map w).sum_eq

theorem collected_numTx (hpack : Packing n place txs commits)
    (hinfos : infos.Perm (commits.flatMap fun c => c.reports.getD [])) (hs : s < n) :
    collected p rows infos s (·.numTx) =
      (txs.map fun tx => stageOf (place tx.sender) (place tx.recipient) s).sum := by
  have hw : ∀ c ∈ ofShard commits s,
      (springBlockStat p rows c.report).numTx = (c.txs.map fun _ => 1).sum := by
    intro c _
    simp [(springBlockStat_report p rows c).1]
  rw [collected_eq hpack hinfos hs hw]
  refine sum_stageTxs place s _ (stageOf · · s) txs ?_ ?_ ?_
  · intro tx _ ha
    simp only [stageOf, ha, if_true, ne_eq, left_eq_add, ite_eq_right_iff]
    intro h
    exact absurd h.2 h.1
  · intro tx _ ha hb
    simp [stageOf, ha, hb, Ne.symm ha]
  · intro a b ha hb
    simp [stageOf, Ne.symm ha, Ne.symm hb]

theorem collected_effectiveTx (hpack : Packing n place txs commits)
    (hinfos : infos.Perm (commits.flatMap fun c => c.reports.getD [])) (hs : s < n) :
    collected p rows infos s (·.effectiveTx) =
      (txs.map fun tx => effectiveOf (place tx.sender) (place tx.recipient) s).sum := by
  have hw : ∀ c ∈ ofShard commits s,
      (springBlockStat p rows c.report).effectiveTx = (c.txs.map (phaseWeight place s)).sum := by
    intro c hc
    have hmem := List.mem_filter.mp hc
    have hsid : c.cc.shardID = s := by simpa using hmem.2
    rw [(springBlockStat_report p rows c).2.2, hsid]
    refine congrArg List.sum (List.map_congr_left fun tx htx => ?_)
    exact if_congr (isCrossPhase_congr (hpack.place_eq hmem.1 htx).2) rfl rfl
  rw [collected_eq hpack hinfos hs hw]
  refine sum_stageTxs place s _ (effectiveOf · · s) txs ?_ ?_ ?_
  · intro tx _ ha
    by_cases hb : place tx.recipient = s
    · simp only [phaseWeight, IsCrossPhase, effectiveOf, ha, hb]
      norm_num
    · simp [phaseWeight, IsCrossPhase, effectiveOf, ha, hb, Ne.symm hb]
  · intro tx _ ha hb
    simp [phaseWeight, IsCrossPhase, effectiveOf, hb, Ne.symm ha]
  · intro a b ha hb
    simp [effectiveOf, Ne.symm ha, Ne.symm hb]

theorem collected_crossTx (hpack : Packing n place txs commits)
    (hinfos : infos.Perm (commits.flatMap fun c => c.reports.getD [])) (hs : s < n) :
    collected p rows infos s (·.crossTx) =
      (txs.map fun tx => crossOf (place tx.sender) (place tx.recipient) s).sum := by
  have hw : ∀ c ∈ ofShard commits s,
      (springBlockStat p rows c.report).crossTx = (c.txs.map (crossWeight place s)).sum := by
    intro c hc
    have hmem := List.mem_filter.mp hc
    have hsid : c.cc.shardID = s := by simpa using hmem.2
    rw [(springBlockStat_report p rows c).2.1, hsid]
    refine congrArg List.sum (List.map_congr_left fun tx htx => ?_)
    exact if_congr (isCrossPhase_congr (hpack.place_eq hmem.1 htx).2) rfl rfl
  rw [collected_eq hpack hinfos hs hw]
  refine sum_stageTxs place s _ (crossOf · · s) txs ?_ ?_ ?_
  · intro tx _ ha
    by_cases hb : place tx.recipient = s
    · simp [crossWeight, IsCrossPhase, crossOf, ha, hb]
    · simp [crossWeight, IsCrossPhase, crossOf, effectiveOf, ha, hb, Ne.symm hb]
  · intro tx _ ha hb
    simp [crossWeight, IsCrossPhase, crossOf, effectiveOf, ha, hb, Ne.symm ha]
  · intro a b ha hb
    simp [crossOf, effectiveOf, Ne.symm ha, Ne.symm hb]

/-- A stage is a transaction, or half of one that is cross-shard. -/
theorem effectiveOf_add_crossOf (a b s : ℕ) :
    effectiveOf a b s + crossOf a b s = stageOf a b s := by
  by_cases hab : a = b
  · subst hab
    by_cases hs : s = a
    · simp only [effectiveOf, crossOf, stageOf, hs]
      norm_num
    · simp [effectiveOf, crossOf, stageOf, hs]
  · by_cases hs : s = a
    · subst hs
      simp only [effectiveOf, crossOf, stageOf, hab]
      norm_num
    · by_cases hs' : s = b
      · subst hs'
        simp only [effectiveOf, crossOf, stageOf, hs]
        norm_num [hab]
      · simp [effectiveOf, crossOf, stageOf, hab, hs, hs']

end

/-- The placement of the offline environment: its table, and the hash behind it. -/
def offlinePlace (F : HashFns H) (decimal : Char → Option ℕ) (shards : ℕ) (addrShard : AddrShard) :
    Address → ℕ :=
  fun a => (addrShard.lookup a).getD (addr2shard F decimal a shards)

/-- **Both accountings give the same loads.** A batch is executed by the placement of the
offline environment, in any packing into blocks, and the leaders' reports reach the
supervisor in any order. Then no leader panics, the pass over the batch goes through,
and for each shard the quantities that the supervisor collects are the loads of the
pass. Per shard, transactions and cross-shard transactions add up to the stages; over the
shards there is one for each transaction, and stages more for the cross-shard ones. -/
theorem collected_loads (F : HashFns H) (decimal : Char → Option ℕ) (p : SpringConfig)
    (rows : SceneRows) (env : LoadConfig) (addrShard : AddrShard) (txs : List Transaction)
    (commits : List (CommittedBlock H)) (infos : List BlockInfoMsg) (offTxs : List OfflineTx)
    (hshards : 0 < env.shards) (hrange : ∀ a s, addrShard.lookup a = some s → s < env.shards)
    (hpack : Packing env.shards (offlinePlace F decimal env.shards addrShard) txs commits)
    (hinfos : infos.Perm (commits.flatMap fun c => c.reports.getD []))
    (hsame : offTxs.map (fun tx => (tx.sender, tx.recipient)) =
      txs.map fun tx => (tx.sender, tx.recipient)) :
    (∀ c ∈ commits, c.reports.isSome = true) ∧
      ∃ sim addrShard', simulateBatchLoads (fun a => addr2shard F decimal a env.shards) env offTxs
          addrShard = some (sim, addrShard') ∧
        (∀ s < env.shards,
          sim.stageLoads[s]? = some (collected p rows infos s (·.numTx)) ∧
          sim.effectiveLoads[s]? = some (collected p rows infos s (·.effectiveTx)) ∧
          sim.crossLoads[s]? = some (collected p rows infos s (·.crossTx)) ∧
          collected p rows infos s (·.effectiveTx) + collected p rows infos s (·.crossTx) =
            (collected p rows infos s (·.numTx) : ℕ)) ∧
        sim.effectiveLoads.sum = txs.length ∧
        sim.stageLoads.sum = txs.length + txs.countP fun tx =>
          offlinePlace F decimal env.shards addrShard tx.sender ≠
            offlinePlace F decimal env.shards addrShard tx.recipient := by
  refine ⟨fun c hc => by rw [hpack.reports hc]; rfl, ?_⟩
  generalize hp : offlinePlace F decimal env.shards addrShard = place at hpack ⊢
  have htable : PlacedBy (fun a => addr2shard F decimal a env.shards) place addrShard :=
    fun a => congrFun hp a
  have hplace : ∀ a, place a < env.shards := by
    intro a
    rw [← htable a]
    cases hlookup : addrShard.lookup a with
    | none =>
      rw [Option.getD_none]
      exact addr2shard_lt F decimal a hshards
    | some s =>
      rw [Option.getD_some]
      exact hrange a s hlookup
  obtain ⟨sim, addrShard', hrun, hstage, heff, hcross, -⟩ :=
    simulateBatchLoads_spec hplace offTxs htable
  -- the pass sees the ends only
  have hends : ∀ {M : Type} (v : ℕ → ℕ → M),
      (offTxs.map fun tx => v (place tx.sender) (place tx.recipient)) =
        txs.map fun tx => v (place tx.sender) (place tx.recipient) := by
    intro M v
    have hmap := congrArg (List.map fun e => v (place e.1) (place e.2)) hsame
    rw [List.map_map, List.map_map] at hmap
    exact hmap
  rw [funext fun s => congrArg List.sum (hends (stageOf · · s))] at hstage
  rw [funext fun s => congrArg List.sum (hends (effectiveOf · · s))] at heff
  rw [funext fun s => congrArg List.sum (hends (crossOf · · s))] at hcross
  refine ⟨sim, addrShard', hrun, fun s hs => ?_, ?_, ?_⟩
  · rw [collected_numTx hpack hinfos hs, collected_effectiveTx hpack hinfos hs,
      collected_crossTx hpack hinfos hs, hstage, heff, hcross]
    refine ⟨loadsOf_getElem? _ hs, loadsOf_getElem? _ hs, loadsOf_getElem? _ hs, ?_⟩
    rw [← List.sum_map_add]
    simp only [effectiveOf_add_crossOf]
    rw [Nat.cast_list_sum, List.map_map]
    rfl
  · rw [heff, sum_loadsOf_sum]
    have hone : ∀ tx ∈ txs,
        (loadsOf env.shards (effectiveOf (place tx.sender) (place tx.recipient))).sum = (1 : ℚ) :=
      fun tx _ => sum_effectiveOf (hplace _) (hplace _)
    rw [List.map_congr_left hone]
    simp
  · rw [hstage, sum_loadsOf_sum]
    have hone : ∀ tx ∈ txs,
        (loadsOf env.shards (stageOf (place tx.sender) (place tx.recipient))).sum =
          1 + if place tx.sender ≠ place tx.recipient then 1 else 0 :=
      fun tx _ => sum_stageOf (hplace _) (hplace _)
    rw [List.map_congr_left hone, List.sum_map_add, sum_ite_eq_countP]
    simp

/-- The two blocks of a cross-shard transaction: its first phase in shard 0, its second
phase in shard 1. -/
def crossCommits : List (CommittedBlock FreeHash) :=
  let cc₁ : ChainConfig FreeHash := { fourNodesChain with shardID := 1 }
  [⟨fourNodesChain, 1, genesisChain fourNodesChain, crossBlock⟩,
    ⟨cc₁, 1, genesisChain cc₁,
      { crossBlock with body := [some { crossTransaction with relayed := true }] }⟩]

/-- The same transaction, as the offline environment reads it. -/
def crossOfflineTx : OfflineTx := ⟨"a", "b", [], [], [], 0, false, [], 0⟩

theorem collected_loads_cross :
    ∃ sim addrShard', simulateBatchLoads (fun a => addr2shard freeHash (fun _ => none) a 2)
        ⟨2, .legacy, .legacy⟩ [crossOfflineTx] ∅ = some (sim, addrShard') ∧
      sim.effectiveLoads.sum = 1 ∧ sim.stageLoads.sum = 2 := by
  have hpack : Packing 2 (offlinePlace freeHash (fun _ => none) 2 ∅) [crossTransaction]
      crossCommits :=
    ⟨by decide +kernel, by decide +kernel, by decide +kernel⟩
  obtain ⟨-, sim, addrShard', hrun, -, heff, hstage⟩ :=
    collected_loads freeHash (fun _ => none) (.default 2) (fun _ => none) ⟨2, .legacy, .legacy⟩ ∅
      [crossTransaction] crossCommits _ [crossOfflineTx] (by decide) (by simp) hpack
      (List.Perm.refl _) rfl
  have hcross : [crossTransaction].countP (fun tx =>
      offlinePlace freeHash (fun _ => none) 2 ∅ tx.sender ≠
        offlinePlace freeHash (fun _ => none) 2 ∅ tx.recipient) = 1 := by decide +kernel
  rw [hcross] at hstage
  exact ⟨sim, addrShard', hrun, by simpa using heff, hstage⟩

end BlockEmulator
