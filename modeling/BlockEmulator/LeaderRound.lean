import BlockEmulator.Routing

/-!
# One round of a leader, seen from other shards

`leaderRound` is a round in which everything goes well: the leader proposes a block of
pooled transactions, the shard agrees, and the leader commits the block and relays it.

`leaderRound_spec` says what it does to a pool whose transactions are new to the chain:
a prefix of the pool is executed, and its second phases are sent.
-/

namespace BlockEmulator

variable {H : Type} [DecidableEq H]

/-- The messages to other shards, with the shards they go to. -/
def Outgoing.toRelay : Outgoing → Option (ℕ × Relay)
  | .relay sid m => some (sid, m)
  | .blockInfo _ => none

/-- `HandleinPropose` and `HandleinCommit` at the leader; `none` where a block is
rejected or something panics. -/
def leaderRound (cc : ChainConfig H) (miner seqID : ℕ) (now : Time) (bc : BlockChain H) :
    Option (BlockChain H × List (ℕ × Relay)) :=
  (RawRelay.handleinPropose cc miner now bc).bind fun r =>
    match RawRelay.handleinCommit cc true seqID r.2 r.1 with
    | .done bc' outs => some (bc', outs.filterMap Outgoing.toRelay)
    | _ => none

/-! ## The pool of a chain -/

/-- The transactions in the pool of a chain. -/
def BlockChain.pooled (bc : BlockChain H) : List Transaction :=
  bc.txpool.txQueue.filterMap id

omit [DecidableEq H] in
theorem BlockChain.pooled_eq {bc : BlockChain H} {txs : List Transaction}
    (h : bc.txpool.txQueue = txs.map some) : bc.pooled = txs := by
  rw [pooled, h, List.filterMap_map]
  exact List.filterMap_some

/-- A chain after transactions arrived in its pool. -/
def BlockChain.received (bc : BlockChain H) (txs : List Transaction) : BlockChain H :=
  { bc with txpool := { bc.txpool with txQueue := bc.txpool.txQueue ++ txs.map some } }

omit [DecidableEq H] in
@[simp] theorem BlockChain.received_storage (bc : BlockChain H) (txs : List Transaction) :
    (bc.received txs).storage = bc.storage := rfl

omit [DecidableEq H] in
@[simp] theorem BlockChain.received_partitionMap (bc : BlockChain H) (txs : List Transaction) :
    (bc.received txs).partitionMap = bc.partitionMap := rfl

omit [DecidableEq H] in
@[simp] theorem BlockChain.received_currentBlock (bc : BlockChain H) (txs : List Transaction) :
    (bc.received txs).currentBlock = bc.currentBlock := rfl

omit [DecidableEq H] in
theorem BlockChain.received_pooled {bc : BlockChain H}
    (hq : bc.txpool.txQueue = bc.pooled.map some) (txs : List Transaction) :
    (bc.received txs).pooled = bc.pooled ++ txs :=
  BlockChain.pooled_eq (by rw [received, List.map_append, hq])

omit [DecidableEq H] in
theorem BlockChain.received_queue {bc : BlockChain H}
    (hq : bc.txpool.txQueue = bc.pooled.map some) (txs : List Transaction) :
    (bc.received txs).txpool.txQueue = (bc.received txs).pooled.map some := by
  rw [received_pooled hq, received, List.map_append, hq]

/-- Whether the pool of a chain is these transactions, all new to the chain: with
distinct, non-empty hashes, none of them executed. -/
structure FreshPool (bc : BlockChain H) (txs : List Transaction) : Prop where
  /-- no pointer is nil -/
  queue : bc.txpool.txQueue = txs.map some
  /-- the hashes are distinct -/
  nodup : (txs.map (·.txHash)).Nodup
  /-- there are hashes, and they are not executed -/
  fresh : ∀ tx ∈ txs, tx.txHash ≠ [] ∧ tx.txHash ∉ bc.storage.executedTransaction

variable {cc : ChainConfig H}

omit [DecidableEq H] in
/-- What is packed out of a fresh pool is a prefix of it, and passes the filter. -/
theorem FreshPool.packForBlock (cc : ChainConfig H) {bc : BlockChain H} {txs : List Transaction}
    (h : FreshPool bc txs) :
    ∃ packed rest, txs = packed ++ rest ∧
      (BlockChain.packForBlock cc bc).2.txQueue = rest.map some ∧
      BlockChain.filterFreshTransactions bc (BlockChain.packForBlock cc bc).1 = packed := by
  have hpack : ∃ n, BlockChain.packForBlock cc bc = bc.txpool.packTxs n := by
    rw [BlockChain.packForBlock]
    split
    · exact ⟨_, rfl⟩
    · exact ⟨_, rfl⟩
  obtain ⟨n, hn⟩ := hpack
  refine ⟨txs.take n, txs.drop n, (List.take_append_drop n txs).symm, ?_, ?_⟩
  · rw [hn, TxPool.packTxs, h.queue, List.map_drop]
  · rw [hn, TxPool.packTxs, h.queue, ← List.map_take]
    refine BlockChain.filterFresh_eq_self bc.storage ?_ fun tx htx => ?_
    · exact h.nodup.sublist ((List.take_sublist n txs).map _)
    · obtain ⟨hne, hex⟩ := h.fresh tx (List.mem_of_mem_take htx)
      exact ⟨hne, Finset.notMem_empty _, hex⟩

/-- Committing some transactions leaves the others in the queue, where hashes are
distinct. -/
theorem removeTxs_rest {pool : TxPool} {packed rest : List Transaction}
    (hq : pool.txQueue = rest.map some) (hnd : ((packed ++ rest).map (·.txHash)).Nodup) :
    (pool.removeTxs (packed.map some)).txQueue = rest.map some := by
  rw [TxPool.removeTxs]
  split
  · exact hq
  · dsimp only
    rw [hq, List.filter_eq_self]
    intro p hp
    obtain ⟨tx, htx, rfl⟩ := List.mem_map.mp hp
    dsimp only
    rw [Bool.not_eq_true']
    by_contra hc
    obtain ⟨t, ht, heq⟩ := TxPool.committedHash_eq_true.mp (by simpa using hc)
    obtain ⟨t', ht', rfl⟩ : ∃ t' ∈ packed, t' = t := by simpa using ht
    rw [List.map_append] at hnd
    exact (List.nodup_append.mp hnd).2.2 _ (List.mem_map_of_mem ht') _
      (List.mem_map_of_mem htx) heq

/-! ## What a round does -/

/-- **A block is proposed and added**: a prefix of the pool is executed. -/
theorem FreshPool.addBlock {bc bc₁ bc₂ : BlockChain H} {b : Block H} {miner : ℕ} {now : Time}
    {txs : List Transaction} (hp : FreshPool bc txs)
    (hgen : BlockChain.generateBlock cc bc miner now = some (b, bc₁))
    (hadd : BlockChain.addBlock cc bc₁ (some b) = some (.ok bc₂)) :
    ∃ packed rest, txs = packed ++ rest ∧ b.body = packed.map some ∧
      bc₂.txpool.txQueue = rest.map some ∧
      bc₂.storage.executedTransaction =
        bc.storage.executedTransaction ∪ (packed.map (·.txHash)).toFinset ∧
      bc₂.partitionMap = bc.partitionMap ∧
      BlockChain.filterFreshTransactions bc (BlockChain.packForBlock cc bc).1 = packed ∧
      BlockChain.getUpdateStatusTrie cc bc (packed.map some) =
        some bc₂.currentBlock.header.stateRoot := by
  obtain ⟨packed, rest, htxs, hrest, hfilter⟩ := hp.packForBlock cc
  obtain ⟨hbody, -, -, -, -, -, hst, -, rfl⟩ := BlockChain.generateBlock_eq_some hgen
  rw [hfilter] at hbody
  rw [hbody] at hst
  obtain ⟨b', storage, hb', -, hs, rfl⟩ := BlockChain.addBlock_eq_ok hadd
  obtain rfl := Option.some.inj hb'
  refine ⟨packed, rest, htxs, hbody, ?_, ?_, rfl, hfilter, hst⟩
  · dsimp only
    rw [hbody]
    exact removeTxs_rest hrest (htxs ▸ hp.nodup)
  · dsimp only
    rw [Storage.addBlock_eq_some hs]
    dsimp only
    congr 1
    ext t
    rw [List.mem_toFinset, List.mem_toFinset, mem_bodyHashes_iff, hbody, txHashes_map_some]
    refine and_iff_right_of_imp fun ht => ?_
    obtain ⟨tx, htx, rfl⟩ := List.mem_map.mp ht
    exact (hp.fresh tx (by rw [htxs]; exact List.mem_append_left _ htx)).1

/-- **What a round does**: a prefix of the pool is executed, and what is due in other
shards is sent there. -/
theorem leaderRound_spec {bc bc' : BlockChain H} {miner seqID : ℕ} {now : Time}
    {relays : List (ℕ × Relay)} {txs : List Transaction} (hp : FreshPool bc txs)
    (h : leaderRound cc miner seqID now bc = some (bc', relays)) :
    ∃ packed rest, txs = packed ++ rest ∧
      (∀ tx ∈ packed, tx.Placed (bc.getPartitionMap cc) cc.shardID) ∧
      bc'.txpool.txQueue = rest.map some ∧
      bc'.storage.executedTransaction =
        bc.storage.executedTransaction ∪ (packed.map (·.txHash)).toFinset ∧
      bc'.partitionMap = bc.partitionMap ∧
      BlockChain.filterFreshTransactions bc (BlockChain.packForBlock cc bc).1 = packed ∧
      BlockChain.getUpdateStatusTrie cc bc (packed.map some) =
        some bc'.currentBlock.header.stateRoot ∧
      relays = ((List.range cc.shardNums).filter (· ≠ cc.shardID)).map fun sid =>
        (sid, ⟨secondPhase (bc.getPartitionMap cc) sid packed, cc.shardID, seqID⟩) := by
  rw [leaderRound] at h
  obtain ⟨⟨r, bc₁⟩, hprop, h⟩ := Option.bind_eq_some_iff.mp h
  obtain ⟨⟨b, bc₂⟩, hgen, heq⟩ := Option.map_eq_some_iff.mp hprop
  obtain ⟨rfl, rfl⟩ := Prod.mk.inj heq
  dsimp only at h
  split at h
  · rename_i bc₃ outs hcm
    obtain ⟨rfl, rfl⟩ := Prod.mk.inj (Option.some.inj h)
    obtain ⟨b', bc₄, hb', hadd, ⟨-, hrelay⟩ | ⟨hm, -, -⟩⟩ := RawRelay.handleinCommit_eq_done hcm
    · obtain rfl : b = b' := by simpa using hb'
      obtain ⟨packed, rest, htxs, hbody, hqueue, hexec, hmap, hfilter, hst⟩ := hp.addBlock hgen hadd
      obtain ⟨txs', info, hbody', hplaced, rfl, rfl⟩ := RawRelay.relayBlock_spec hrelay
      obtain rfl : packed = txs' :=
        List.map_injective_iff.mpr (Option.some_injective _) (hbody.symm.trans hbody')
      have hplace : bc₄.getPartitionMap cc = bc.getPartitionMap cc := by
        funext a
        rw [BlockChain.getPartitionMap, BlockChain.getPartitionMap, hmap]
      rw [hplace] at hplaced ⊢
      refine ⟨packed, rest, htxs, hplaced, hqueue, hexec, hmap, hfilter, hst, ?_⟩
      rw [List.filterMap_append, List.filterMap_map]
      simp only [Function.comp_def, Outgoing.toRelay, List.filterMap_cons, List.filterMap_nil,
        List.append_nil]
      exact congrFun List.filterMap_eq_map _
    · cases hm
  · cases h

end BlockEmulator
