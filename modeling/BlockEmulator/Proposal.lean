import BlockEmulator.BlockExecution
import BlockEmulator.ReplicaValidity

/-!
# What a proposal is made of, and where it is accepted

`GenerateBlock` packs a prefix of the pool, filters it and builds a block over the rest;
`IsValidBlock` computes all of it again, on every replica.

* `generateBlock_isSome_iff` — a proposal fails only over an amount that is not there.
* `proposal_valid` — **a proposal is valid**: whatever the pool holds, a block is
  generated, and a replica in the same state accepts it, whatever its own pool holds.
-/

namespace BlockEmulator

variable {H : Type}

namespace BlockChain

variable {cc : ChainConfig H} {bc bc' : BlockChain H}

/-- Whether two replicas are in the same state, their pools aside. -/
structure SameState (bc bc' : BlockChain H) : Prop where
  /-- they have the same top -/
  currentBlock : bc'.currentBlock = bc.currentBlock
  /-- the same blocks are stored -/
  storage : bc'.storage = bc.storage
  /-- they have the same placements -/
  partitionMap : bc'.partitionMap = bc.partitionMap

theorem SameState.isHome_iff (h : bc.SameState bc') (a : Address) :
    bc'.isHome cc a ↔ bc.isHome cc a := by
  rw [isHome, isHome, getPartitionMap, getPartitionMap, h.partitionMap]

/-- Replicas in the same state give the same verdicts. -/
theorem SameState.isValidBlock_eq [DecidableEq H] (h : bc.SameState bc') (b : Option (Block H)) :
    isValidBlock cc bc' b = isValidBlock cc bc b :=
  isValidBlock_congr h.currentBlock h.storage h.isHome_iff b

/-- What is packed comes from the pool. -/
theorem mem_packForBlock {p : Option Transaction} (h : p ∈ (packForBlock cc bc).1) :
    p ∈ bc.txpool.txQueue := by
  rw [← packForBlock_append cc bc]
  exact List.mem_append_left _ h

/-- What is proposed comes from the pool. -/
theorem mem_filterFreshTransactions {tx : Transaction}
    (h : tx ∈ filterFreshTransactions bc (packForBlock cc bc).1) :
    some tx ∈ bc.txpool.txQueue := by
  obtain ⟨-, hall⟩ := filterFresh_spec bc.storage (packForBlock cc bc).1 ∅
  exact mem_packForBlock (hall tx h).1

/-- **A proposal goes through** exactly where every amount that is read is there. -/
theorem generateBlock_isSome_iff (miner : ℕ) (now : Time) :
    (generateBlock cc bc miner now).isSome = true ↔
      ∀ tx ∈ filterFreshTransactions bc (packForBlock cc bc).1,
        bc.Touches cc tx → tx.value.isSome = true := by
  have hbuild : ∀ txs : List Transaction,
      (buildBlock cc bc miner now (txs.map some)).isSome =
        (getUpdateStatusTrie cc bc (txs.map some)).isSome := by
    intro txs
    rw [buildBlock]
    cases getUpdateStatusTrie cc bc (txs.map some) with
    | none => rfl
    | some rt => rw [Option.bind_some, getTxTreeRoot_some, getBloomFilter_some]; rfl
  rw [generateBlock]
  dsimp only
  rw [Option.isSome_map, hbuild, getUpdateStatusTrie_isSome_iff]
  constructor
  · intro h tx htx
    obtain ⟨t, ht, hvalue⟩ := h (some tx) (List.mem_map_of_mem htx)
    obtain rfl := Option.some.inj ht
    exact hvalue
  · intro h p hp
    obtain ⟨tx, htx, rfl⟩ := List.mem_map.mp hp
    exact ⟨tx, rfl, h tx htx⟩

variable [DecidableEq H]

/-- **Proposal validity**: where no amount in the pool is nil, a block is generated, only
the pool of the proposer changes, and every replica in the same state finds the block
valid and adds it as soon as its database takes it. -/
theorem proposal_valid (cc : ChainConfig H) (bc : BlockChain H) (miner : ℕ) (now : Time)
    (hvalue : ∀ tx, some tx ∈ bc.txpool.txQueue → tx.value ≠ none) :
    ∃ b bc', bc.generateBlock cc miner now = some (b, bc') ∧ bc.SameState bc' ∧
      ∀ replica : BlockChain H, bc.SameState replica →
        replica.isValidBlock cc (some b) = some (.ok ()) ∧
          replica.addBlock cc (some b) = some (match bc.storage.addBlock b with
            | none => .error .storeBlock
            | some storage => .ok { replica with
                currentBlock := b
                storage := storage
                txpool := replica.txpool.removeTxs b.body }) := by
  have hsome : (generateBlock cc bc miner now).isSome = true := by
    rw [generateBlock_isSome_iff]
    intro tx htx _
    exact Option.isSome_iff_ne_none.mpr (hvalue tx (mem_filterFreshTransactions htx))
  obtain ⟨⟨b, bc'⟩, hgen⟩ := Option.isSome_iff_exists.mp hsome
  have hvalid := isValidBlock_generateBlock hgen
  obtain ⟨-, -, -, -, -, -, -, -, rfl⟩ := generateBlock_eq_some hgen
  have hpool : bc.SameState { bc with txpool := (packForBlock cc bc).2 } := ⟨rfl, rfl, rfl⟩
  refine ⟨b, _, hgen, hpool, fun replica hsame => ?_⟩
  -- the proposer validates over what packing has left, the replica over its own pool
  have hreplica : replica.isValidBlock cc (some b) = some (.ok ()) := by
    rw [hsame.isValidBlock_eq, ← hpool.isValidBlock_eq]
    exact hvalid
  refine ⟨hreplica, ?_⟩
  cases hadd : bc.storage.addBlock b with
  | none => exact addBlock_of_refused hreplica (hsame.storage ▸ hadd)
  | some storage => exact addBlock_of_valid hreplica (hsame.storage ▸ hadd)

end BlockChain

/-- A pool with a nil entry, a payment twice, and one without a hash. -/
def mixedPool : TxPool :=
  { TxPool.new with
    txQueue := [none, some crossTransaction, some crossTransaction,
      some { crossTransaction with txHash := [] }] }

/-- A chain just started proposes the payment once, and adds it. -/
theorem BlockChain.proposal_valid_mixed :
    ∃ b bc', ({ genesisChain fourNodesChain with txpool := mixedPool } :
        BlockChain FreeHash).generateBlock fourNodesChain 0 7 = some (b, bc') ∧
      b.body = [some crossTransaction] ∧
      ∃ bc'', (genesisChain fourNodesChain).addBlock fourNodesChain (some b) =
        some (.ok bc'') ∧ bc''.currentBlock = b := by
  have hvalue : ∀ p ∈ mixedPool.txQueue, ∀ tx ∈ p, tx.value ≠ none := by decide
  obtain ⟨b, bc', hgen, -, hall⟩ := proposal_valid fourNodesChain
    { genesisChain fourNodesChain with txpool := mixedPool } 0 7 fun tx htx => hvalue _ htx tx rfl
  refine ⟨b, bc', hgen, ?_, ?_⟩
  · obtain ⟨hbody, -⟩ := generateBlock_eq_some hgen
    rw [hbody]
    decide +kernel
  · obtain ⟨-, hadd⟩ := hall (genesisChain fourNodesChain) ⟨rfl, rfl, rfl⟩
    exact ⟨_, hadd, rfl⟩

end BlockEmulator
