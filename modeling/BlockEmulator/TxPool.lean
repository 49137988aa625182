import BlockEmulator.Transaction

/-!
# The transaction pool (`core/txpool.go`)

A queue of transaction pointers, filled at the tail by Inject and Relay
messages, emptied from the head by the proposer (`packTxs`) and by commitment on
every replica (`removeTxs`). The relay pool collects, while a block is being
committed, what goes to each other shard.

The pool's mutex makes each operation atomic, and the time stamp an operation
puts on a transaction without one is not modelled: nothing here reads it.
-/

namespace BlockEmulator

/-- `core.TxPool`. -/
structure TxPool where
  /-- the queue -/
  txQueue : List (Option Transaction)
  /-- what is to be relayed to each shard; `none` is the nil map -/
  relayPool : Option (ℕ → List Transaction)

namespace TxPool

/-- `NewTxPool`. -/
def new : TxPool := ⟨[], some fun _ => []⟩

/-- `AddTxs2Pool`: appends at the tail, and panics on a nil transaction. -/
def addTxs2Pool (pool : TxPool) (txs : List (Option Transaction)) : Option TxPool :=
  (derefAll txs).map fun txs => { pool with txQueue := pool.txQueue ++ txs.map some }

/-- `AddTxs2Pool_Head`. -/
def addTxs2PoolHead (pool : TxPool) (txs : List (Option Transaction)) : TxPool :=
  { pool with txQueue := txs ++ pool.txQueue }

/-- `PackTxs`: the first `maxTxs` of the queue, or all of it. -/
def packTxs (pool : TxPool) (maxTxs : ℕ) : List (Option Transaction) × TxPool :=
  (pool.txQueue.take maxTxs, { pool with txQueue := pool.txQueue.drop maxTxs })

/-- `unsafe.Sizeof` of a `core.Transaction`, on a 64-bit machine. -/
def sizeofTransaction : ℕ := 184

/-- The loop of `PackTxsWithBytes`: how many transactions fit. -/
def countWithinBytes (maxBytes : ℕ) : ℕ → List (Option Transaction) → ℕ
  | _, [] => 0
  | currentSize, _ :: txs =>
    if currentSize + sizeofTransaction > maxBytes then 0
    else countWithinBytes maxBytes (currentSize + sizeofTransaction) txs + 1

/-- `PackTxsWithBytes`. -/
def packTxsWithBytes (pool : TxPool) (maxBytes : ℕ) : List (Option Transaction) × TxPool :=
  pool.packTxs (countWithinBytes maxBytes 0 pool.txQueue)

/-- Whether the hash of a pointed-to transaction is among those of a block body. -/
def committedHash (body : List (Option Transaction)) (h : Bytes) : Bool :=
  body.any fun p => match p with
    | none => false
    | some tx => tx.txHash = h

/-- `RemoveTxs`: drops the committed hashes, and nil pointers with them. -/
def removeTxs (pool : TxPool) (txs : List (Option Transaction)) : TxPool :=
  if txs.isEmpty || pool.txQueue.isEmpty then pool
  else
    { pool with
      txQueue := pool.txQueue.filter fun p => match p with
        | none => false
        | some tx => !committedHash txs tx.txHash }

/-- `AddRelayTx`: panics when the relay pool is the nil map. -/
def addRelayTx (pool : TxPool) (tx : Transaction) (shardID : ℕ) : Option TxPool :=
  pool.relayPool.map fun rp =>
    { pool with relayPool := some (Function.update rp shardID (rp shardID ++ [tx])) }

/-- `ClearRelayPool`. -/
def clearRelayPool (pool : TxPool) : TxPool := { pool with relayPool := none }

/-! ## What the operations do to the queue -/

theorem addTxs2Pool_some (pool : TxPool) (txs : List Transaction) :
    pool.addTxs2Pool (txs.map some) =
      some { pool with txQueue := pool.txQueue ++ txs.map some } := by
  rw [addTxs2Pool, derefAll_map_some, Option.map_some]

theorem committedHash_eq_true {body : List (Option Transaction)} {h : Bytes} :
    committedHash body h = true ↔ ∃ tx, some tx ∈ body ∧ tx.txHash = h := by
  rw [committedHash, List.any_eq_true]
  constructor
  · rintro ⟨p, hp, hph⟩
    rcases p with _ | tx
    · cases hph
    · exact ⟨tx, hp, of_decide_eq_true hph⟩
  · rintro ⟨tx, hp, hh⟩
    exact ⟨some tx, hp, decide_eq_true hh⟩

/-- What is left in the queue after a removal was there before, and carries none
of the removed hashes. -/
theorem mem_removeTxs {pool : TxPool} {txs : List (Option Transaction)} {tx : Transaction} :
    some tx ∈ (pool.removeTxs txs).txQueue ↔
      some tx ∈ pool.txQueue ∧ ∀ tx', some tx' ∈ txs → tx'.txHash ≠ tx.txHash := by
  rw [removeTxs]
  by_cases hempty : (txs.isEmpty || pool.txQueue.isEmpty) = true
  · rw [if_pos hempty]
    refine ⟨fun h => ⟨h, fun tx' htx' => ?_⟩, And.left⟩
    rcases Bool.or_eq_true _ _ ▸ hempty with h₁ | h₂
    · rw [List.isEmpty_iff.mp h₁] at htx'
      cases htx'
    · rw [List.isEmpty_iff.mp h₂] at h
      cases h
  · rw [if_neg hempty]
    dsimp only
    rw [List.mem_filter]
    refine and_congr_right fun _ => ?_
    dsimp only
    constructor
    · intro h tx' htx' heq
      rw [committedHash_eq_true.mpr ⟨tx', htx', heq⟩] at h
      cases h
    · intro h
      cases hc : committedHash txs tx.txHash
      · rfl
      · obtain ⟨tx', htx', heq⟩ := committedHash_eq_true.mp hc
        exact absurd heq (h tx' htx')

/-- Packing splits the queue. -/
theorem packTxs_append (pool : TxPool) (n : ℕ) :
    (pool.packTxs n).1 ++ (pool.packTxs n).2.txQueue = pool.txQueue :=
  List.take_append_drop n pool.txQueue

end TxPool

end BlockEmulator
