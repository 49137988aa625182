import BlockEmulator.Storage
import BlockEmulator.TxPool

/-!
# The blockchain of a node (`chain/blockchain.go`)

Execution, proposal, validation and insertion of blocks, the installation of
migrated accounts, and reopening after a restart. Functions that can panic (a
nil transaction or a nil value is dereferenced, the storage fails where the
source does not expect it) return `none` for the panic; a rejected block is an
`Except.error` with the reason.

Since a root is the content it commits to, the trie that `GetUpdateStatusTrie`
and `AddAccounts` open at `CurrentBlock.Header.StateRoot` is that field itself,
and writing trie nodes back to the database leaves nothing to model.
-/

namespace BlockEmulator

variable {H : Type} [DecidableEq H]

/-- `params.ChainConfig`, with the global parameters the chain reads. -/
structure ChainConfig (H : Type) where
  /-- the hash functions -/
  hash : HashFns H
  /-- the shard this chain belongs to -/
  shardID : ℕ
  /-- the number of shards -/
  shardNums : ℕ
  /-- the number of transactions a block holds -/
  blockSize : ℕ
  /-- `params.UseBlocksizeInBytes` is `1` -/
  useBlocksizeInBytes : Bool
  /-- `params.BlocksizeInBytes` -/
  blocksizeInBytes : ℕ
  /-- `params.ShardNum`, the modulus of the default placement -/
  shardNum : ℕ

/-- `chain.BlockChain`. -/
structure BlockChain (H : Type) where
  /-- the top block -/
  currentBlock : Block H
  /-- the bolt database -/
  storage : Storage H
  /-- the transaction pool -/
  txpool : TxPool
  /-- the explicit placements -/
  partitionMap : Address → Option ℕ

/-- Why `IsValidBlock` or `AddBlock` turns a block away. -/
inductive BlockError where
  /-- "block or block header is nil" -/
  | nilBlock
  /-- "block height … does not follow current height …" -/
  | height (number current : ℕ)
  /-- "the parentblock hash is not equal to the current block hash" -/
  | parentHash
  /-- "the transaction root is wrong" -/
  | txRoot
  /-- "the block hash does not match the encoded header" -/
  | blockHash
  /-- "block contains a nil transaction or empty transaction hash" -/
  | emptyTransaction
  /-- "block contains a duplicate transaction" -/
  | duplicateTransaction
  /-- "check transaction replay: …" -/
  | replayCheck
  /-- "block replays an already committed transaction" -/
  | replayedTransaction
  /-- "the state root does not match transaction execution" -/
  | stateRoot
  /-- "store block: …" -/
  | storeBlock
  deriving DecidableEq

/-! ## Roots and Bloom filter -/

/-- `GetTxTreeRoot`. -/
def getTxTreeRoot (txs : List (Option Transaction)) : Option (Finset Bytes) :=
  (derefAll txs).map fun txs => (txs.map (·.txHash)).toFinset

/-- `GetBloomFilter`. -/
def getBloomFilter (txs : List (Option Transaction)) : Option (Finset ℕ) :=
  (derefAll txs).map fun txs => (txs.map fun tx => modBytes tx.txHash 2048).toFinset

@[simp] theorem getTxTreeRoot_some (txs : List Transaction) :
    getTxTreeRoot (txs.map some) = some (txs.map (·.txHash)).toFinset := by
  rw [getTxTreeRoot, derefAll_map_some, Option.map_some]

@[simp] theorem getBloomFilter_some (txs : List Transaction) :
    getBloomFilter (txs.map some) =
      some (txs.map fun tx => modBytes tx.txHash 2048).toFinset := by
  rw [getBloomFilter, derefAll_map_some, Option.map_some]

/-! ## Placements -/

/-- The placements after some more of them: the last one of an address counts. -/
def placeAll (pm : Address → Option ℕ) (es : List (Address × ℕ)) : Address → Option ℕ :=
  es.foldl (fun pm e => Function.update pm e.1 (some e.2)) pm

section

variable {pm : Address → Option ℕ} {es : List (Address × ℕ)} {a : Address} {k : ℕ}

theorem placeAll_cons (pm : Address → Option ℕ) (e : Address × ℕ) (es : List (Address × ℕ)) :
    placeAll pm (e :: es) = placeAll (Function.update pm e.1 (some e.2)) es := rfl

theorem placeAll_append (pm : Address → Option ℕ) (es es' : List (Address × ℕ)) :
    placeAll pm (es ++ es') = placeAll (placeAll pm es) es' := List.foldl_append

/-- What is placed stays placed. -/
theorem placeAll_ne_none (h : pm a ≠ none) : placeAll pm es a ≠ none := by
  induction es generalizing pm with
  | nil => exact h
  | cons e es ih =>
    rw [placeAll_cons]
    refine ih ?_
    rw [Function.update_apply]
    split
    · exact nofun
    · exact h

/-- A new placement is one of those that were added. -/
theorem placeAll_eq_some (h : placeAll pm es a = some k) : pm a = some k ∨ (a, k) ∈ es := by
  induction es generalizing pm with
  | nil => exact .inl h
  | cons e es ih =>
    rw [placeAll_cons] at h
    rcases ih h with hpm | hes
    · rw [Function.update_apply] at hpm
      split at hpm
      · rename_i ha
        obtain rfl := Option.some.inj hpm
        exact .inr (ha ▸ List.mem_cons_self)
      · exact .inl hpm
    · exact .inr (List.mem_cons_of_mem _ hes)

/-- Other addresses stay where they are. -/
theorem placeAll_of_notMem (h : a ∉ es.map (·.1)) : placeAll pm es a = pm a := by
  induction es generalizing pm with
  | nil => rfl
  | cons e es ih =>
    rw [List.map_cons, List.mem_cons, not_or] at h
    rw [placeAll_cons, ih h.2, Function.update_of_ne h.1]

/-- An address is where its only entry says. -/
theorem placeAll_of_mem (hnd : (es.map (·.1)).Nodup) (h : (a, k) ∈ es) :
    placeAll pm es a = some k := by
  induction es generalizing pm with
  | nil => cases h
  | cons e es ih =>
    rw [List.map_cons, List.nodup_cons] at hnd
    rw [placeAll_cons]
    rcases List.mem_cons.mp h with rfl | h
    · rw [placeAll_of_notMem hnd.1, Function.update_self]
    · exact ih hnd.2 h

end

namespace BlockChain

variable (cc : ChainConfig H)

/-- `Update_PartitionMap`. -/
def updatePartitionMap (bc : BlockChain H) (key : Address) (val : ℕ) : BlockChain H :=
  { bc with partitionMap := Function.update bc.partitionMap key (some val) }

omit [DecidableEq H] in
/-- The loop over the placements of a message. -/
theorem foldl_updatePartitionMap (es : List (Address × ℕ)) (bc : BlockChain H) :
    es.foldl (fun bc e => bc.updatePartitionMap e.1 e.2) bc =
      { bc with partitionMap := placeAll bc.partitionMap es } := by
  induction es generalizing bc with
  | nil => rfl
  | cons e es ih =>
    rw [List.foldl_cons, ih]
    rfl

/-- `Get_PartitionMap`: the placement of an address, by default that of its hash. -/
def getPartitionMap (bc : BlockChain H) (key : Address) : ℕ :=
  match bc.partitionMap key with
  | none => addr2ShardWithShardNum cc.hash key cc.shardNum
  | some val => val

/-- Whether an address is placed in this shard. -/
def isHome (bc : BlockChain H) (key : Address) : Prop := bc.getPartitionMap cc key = cc.shardID

instance (bc : BlockChain H) (key : Address) : Decidable (bc.isHome cc key) :=
  inferInstanceAs (Decidable (_ = _))

/-! ## Execution -/

/-- The account read from the trie; a missing one is added with `initBalance`
and the position of the transaction as its nonce. -/
def readAccount (st : Accounts) (i : ℕ) (a : Address) : AccountState :=
  match st.lookup a with
  | none => ⟨i, initBalance⟩
  | some s => s

/-- The second half of the loop body of `GetUpdateStatusTrie`: the recipient is
credited when it is placed here. -/
def executeRecipient (bc : BlockChain H) (i : ℕ) (tx : Transaction) (st : Accounts)
    (cnt : ℕ) : Option (Accounts × ℕ) :=
  if bc.isHome cc tx.recipient ∨ tx.hasBroker then
    tx.value.map fun v =>
      (st.insert tx.recipient ((readAccount st i tx.recipient).deposit v), cnt + 1)
  else some (st, cnt)

/-- The loop body of `GetUpdateStatusTrie`. The sender pays when the transaction
is not relayed and it is placed here; a balance that does not suffice skips the
whole transaction. -/
def executeTx (bc : BlockChain H) (i : ℕ) (tx : Transaction) (st : Accounts) (cnt : ℕ) :
    Option (Accounts × ℕ) :=
  if tx.relayed = false ∧ (bc.isHome cc tx.sender ∨ tx.hasBroker) then
    tx.value.bind fun v =>
      -- the balance is too low: nothing is executed, nor is the recipient credited
      if (readAccount st i tx.sender).balance < v then some (st, cnt)
      else
        executeRecipient cc bc i tx
          (st.insert tx.sender ((readAccount st i tx.sender).deduct v)) (cnt + 1)
  else executeRecipient cc bc i tx st cnt

/-- The loop of `GetUpdateStatusTrie`. -/
def executeTxs (bc : BlockChain H) :
    ℕ → List (Option Transaction) → Accounts → ℕ → Option (Accounts × ℕ)
  | _, [], st, cnt => some (st, cnt)
  | _, none :: _, _, _ => none
  | i, some tx :: txs, st, cnt =>
    (executeTx cc bc i tx st cnt).bind fun r => executeTxs bc (i + 1) txs r.1 r.2

/-- `GetUpdateStatusTrie`: the state root after the transactions; when nothing
was modified, that of the current block. -/
def getUpdateStatusTrie (bc : BlockChain H) (txs : List (Option Transaction)) :
    Option Accounts :=
  let root := bc.currentBlock.header.stateRoot
  if txs.isEmpty then some root
  else (executeTxs cc bc 0 txs root 0).map fun r => if r.2 = 0 then root else r.1

/-! ## Validation -/

/-- The loop of `IsValidBlock` over the body. -/
def checkBody (s : Storage H) :
    List (Option Transaction) → Finset Bytes → Except BlockError Unit
  | [], _ => .ok ()
  | none :: _, _ => .error .emptyTransaction
  | some tx :: txs, seen =>
    if tx.txHash = [] then .error .emptyTransaction
    else if tx.txHash ∈ seen then .error .duplicateTransaction
    else
      match s.hasTransaction tx.txHash with
      -- the index cannot be read
      | none => .error .replayCheck
      | some true => .error .replayedTransaction
      | some false => checkBody s txs (insert tx.txHash seen)

/-- `IsValidBlock`. -/
def isValidBlock (bc : BlockChain H) (b : Option (Block H)) :
    Option (Except BlockError Unit) :=
  match b with
  | none => some (.error .nilBlock)
  | some b =>
    if b.header.number ≠ bc.currentBlock.header.number + 1 then
      some (.error (.height b.header.number bc.currentBlock.header.number))
    else if b.header.parentBlockHash ≠ bc.currentBlock.hash then
      some (.error .parentHash)
    else
      (getTxTreeRoot b.body).bind fun txRoot =>
        if txRoot ≠ b.header.txRoot then some (.error .txRoot)
        else if cc.hash.headerHash b.header ≠ b.hash then some (.error .blockHash)
        else
          match checkBody bc.storage b.body ∅ with
          | .error e => some (.error e)
          | .ok () =>
            (getUpdateStatusTrie cc bc b.body).map fun expected =>
              if expected ≠ b.header.stateRoot then .error .stateRoot else .ok ()

/-- `AddBlock`. -/
def addBlock (bc : BlockChain H) (b : Option (Block H)) :
    Option (Except BlockError (BlockChain H)) :=
  (isValidBlock cc bc b).map fun verdict =>
    match verdict, b with
    | .error e, _ => .error e
    -- a nil block has been rejected already
    | .ok (), none => .error .nilBlock
    | .ok (), some b =>
      match bc.storage.addBlock b with
      | none => .error .storeBlock
      | some storage =>
        .ok { bc with
              currentBlock := b
              storage := storage
              txpool := bc.txpool.removeTxs b.body }

/-! ## Proposal -/

/-- The loop of `filterFreshTransactions`: nil transactions, those without a
hash, repeated ones and those already executed are left out. -/
def filterFresh (s : Storage H) : List (Option Transaction) → Finset Bytes → List Transaction
  | [], _ => []
  | none :: txs, seen => filterFresh s txs seen
  | some tx :: txs, seen =>
    if tx.txHash = [] then filterFresh s txs seen
    else if tx.txHash ∈ seen then filterFresh s txs seen
    -- it was executed before: whatever follows with its hash is dropped as well
    else if s.hasTransaction tx.txHash = some true then
      filterFresh s txs (insert tx.txHash seen)
    else tx :: filterFresh s txs (insert tx.txHash seen)

/-- `filterFreshTransactions`. -/
def filterFreshTransactions (bc : BlockChain H) (txs : List (Option Transaction)) :
    List Transaction :=
  filterFresh bc.storage txs ∅

/-- The block `GenerateBlock` builds over the transactions it has packed and
filtered. -/
def buildBlock (bc : BlockChain H) (miner : ℕ) (now : Time) (txs : List (Option Transaction)) :
    Option (Block H) :=
  (getUpdateStatusTrie cc bc txs).bind fun rt =>
    (getTxTreeRoot txs).bind fun txRoot =>
      (getBloomFilter txs).map fun bloom =>
        let bh : BlockHeader H :=
          { parentBlockHash := bc.currentBlock.hash
            stateRoot := rt
            txRoot := txRoot
            bloom := bloom
            number := bc.currentBlock.header.number + 1
            time := now
            miner := miner }
        { header := bh, body := txs, hash := cc.hash.headerHash bh }

/-- What `GenerateBlock` takes out of the pool. -/
def packForBlock (bc : BlockChain H) : List (Option Transaction) × TxPool :=
  if cc.useBlocksizeInBytes then bc.txpool.packTxsWithBytes cc.blocksizeInBytes
  else bc.txpool.packTxs cc.blockSize

/-- `GenerateBlock`: the packed transactions leave the pool, the fresh ones among
them make the block. -/
def generateBlock (bc : BlockChain H) (miner : ℕ) (now : Time) :
    Option (Block H × BlockChain H) :=
  let (packed, pool) := packForBlock cc bc
  let txs := filterFreshTransactions bc packed
  (buildBlock cc bc miner now (txs.map some)).map fun b => (b, { bc with txpool := pool })

/-! ## Migrated accounts -/

/-- The loop of `AddAccounts`: the states of the addresses placed here are
written; reading past the end of the states is a panic. -/
def installAccounts (bc : BlockChain H) :
    List Address → List AccountState → Accounts → Option Accounts
  | [], _, st => some st
  | addr :: ac, as, st =>
    if bc.isHome cc addr then
      match as with
      | [] => none
      | s :: as => installAccounts bc ac as (st.insert addr s)
    -- an account that is placed elsewhere is skipped, with its state
    else installAccounts bc ac as.tail st

/-- `AddAccounts`: a block without transactions, over the new account states. It
becomes the current block before it is stored, and a storage that fails is a
panic. -/
def addAccounts (bc : BlockChain H) (ac : List Address) (as : List AccountState) :
    Option (BlockChain H) :=
  (installAccounts cc bc ac as bc.currentBlock.header.stateRoot).bind fun rt =>
    let bh : BlockHeader H :=
      { parentBlockHash := bc.currentBlock.hash
        stateRoot := rt
        txRoot := ∅
        bloom := ∅
        number := bc.currentBlock.header.number + 1
        time := 0
        miner := 0 }
    let b : Block H := { header := bh, body := [], hash := cc.hash.headerHash bh }
    (bc.storage.addBlock b).map fun storage => { bc with currentBlock := b, storage := storage }

/-- `FetchAccounts`. -/
def fetchAccounts (bc : BlockChain H) (addrs : List Address) : List AccountState :=
  addrs.map fun addr => readAccount bc.currentBlock.header.stateRoot 0 addr

/-! ## Opening a chain -/

/-- `NewGenisisBlock`. -/
def newGenisisBlock : Block H :=
  let bh : BlockHeader H :=
    { parentBlockHash := cc.hash.nilHash
      stateRoot := ∅
      txRoot := ∅
      bloom := ∅
      number := 0
      time := 0
      miner := 0 }
  { header := bh, body := [], hash := cc.hash.headerHash bh }

/-- `NewBlockChain` over the content of its bolt file: an empty one gets the
genesis block, otherwise the newest block is read back. -/
def newBlockChain (file : Storage H) : Option (BlockChain H) :=
  file.newStorage.bind fun storage =>
    match storage.newestBlockHash with
    | none =>
      -- an empty file starts with the genesis block
      (storage.addBlock (newGenisisBlock cc)).bind fun storage =>
        storage.newestBlockHash.bind fun curHash =>
          (storage.getBlock curHash).map fun curb => ⟨curb, storage, TxPool.new, fun _ => none⟩
    | some curHash =>
      (storage.getBlock curHash).map fun curb => ⟨curb, storage, TxPool.new, fun _ => none⟩

end BlockChain

end BlockEmulator
