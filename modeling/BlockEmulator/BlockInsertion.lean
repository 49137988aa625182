import BlockEmulator.Rollback
import BlockEmulator.ReplicaValidity

/-!
# What a failed insertion leaves behind

`BlockChain.addBlock` returns a new chain or an error, and cannot leave anything behind.
Here `AddBlock` is a program over the parts of the chain that writes one after the other:
validation executes the block and commits the trie, the storage writes four buckets in one
update, and only then the tip moves and the pool is emptied.

Which reads and writes of the database fail is left open (`Faults`); an update that fails
is rolled back by bolt.

* `addBlock_error_unchanged` — **an error leaves the chain as it was**, apart from the trie
  database, which may have gained a state.
* `exec_addBlock` — where the buckets are there and the state of the tip can be opened,
  this program does what `BlockChain.addBlock` says.
-/

namespace BlockEmulator

open Rollback

variable {H : Type} [DecidableEq H]

/-! ## The parts of a chain -/

/-- The content of the bolt database; `none` is a bucket that is missing. -/
structure Buckets (H : Type) where
  /-- bucket `block` -/
  block : Option (AList fun _ : H => Block H)
  /-- bucket `blockHeader` -/
  blockHeader : Option (AList fun _ : H => BlockHeader H)
  /-- bucket `newestBlockHash`, with its only key -/
  newestBlockHash : Option (Option H)
  /-- bucket `executedTransaction` -/
  executedTransaction : Option (Finset Bytes)

/-- The buckets with a block in them. -/
def Buckets.withBlock (db : Buckets H) (b : Block H) : Buckets H :=
  { block := db.block.map (·.insert b.hash b)
    blockHeader := db.blockHeader.map (·.insert b.hash b.header)
    newestBlockHash := db.newestBlockHash.map fun _ => some b.hash
    executedTransaction := db.executedTransaction.map (· ∪ (bodyHashes b.body).toFinset) }

/-- `chain.BlockChain`, with its databases as they are on the disk. -/
structure StoredChain (H : Type) where
  /-- `CurrentBlock` -/
  currentBlock : Block H
  /-- the states that can be opened in `triedb` -/
  triedb : Finset Accounts
  /-- `Storage.DataBase` -/
  database : Buckets H
  /-- `Txpool` -/
  txpool : TxPool
  /-- `PartitionMap` -/
  partitionMap : Address → Option ℕ

/-- What fails in the database while a block is added. -/
structure Faults where
  /-- reading a hash from the index -/
  view : Bytes → Bool
  /-- starting the update -/
  start : Bool
  /-- writing the block -/
  block : Bool
  /-- writing the header -/
  blockHeader : Bool
  /-- writing the newest hash -/
  newestBlockHash : Bool
  /-- writing a hash into the index -/
  executedTransaction : Bytes → Bool
  /-- committing the update -/
  commit : Bool

/-- Nothing fails. -/
def Faults.none : Faults := ⟨fun _ => false, false, false, false, false, fun _ => false, false⟩

/-- Whether a write of the update that stores a block fails. -/
def Faults.hitsUpdate (faults : Faults) (b : Block H) : Bool :=
  faults.start || faults.block || faults.blockHeader || faults.newestBlockHash ||
    (bodyHashes b.body).any faults.executedTransaction

/-- Whether this update fails. -/
def Faults.hits (faults : Faults) (b : Block H) : Bool := faults.hitsUpdate b || faults.commit

namespace StoredChain

/-- The chain that `BlockChain` models; `writable` says whether the next update succeeds. -/
def toBlockChain (s : StoredChain H) (writable : Bool) : BlockChain H :=
  { currentBlock := s.currentBlock
    storage :=
      { block := s.database.block.getD ∅
        blockHeader := s.database.blockHeader.getD ∅
        newestBlockHash := s.database.newestBlockHash.getD .none
        executedTransaction := s.database.executedTransaction.getD ∅
        writable := writable }
    txpool := s.txpool
    partitionMap := s.partitionMap }

/-- A step of `AddBlock`. -/
abbrev Step (H α : Type) : Type := Program (StoredChain H) BlockError α

variable (cc : ChainConfig H) (faults : Faults)

/-! ## Validation -/

/-- `HasTransaction`, as `IsValidBlock` reports its errors. -/
def hasTransaction (txHash : Bytes) : Step H Bool := do
  let s ← get
  Program.ensure (txHash ≠ [] ∧ faults.view txHash = false) .replayCheck
  match s.database.executedTransaction with
  | none => throw .replayCheck
  | some index => pure (decide (txHash ∈ index))

/-- The loop of `IsValidBlock` over the body. -/
def checkTransactions : List (Option Transaction) → Finset Bytes → Step H PUnit
  | [], _ => pure ⟨⟩
  | none :: _, _ => throw .emptyTransaction
  | some tx :: txs, seen => do
    Program.ensure (tx.txHash ≠ []) .emptyTransaction
    Program.ensure (tx.txHash ∉ seen) .duplicateTransaction
    let executed ← hasTransaction faults tx.txHash
    Program.ensure (executed = false) .replayedTransaction
    checkTransactions txs (insert tx.txHash seen)

/-- The end of `GetUpdateStatusTrie`: a trie that was modified is committed to the trie
database. -/
def commitTrie (root st : Accounts) (cnt : ℕ) : Step H Accounts :=
  if cnt = 0 then pure root
  else do
    modify fun s => { s with triedb := insert st s.triedb }
    pure st

/-- `GetUpdateStatusTrie`. The empty trie can always be opened. -/
def getUpdateStatusTrie (txs : List (Option Transaction)) : Step H Accounts := do
  let s ← get
  let root := s.currentBlock.header.stateRoot
  if txs.isEmpty then pure root
  else if root = ∅ ∨ root ∈ s.triedb then
    match BlockChain.executeTxs cc (s.toBlockChain true) 0 txs root 0 with
    | none => Program.abort
    | some (st, cnt) => commitTrie root st cnt
  else Program.abort

/-- The part of `IsValidBlock` that goes through the body. -/
def isValidBody (b : Block H) (txRoot : Finset Bytes) : Step H PUnit := do
  Program.ensure (txRoot = b.header.txRoot) .txRoot
  Program.ensure (cc.hash.headerHash b.header = b.hash) .blockHash
  checkTransactions faults b.body ∅
  let expectedStateRoot ← getUpdateStatusTrie cc b.body
  Program.ensure (expectedStateRoot = b.header.stateRoot) .stateRoot

/-- `IsValidBlock`. -/
def isValidBlock : Option (Block H) → Step H PUnit
  | none => throw .nilBlock
  | some b => do
    let s ← get
    Program.ensure (b.header.number = s.currentBlock.header.number + 1)
      (.height b.header.number s.currentBlock.header.number)
    Program.ensure (b.header.parentBlockHash = s.currentBlock.hash) .parentHash
    match getTxTreeRoot b.body with
    | none => Program.abort
    | some txRoot => isValidBody cc faults b txRoot

/-! ## Storage -/

/-- One `Put` of the update. -/
def put (fails : Bool) (write : Buckets H → Buckets H) : Program (Buckets H) BlockError PUnit := do
  Program.ensure (fails = false) .storeBlock
  modify write

/-- The loop that puts the hashes of the body into the index. -/
def putIndex : List Bytes → Program (Buckets H) BlockError PUnit
  | [] => pure ⟨⟩
  | txHash :: txHashes => do
    put (faults.executedTransaction txHash) fun db =>
      { db with executedTransaction := db.executedTransaction.map (insert txHash) }
    putIndex txHashes

/-- The function that `Storage.AddBlock` gives to `DataBase.Update`. -/
def update (b : Block H) : Program (Buckets H) BlockError PUnit := do
  let db ← get
  Program.ensure (faults.start = false) .storeBlock
  -- "storage bucket is missing"
  Program.ensure (db.block.isSome ∧ db.blockHeader.isSome ∧ db.newestBlockHash.isSome ∧
    db.executedTransaction.isSome) .storeBlock
  put faults.block fun db => { db with block := db.block.map (·.insert b.hash b) }
  put faults.blockHeader fun db =>
    { db with blockHeader := db.blockHeader.map (·.insert b.hash b.header) }
  put faults.newestBlockHash fun db =>
    { db with newestBlockHash := db.newestBlockHash.map fun _ => some b.hash }
  putIndex faults (bodyHashes b.body)

/-- `Storage.AddBlock`. -/
def storeBlock : Option (Block H) → Step H PUnit
  | none => throw .nilBlock
  | some b =>
    Program.transact (·.database) (fun db s => { s with database := db })
      (if faults.commit then some .storeBlock else none) (update faults b)

/-! ## Insertion -/

/-- The end of `AddBlock`: the tip moves, and what was committed leaves the pool. -/
def moveTip : Option (Block H) → Step H PUnit
  | none => Program.abort
  | some b => do
    modify fun s => { s with currentBlock := b }
    modify fun s => { s with txpool := s.txpool.removeTxs b.body }

/-- `AddBlock`. -/
def addBlock (b : Option (Block H)) : Step H PUnit := do
  isValidBlock cc faults b
  storeBlock faults b
  moveTip b

/-! ## What an error leaves behind -/

/-- Nothing has changed but the trie database, which may have gained states. -/
def Unchanged (s t : StoredChain H) : Prop :=
  ∃ triedb, s.triedb ⊆ triedb ∧ t = { s with triedb := triedb }

omit [DecidableEq H] in
theorem Unchanged.refl (s : StoredChain H) : Unchanged s s := ⟨s.triedb, subset_rfl, rfl⟩

omit [DecidableEq H] in
theorem Unchanged.trans (s t u : StoredChain H) (hst : Unchanged s t) (htu : Unchanged t u) :
    Unchanged s u := by
  obtain ⟨_, hsub, rfl⟩ := hst
  obtain ⟨triedb, hsub', rfl⟩ := htu
  exact ⟨triedb, hsub.trans hsub', rfl⟩

section Unchanged

variable {cc faults}

omit [DecidableEq H] in
theorem unchanged_hasTransaction (txHash : Bytes) :
    Program.Always Unchanged (hasTransaction faults txHash : Step H Bool) := by
  refine Program.Always.bind Unchanged.trans (Program.always_get Unchanged.refl) fun s => ?_
  refine Program.Always.bind Unchanged.trans (Program.always_ensure Unchanged.refl _ _) fun _ => ?_
  cases s.database.executedTransaction with
  | none => exact Program.always_throw Unchanged.refl _
  | some index => exact Program.always_pure Unchanged.refl _

omit [DecidableEq H] in
theorem unchanged_checkTransactions (body : List (Option Transaction)) (seen : Finset Bytes) :
    Program.Always Unchanged (checkTransactions faults body seen : Step H PUnit) := by
  induction body generalizing seen with
  | nil => exact Program.always_pure Unchanged.refl _
  | cons p body ih =>
    cases p with
    | none => exact Program.always_throw Unchanged.refl _
    | some tx =>
      refine Program.Always.bind Unchanged.trans (Program.always_ensure Unchanged.refl _ _)
        fun _ => ?_
      refine Program.Always.bind Unchanged.trans (Program.always_ensure Unchanged.refl _ _)
        fun _ => ?_
      refine Program.Always.bind Unchanged.trans (unchanged_hasTransaction _) fun _ => ?_
      refine Program.Always.bind Unchanged.trans (Program.always_ensure Unchanged.refl _ _)
        fun _ => ?_
      exact ih _

omit [DecidableEq H] in
theorem unchanged_commitTrie (root st : Accounts) (cnt : ℕ) :
    Program.Always Unchanged (commitTrie root st cnt : Step H Accounts) := by
  rw [commitTrie]
  split
  · exact Program.always_pure Unchanged.refl _
  · refine Program.Always.bind Unchanged.trans (Program.always_modify fun s => ?_)
      fun _ => Program.always_pure Unchanged.refl _
    exact ⟨_, Finset.subset_insert _ _, rfl⟩

omit [DecidableEq H] in
theorem unchanged_getUpdateStatusTrie (txs : List (Option Transaction)) :
    Program.Always Unchanged (getUpdateStatusTrie cc txs : Step H Accounts) := by
  refine Program.Always.bind Unchanged.trans (Program.always_get Unchanged.refl) fun s => ?_
  dsimp only
  split
  · exact Program.always_pure Unchanged.refl _
  · split
    · split
      · exact Program.always_abort
      · exact unchanged_commitTrie _ _ _
    · exact Program.always_abort

/-- **Validation** writes to the trie database, and nowhere else. -/
theorem unchanged_isValidBlock (b : Option (Block H)) :
    Program.Always Unchanged (isValidBlock cc faults b) := by
  cases b with
  | none => exact Program.always_throw Unchanged.refl _
  | some b =>
    refine Program.Always.bind Unchanged.trans (Program.always_get Unchanged.refl) fun s => ?_
    refine Program.Always.bind Unchanged.trans (Program.always_ensure Unchanged.refl _ _)
      fun _ => ?_
    refine Program.Always.bind Unchanged.trans (Program.always_ensure Unchanged.refl _ _)
      fun _ => ?_
    cases getTxTreeRoot b.body with
    | none => exact Program.always_abort
    | some txRoot =>
      refine Program.Always.bind Unchanged.trans (Program.always_ensure Unchanged.refl _ _)
        fun _ => ?_
      refine Program.Always.bind Unchanged.trans (Program.always_ensure Unchanged.refl _ _)
        fun _ => ?_
      refine Program.Always.bind Unchanged.trans (unchanged_checkTransactions _ _) fun _ => ?_
      refine Program.Always.bind Unchanged.trans (unchanged_getUpdateStatusTrie _) fun _ => ?_
      exact Program.always_ensure Unchanged.refl _ _

/-- **A failed update** is rolled back, whichever write it was that failed. -/
theorem unchanged_storeBlock (b : Option (Block H)) :
    Program.OnError Unchanged (storeBlock faults b) := by
  cases b with
  | none => exact (Program.always_throw Unchanged.refl _).onError
  | some b => exact Program.onError_transact Unchanged.refl

omit [DecidableEq H] in
/-- Past the storage nothing fails. -/
theorem infallible_moveTip (b : Option (Block H)) : Program.Infallible (moveTip b) := by
  cases b with
  | none => exact Program.infallible_abort
  | some b =>
    rw [moveTip]
    exact Program.Infallible.bind (Program.infallible_modify _)
      fun _ => Program.infallible_modify _

theorem unchanged_addBlock (b : Option (Block H)) :
    Program.OnError Unchanged (addBlock cc faults b) := by
  have hrest : Program.OnError Unchanged (storeBlock faults b >>= fun _ => moveTip b) :=
    Program.OnError.bind_infallible (unchanged_storeBlock b) fun _ => infallible_moveTip b
  exact Program.OnError.bind Unchanged.trans (unchanged_isValidBlock b) fun _ => hrest

end Unchanged

/-- **An error leaves the chain as it was**: for every block that `AddBlock` returns an
error for, whatever has failed in the database. -/
theorem addBlock_error_unchanged (cc : ChainConfig H) (faults : Faults) (b : Option (Block H))
    (s t : StoredChain H) (e : BlockError)
    (h : (addBlock cc faults b).exec s = some (.error e, t)) :
    t.currentBlock = s.currentBlock ∧ t.database = s.database ∧ t.txpool = s.txpool ∧
      t.partitionMap = s.partitionMap ∧ s.triedb ⊆ t.triedb := by
  obtain ⟨triedb, hsub, rfl⟩ := unchanged_addBlock b s e t h
  exact ⟨rfl, rfl, rfl, rfl, hsub⟩

/-! ## What `BlockChain.addBlock` says -/

/-- What a node relies on: no bucket is missing, and the state of the tip can be opened. -/
structure Complete (s : StoredChain H) : Prop where
  /-- bucket `block` is there -/
  block : s.database.block.isSome
  /-- bucket `blockHeader` is there -/
  blockHeader : s.database.blockHeader.isSome
  /-- bucket `newestBlockHash` is there -/
  newestBlockHash : s.database.newestBlockHash.isSome
  /-- bucket `executedTransaction` is there -/
  executedTransaction : s.database.executedTransaction.isSome
  /-- the state of the tip can be opened -/
  opens : s.currentBlock.header.stateRoot = ∅ ∨ s.currentBlock.header.stateRoot ∈ s.triedb

section Refinement

variable {cc faults} {s t : StoredChain H} {w : Bool}

omit [DecidableEq H] in
theorem Complete.of_unchanged (hs : s.Complete) (h : Unchanged s t) : t.Complete := by
  obtain ⟨triedb, hsub, rfl⟩ := h
  exact ⟨hs.block, hs.blockHeader, hs.newestBlockHash, hs.executedTransaction,
    hs.opens.imp_right fun hmem => hsub hmem⟩

omit [DecidableEq H] in
theorem toBlockChain_of_unchanged (h : Unchanged s t) :
    t.toBlockChain w = s.toBlockChain w := by
  obtain ⟨triedb, -, rfl⟩ := h
  rfl

omit [DecidableEq H] in
theorem exec_hasTransaction (hview : ∀ h, faults.view h = false) (hs : s.Complete)
    {txHash : Bytes} (hne : txHash ≠ []) :
    (hasTransaction faults txHash : Step H Bool).exec s =
      some (.ok (decide (txHash ∈ (s.toBlockChain w).storage.executedTransaction)), s) := by
  obtain ⟨index, hindex⟩ := Option.isSome_iff_exists.mp hs.executedTransaction
  rw [hasTransaction, Program.exec_bind_ok (Program.exec_get s),
    Program.exec_bind_ok (a := ⟨⟩) (t := s)
      (by rw [Program.exec_ensure, if_pos ⟨hne, hview _⟩]), hindex]
  simp only [toBlockChain, hindex, Option.getD_some]
  rfl

omit [DecidableEq H] in
theorem exec_checkTransactions (hview : ∀ h, faults.view h = false) (hs : s.Complete)
    (body : List (Option Transaction)) (seen : Finset Bytes) :
    (checkTransactions faults body seen : Step H PUnit).exec s =
      some (BlockChain.checkBody (s.toBlockChain w).storage body seen, s) := by
  induction body generalizing seen with
  | nil => rfl
  | cons p body ih =>
    cases p with
    | none => rfl
    | some tx =>
      rw [checkTransactions, BlockChain.checkBody]
      by_cases hne : tx.txHash = []
      · rw [if_pos hne]
        exact Program.exec_bind_error (by rw [Program.exec_ensure, if_neg (not_not.mpr hne)])
      rw [if_neg hne, Program.exec_bind_ok (by rw [Program.exec_ensure, if_pos hne])]
      by_cases hseen : tx.txHash ∈ seen
      · rw [if_pos hseen]
        exact Program.exec_bind_error (by rw [Program.exec_ensure, if_neg (not_not.mpr hseen)])
      rw [if_neg hseen, Program.exec_bind_ok (by rw [Program.exec_ensure, if_pos hseen]),
        Program.exec_bind_ok (exec_hasTransaction (w := w) hview hs hne), Storage.hasTransaction,
        if_neg hne]
      by_cases hex : tx.txHash ∈ (s.toBlockChain w).storage.executedTransaction
      · rw [decide_eq_true hex]
        exact Program.exec_bind_error rfl
      · rw [decide_eq_false hex, Program.exec_bind_ok rfl]
        exact ih _

omit [DecidableEq H] in
theorem result_commitTrie (root st : Accounts) (cnt : ℕ) :
    (commitTrie root st cnt : Step H Accounts).result s =
      some (.ok (if cnt = 0 then root else st)) := by
  rw [commitTrie]
  split
  · rfl
  · rfl

omit [DecidableEq H] in
theorem result_getUpdateStatusTrie (cc : ChainConfig H) (w : Bool) (hs : s.Complete)
    (txs : List (Option Transaction)) :
    (getUpdateStatusTrie cc txs : Step H Accounts).result s =
      ((s.toBlockChain w).getUpdateStatusTrie cc txs).map .ok := by
  rw [getUpdateStatusTrie, Program.result_get_bind, BlockChain.getUpdateStatusTrie]
  dsimp only
  by_cases hempty : txs.isEmpty = true
  · rw [if_pos hempty, if_pos hempty]
    rfl
  · rw [if_neg hempty, if_neg hempty, if_pos hs.opens]
    -- execution reads the placements, and `writable` says nothing about them
    have hhome : ∀ a, (s.toBlockChain true).isHome cc a ↔ (s.toBlockChain w).isHome cc a :=
      fun _ => Iff.rfl
    have hrun : BlockChain.executeTxs cc (s.toBlockChain true) 0 txs
        s.currentBlock.header.stateRoot 0 = BlockChain.executeTxs cc (s.toBlockChain w) 0 txs
          (s.toBlockChain w).currentBlock.header.stateRoot 0 :=
      BlockChain.executeTxs_congr hhome _ _ _ _
    rw [hrun]
    cases BlockChain.executeTxs cc (s.toBlockChain w) 0 txs
      (s.toBlockChain w).currentBlock.header.stateRoot 0 with
    | none => rfl
    | some r => exact result_commitTrie _ _ _

/-- **The verdict** is that of `BlockChain.isValidBlock`. -/
theorem result_isValidBlock (cc : ChainConfig H) (w : Bool)
    (hview : ∀ h, faults.view h = false) (hs : s.Complete) (b : Option (Block H)) :
    (isValidBlock cc faults b).result s = (s.toBlockChain w).isValidBlock cc b := by
  cases b with
  | none => rfl
  | some b =>
    rw [isValidBlock, BlockChain.isValidBlock, Program.result_get_bind,
      Program.result_ensure_bind, ite_not]
    refine ite_congr rfl (fun _ => ?_) fun _ => rfl
    rw [Program.result_ensure_bind, ite_not]
    refine ite_congr rfl (fun _ => ?_) fun _ => rfl
    cases getTxTreeRoot b.body with
    | none => rfl
    | some txRoot =>
      change (isValidBody cc faults b txRoot).result s = _
      rw [isValidBody, Program.result_ensure_bind, Option.bind_some, ite_not]
      refine ite_congr rfl (fun _ => ?_) fun _ => rfl
      rw [Program.result_ensure_bind, ite_not]
      refine ite_congr rfl (fun _ => ?_) fun _ => rfl
      have hcheck := exec_checkTransactions (w := w) hview hs b.body ∅
      cases hbody : BlockChain.checkBody (s.toBlockChain w).storage b.body ∅ with
      | error e =>
        rw [hbody] at hcheck
        exact Program.result_bind_error hcheck
      | ok u =>
        rw [hbody] at hcheck
        rw [Program.result_bind_ok hcheck]
        have htrie := result_getUpdateStatusTrie cc w hs b.body
        cases hexec : (s.toBlockChain w).getUpdateStatusTrie cc b.body with
        | none =>
          rw [hexec] at htrie
          have hnone := Program.result_eq_none.mp htrie
          exact Program.result_eq_none.mpr (Program.exec_bind_none hnone)
        | some expected =>
          rw [hexec] at htrie
          obtain ⟨t, ht⟩ := Program.result_eq_some.mp htrie
          rw [Program.result_bind_ok ht, Program.result, Program.exec_ensure]
          by_cases hroot : expected = b.header.stateRoot
          · simp [hroot]
          · simp [hroot]

/-! ### Storing -/

omit [DecidableEq H] in
theorem exec_put_ok {fails : Bool} (h : fails = false) (write : Buckets H → Buckets H)
    (db : Buckets H) : (put fails write).exec db = some (.ok ⟨⟩, write db) := by
  rw [put, Program.exec_bind_ok (by rw [Program.exec_ensure, if_pos h]), Program.exec_modify]

omit [DecidableEq H] in
theorem exec_put_error {fails : Bool} (h : fails = true) (write : Buckets H → Buckets H)
    (db : Buckets H) : (put fails write).exec db = some (.error .storeBlock, db) := by
  rw [put]
  exact Program.exec_bind_error (by rw [Program.exec_ensure, if_neg (by rw [h]; nofun)])

omit [DecidableEq H] in
theorem exec_putIndex (txHashes : List Bytes) (h : txHashes.any faults.executedTransaction = false)
    (db : Buckets H) :
    (putIndex faults txHashes).exec db = some (.ok ⟨⟩, { db with
      executedTransaction := db.executedTransaction.map (· ∪ txHashes.toFinset) }) := by
  induction txHashes generalizing db with
  | nil =>
    rw [putIndex, Program.exec_pure]
    simp
  | cons txHash txHashes ih =>
    rw [List.any_cons, Bool.or_eq_false_iff] at h
    rw [putIndex, Program.exec_bind_ok (exec_put_ok h.1 _ _), ih h.2]
    simp only [Option.map_map, List.toFinset_cons, Function.comp_def, Finset.union_insert,
      Finset.insert_union]

omit [DecidableEq H] in
theorem result_putIndex_error (txHashes : List Bytes)
    (h : txHashes.any faults.executedTransaction = true) (db : Buckets H) :
    (putIndex faults txHashes).result db = some (.error .storeBlock) := by
  induction txHashes generalizing db with
  | nil => cases h
  | cons txHash txHashes ih =>
    rw [putIndex]
    cases hput : faults.executedTransaction txHash with
    | true => exact Program.result_bind_error (exec_put_error rfl _ _)
    | false =>
      rw [List.any_cons, hput, Bool.false_or] at h
      rw [Program.result_bind_ok (exec_put_ok rfl _ _)]
      exact ih h _

omit [DecidableEq H] in
theorem result_put_bind (fails : Bool) (write : Buckets H → Buckets H)
    {k : PUnit → Program (Buckets H) BlockError PUnit} {db : Buckets H} :
    (put fails write >>= k).result db =
      if fails then some (.error .storeBlock) else (k ⟨⟩).result (write db) := by
  cases fails with
  | true => exact Program.result_bind_error (exec_put_error rfl _ _)
  | false => exact Program.result_bind_ok (exec_put_ok rfl _ _)

theorem exec_update (hs : s.Complete) {b : Block H} (h : faults.hitsUpdate b = false) :
    (update faults b).exec s.database = some (.ok ⟨⟩, s.database.withBlock b) := by
  simp only [Faults.hitsUpdate, Bool.or_eq_false_iff] at h
  obtain ⟨⟨⟨⟨hstart, hblock⟩, hheader⟩, hnewest⟩, hindex⟩ := h
  rw [update, Program.exec_bind_ok (Program.exec_get _),
    Program.exec_bind_ok (by rw [Program.exec_ensure, if_pos hstart]),
    Program.exec_bind_ok (by rw [Program.exec_ensure, if_pos ⟨hs.block, hs.blockHeader,
      hs.newestBlockHash, hs.executedTransaction⟩]),
    Program.exec_bind_ok (exec_put_ok hblock _ _), Program.exec_bind_ok (exec_put_ok hheader _ _),
    Program.exec_bind_ok (exec_put_ok hnewest _ _), exec_putIndex _ hindex]
  rfl

theorem result_update_error {b : Block H} (h : faults.hitsUpdate b = true) :
    (update faults b).result s.database = some (.error .storeBlock) := by
  rw [update, Program.result_get_bind, Program.result_ensure_bind]
  split
  · rename_i hstart
    rw [Program.result_ensure_bind]
    split
    · -- the first write that fails ends it
      rw [result_put_bind, result_put_bind, result_put_bind]
      cases hblock : faults.block with
      | true => rfl
      | false =>
        cases hheader : faults.blockHeader with
        | true => rfl
        | false =>
          cases hnewest : faults.newestBlockHash with
          | true => rfl
          | false =>
            refine result_putIndex_error _ ?_ _
            rw [Faults.hitsUpdate, hstart, hblock, hheader, hnewest] at h
            exact h
    · rfl
  · rfl

/-- **Storing** a block: the update goes through whole, or not at all. -/
theorem exec_storeBlock (faults : Faults) (hs : s.Complete) (b : Block H) :
    (storeBlock faults (some b)).exec s = some (if faults.hits b then (.error .storeBlock, s)
      else (.ok ⟨⟩, { s with database := s.database.withBlock b })) := by
  rw [storeBlock, Faults.hits]
  cases hhits : faults.hitsUpdate b with
  | true => exact Program.exec_transact_error (result_update_error hhits)
  | false =>
    rw [Program.exec_transact_ok (exec_update hs hhits), Bool.false_or]
    cases faults.commit with
    | true => rfl
    | false => rfl

theorem toBlockChain_withBlock (hs : s.Complete) (b : Block H) :
    (s.toBlockChain true).storage.addBlock b = some
      (({ s with database := s.database.withBlock b } : StoredChain H).toBlockChain true).storage := by
  obtain ⟨block, hblock⟩ := Option.isSome_iff_exists.mp hs.block
  obtain ⟨blockHeader, hheader⟩ := Option.isSome_iff_exists.mp hs.blockHeader
  obtain ⟨newestBlockHash, hnewest⟩ := Option.isSome_iff_exists.mp hs.newestBlockHash
  obtain ⟨index, hindex⟩ := Option.isSome_iff_exists.mp hs.executedTransaction
  simp only [toBlockChain, Storage.addBlock, Buckets.withBlock, hblock, hheader, hnewest, hindex,
    Option.map_some, Option.getD_some, if_true]

/-! ### Inserting -/

/-- **`BlockChain.addBlock` is this program**: where the buckets are there and the state of
the tip can be opened, it panics, returns an error and adds a block where the program does,
with the same error and the same chain. -/
theorem exec_addBlock (cc : ChainConfig H) (hview : ∀ h, faults.view h = false)
    (hs : s.Complete) (b : Block H) :
    ((addBlock cc faults (some b)).exec s).map
        (fun r => r.1.map fun _ => r.2.toBlockChain (!faults.hits b)) =
      (s.toBlockChain (!faults.hits b)).addBlock cc (some b) := by
  have hvalid := result_isValidBlock cc (!faults.hits b) hview hs (some b)
  rw [addBlock, BlockChain.addBlock]
  cases hv : (s.toBlockChain (!faults.hits b)).isValidBlock cc (some b) with
  | none =>
    rw [hv] at hvalid
    rw [Program.exec_bind_none (Program.result_eq_none.mp hvalid)]
    rfl
  | some verdict =>
    rw [hv] at hvalid
    obtain ⟨t, ht⟩ := Program.result_eq_some.mp hvalid
    have hunchanged := unchanged_isValidBlock (some b) s _ t ht
    cases verdict with
    | error e =>
      rw [Program.exec_bind_error ht]
      rfl
    | ok u =>
      rw [Program.exec_bind_ok ht]
      have hstore := exec_storeBlock faults (hs.of_unchanged hunchanged) b
      have hchain : s.toBlockChain true = t.toBlockChain true :=
        (toBlockChain_of_unchanged hunchanged).symm
      cases hhits : faults.hits b with
      | true =>
        rw [hhits, if_pos rfl] at hstore
        rw [Program.exec_bind_error hstore]
        rfl
      | false =>
        rw [hhits, if_neg Bool.false_ne_true] at hstore
        rw [Program.exec_bind_ok hstore, Bool.not_false, Option.map_some, hchain]
        dsimp only
        rw [toBlockChain_withBlock (hs.of_unchanged hunchanged) b]
        rfl

end Refinement

end StoredChain

/-- The database of a chain just started. -/
def genesisStored (cc : ChainConfig H) : StoredChain H :=
  { currentBlock := (genesisChain cc).currentBlock
    triedb := ∅
    database :=
      { block := some (genesisChain cc).storage.block
        blockHeader := some (genesisChain cc).storage.blockHeader
        newestBlockHash := some (genesisChain cc).storage.newestBlockHash
        executedTransaction := some (genesisChain cc).storage.executedTransaction }
    txpool := { TxPool.new with txQueue := [some crossTransaction] }
    partitionMap := (genesisChain cc).partitionMap }

/-- A disk that fills up while the index is written: the block has been executed, and its
state is in the trie database, but the payment stays in the pool. -/
theorem StoredChain.addBlock_error_unchanged_full :
    ∃ t, (addBlock fourNodesChain { Faults.none with executedTransaction := fun h => h = [1] }
        (some crossBlock)).exec (genesisStored fourNodesChain) = some (.error .storeBlock, t) ∧
      t.database = (genesisStored fourNodesChain).database ∧
      t.txpool.txQueue = [some crossTransaction] := by
  obtain ⟨t, ht⟩ := Program.failure_eq_some.mp (show (addBlock fourNodesChain
    { Faults.none with executedTransaction := fun h => h = [1] } (some crossBlock)).failure
      (genesisStored fourNodesChain) = some .storeBlock by decide +kernel)
  obtain ⟨-, hdatabase, hpool, -, -⟩ := addBlock_error_unchanged fourNodesChain _ _ _ t _ ht
  exact ⟨t, ht, hdatabase, by rw [hpool]; rfl⟩

end BlockEmulator
