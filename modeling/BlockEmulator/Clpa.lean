import BlockEmulator.LeaderRound

/-!
# The CLPA module of a leader (`accountTransfer_module.go`, `pbftOutside_moduleCLPA.go`)

Between epochs accounts move to other shards. The supervisor sends every leader the new
placements. Instead of the next block, a leader tells the others that it is ready; once
all are, it sends the accounts that leave its shard, and the transactions in its pool
that go with them: first phases with their senders, second phases with their recipients.
When it has what the others sent, it proposes the transfer, and the shard installs it.

A Go map that is iterated over is an `AList`, its entries in the order of the iteration.
Functions that can panic return `none` for it.
-/

namespace BlockEmulator

/-! ## Messages -/

/-- `PartitionModified`: the new placements of an epoch. -/
abbrev PartitionModified : Type := AList fun _ : Address => ℕ

/-- Reading a Go map of placements: zero where there is no entry. -/
def PartitionModified.get (m : PartitionModified) (addr : Address) : ℕ := (m.lookup addr).getD 0

/-- `message.AccountStateAndTx`. -/
structure AccountStateAndTx where
  /-- `Addrs` -/
  addrs : List Address
  /-- `AccountState` -/
  accountState : List AccountState
  /-- `FromShard` -/
  fromShard : ℕ
  /-- `Txs` -/
  txs : List Transaction

/-- `message.AccountTransferMsg`. -/
structure AccountTransferMsg where
  /-- `ModifiedMap` -/
  modifiedMap : PartitionModified
  /-- `Addrs` -/
  addrs : List Address
  /-- `AccountState` -/
  accountState : List AccountState
  /-- `ATid` -/
  atid : ℕ

/-- The messages that leaders get from other shards and from the supervisor. -/
inductive ClpaMessage where
  /-- `message.Relay` -/
  | relay (m : Relay)
  /-- `message.PartitionModifiedMap` -/
  | partitionMsg (partitionModified : PartitionModified)
  /-- `message.AccountStateAndTx` -/
  | accountStateAndTx (ast : AccountStateAndTx)
  /-- `message.PartitionReady` -/
  | partitionReady (fromShard nowSeqID : ℕ)

/-! ## The leader -/

/-- Where a leader is in `HandleinPropose`. -/
inductive ClpaStage where
  /-- before it -/
  | idle
  /-- in the loop on `getPartitionReady` -/
  | waitReady
  /-- in the loop on `getCollectOver` -/
  | waitCollect
  deriving DecidableEq

/-- A leader: its chain, its sequence number, and `dataSupport.Data_supportCLPA`. -/
structure ClpaNode (H : Type) where
  /-- `CurChain` -/
  curChain : BlockChain H
  /-- `sequenceID` -/
  sequenceID : ℕ
  /-- `seqIDMap` -/
  seqIDMap : AList fun _ : ℕ => ℕ
  /-- `ModifiedMap` -/
  modifiedMap : List PartitionModified
  /-- `AccountTransferRound` -/
  accountTransferRound : ℕ
  /-- `ReceivedNewAccountState` -/
  receivedNewAccountState : AList fun _ : Address => AccountState
  /-- `ReceivedNewTx` -/
  receivedNewTx : List Transaction
  /-- `AccountStateTx` -/
  accountStateTx : AList fun _ : ℕ => AccountStateAndTx
  /-- `PartitionOn` -/
  partitionOn : Bool
  /-- `PartitionReady` -/
  partitionReady : Finset ℕ
  /-- `ReadySeq` -/
  readySeq : AList fun _ : ℕ => ℕ
  /-- `CollectOver` -/
  collectOver : Bool
  /-- the point in `HandleinPropose` -/
  stage : ClpaStage

namespace ClpaNode

variable {H : Type}

/-- A leader just started, with `NewCLPADataSupport`. -/
def new (bc : BlockChain H) : ClpaNode H where
  curChain := bc
  sequenceID := bc.currentBlock.header.number + 1
  seqIDMap := ∅
  modifiedMap := []
  accountTransferRound := 0
  receivedNewAccountState := ∅
  receivedNewTx := []
  accountStateTx := ∅
  partitionOn := false
  partitionReady := ∅
  readySeq := ∅
  collectOver := false
  stage := .idle

variable (cc : ChainConfig H)

/-! ## `CLPARelayOutsideModule` -/

/-- `handleRelay`. -/
def handleRelay (nd : ClpaNode H) (relay : Relay) : ClpaNode H :=
  { nd with
    curChain := nd.curChain.received relay.txs
    seqIDMap := nd.seqIDMap.insert relay.senderShardID relay.senderSeq }

/-- `handleInjectTx`. -/
def handleInjectTx (nd : ClpaNode H) (txs : List Transaction) : ClpaNode H :=
  { nd with curChain := nd.curChain.received txs }

/-- `handlePartitionMsg`. -/
def handlePartitionMsg (nd : ClpaNode H) (partitionModified : PartitionModified) : ClpaNode H :=
  { nd with
    modifiedMap := nd.modifiedMap ++ [partitionModified]
    partitionOn := true }

/-- `handlePartitionReady`. -/
def handlePartitionReady (nd : ClpaNode H) (fromShard nowSeqID : ℕ) : ClpaNode H :=
  { nd with
    partitionReady := insert fromShard nd.partitionReady
    readySeq := nd.readySeq.insert fromShard nowSeqID }

/-- `handleAccountStateAndTxMsg`. -/
def handleAccountStateAndTxMsg (nd : ClpaNode H) (ast : AccountStateAndTx) : ClpaNode H :=
  let accountStateTx := nd.accountStateTx.insert ast.fromShard ast
  { nd with
    accountStateTx := accountStateTx
    collectOver := nd.collectOver || accountStateTx.keys.length + 1 = cc.shardNums }

/-- `HandleMessageOutsidePBFT`, but for injected transactions. -/
def handleMessageOutsidePBFT (nd : ClpaNode H) : ClpaMessage → ClpaNode H
  | .relay m => nd.handleRelay m
  | .partitionMsg m => nd.handlePartitionMsg m
  | .accountStateAndTx m => nd.handleAccountStateAndTxMsg cc m
  | .partitionReady sid seqID => nd.handlePartitionReady sid seqID

/-! ## `HandleinPropose` when the epoch ends -/

/-- The other shards. -/
def otherShards : List ℕ := (List.range cc.shardNums).filter (· ≠ cc.shardID)

/-- `sendPartitionReady`. -/
def sendPartitionReady (nd : ClpaNode H) : ClpaNode H × List (ℕ × ClpaMessage) :=
  ({ nd with partitionReady := insert cc.shardID nd.partitionReady },
    (otherShards cc).map fun sid => (sid, .partitionReady cc.shardID nd.sequenceID))

/-- `getPartitionReady`. Sequence numbers are `uint64`. -/
def getPartitionReady (nd : ClpaNode H) : Bool :=
  nd.partitionReady.card = cc.shardNums &&
    nd.seqIDMap.entries.all fun e =>
      (nd.readySeq.lookup e.1).any fun rval => (rval + (2 ^ 64 - 1)) % 2 ^ 64 = e.2

/-- The two-pointer loop of `sendAccounts_and_Txs`: what goes with some addresses, and
what stays in the pool. -/
def fetchTxs (addrSet : List Address) :
    List (Option Transaction) → Option (List Transaction × List (Option Transaction))
  | [] => some ([], [])
  | none :: _ => none
  | some ptx :: queue =>
    (fetchTxs addrSet queue).map fun r =>
      -- first phases go with the sender, second phases with the recipient
      if (ptx.sender ∈ addrSet ∧ ptx.relayed = false) ∨
          (ptx.recipient ∈ addrSet ∧ ptx.relayed = true) then (ptx :: r.1, r.2)
      else (r.1, some ptx :: r.2)

/-- The loop of `sendAccounts_and_Txs` over the other shards, with the accounts that
leave and their states. -/
def sendToShards (m : PartitionModified) (fetched : List (Address × AccountState)) :
    List ℕ → List (Option Transaction) →
      Option (List (ℕ × ClpaMessage) × List (Option Transaction))
  | [], queue => some ([], queue)
  | i :: is, queue =>
    let send := fetched.filter fun e => m.get e.1 = i
    (fetchTxs (send.map (·.1)) queue).bind fun r =>
      (sendToShards m fetched is r.2).map fun rest =>
        ((i, .accountStateAndTx ⟨send.map (·.1), send.map (·.2), cc.shardID, r.1⟩) :: rest.1,
          rest.2)

/-- `sendAccounts_and_Txs`. -/
def sendAccountsAndTxs (nd : ClpaNode H) : Option (ClpaNode H × List (ℕ × ClpaMessage)) :=
  nd.modifiedMap.getLast?.bind fun m =>
    let accountToFetch := (m.entries.filter fun e =>
      e.2 ≠ cc.shardID ∧ nd.curChain.getPartitionMap cc e.1 = cc.shardID).map (·.1)
    let asFetched := nd.curChain.fetchAccounts accountToFetch
    (sendToShards cc m (accountToFetch.zip asFetched) (otherShards cc)
      nd.curChain.txpool.txQueue).map fun r =>
        ({ nd with
            curChain := { nd.curChain with
              txpool := { nd.curChain.txpool with txQueue := r.2 } } },
          r.1)

/-- The inner loop of `proposePartition` over the accounts of a message. -/
def receiveAccounts : List Address → List AccountState →
    (AList fun _ : Address => AccountState) → Option (AList fun _ : Address => AccountState)
  | [], _, m => some m
  | _ :: _, [], _ => none
  | addr :: addrs, s :: ss, m => receiveAccounts addrs ss (m.insert addr s)

/-- The first loop of `proposePartition`. -/
def receiveAll : List AccountStateAndTx → (AList fun _ : Address => AccountState) →
    List Transaction → Option ((AList fun _ : Address => AccountState) × List Transaction)
  | [], states, txs => some (states, txs)
  | ast :: asts, states, txs =>
    (receiveAccounts ast.addrs ast.accountState states).bind fun states =>
      receiveAll asts states (txs ++ ast.txs)

/-- Whether the placements have a transaction in this shard. -/
def placedHere (m : PartitionModified) (tx : Transaction) : Bool :=
  m.get (if tx.relayed then tx.recipient else tx.sender) = cc.shardID

/-- `proposePartition`: the "error tx" of a transaction that does not belong here is a
panic. -/
def proposePartition (nd : ClpaNode H) : Option (ClpaNode H × AccountTransferMsg) :=
  (receiveAll (nd.accountStateTx.entries.map (·.2)) nd.receivedNewAccountState
    nd.receivedNewTx).bind fun r =>
      nd.modifiedMap[nd.accountTransferRound]?.bind fun m =>
        if r.2.all (placedHere cc m) then
          some
            ({ nd with
                receivedNewAccountState := r.1
                receivedNewTx := r.2
                curChain := nd.curChain.received r.2 },
              { modifiedMap := m
                addrs := r.1.entries.map (·.1)
                accountState := r.1.entries.map (·.2)
                atid := nd.modifiedMap.length })
        else none

variable [DecidableEq H]

/-- `accountTransfer_do`. -/
def accountTransferDo (nd : ClpaNode H) (atm : AccountTransferMsg) : Option (ClpaNode H) :=
  -- the new placements decide which of the accounts are installed
  let bc := atm.modifiedMap.entries.foldl (fun bc e => bc.updatePartitionMap e.1 e.2)
    nd.curChain
  (bc.addAccounts cc atm.addrs atm.accountState).map fun bc =>
    { nd with
      curChain := bc
      modifiedMap :=
        -- a node that has got another number of maps takes this one over
        if nd.modifiedMap.length ≠ atm.atid then nd.modifiedMap ++ [atm.modifiedMap]
        else nd.modifiedMap
      accountTransferRound := atm.atid
      accountStateTx := ∅
      receivedNewAccountState := ∅
      receivedNewTx := []
      partitionOn := false
      collectOver := false
      partitionReady := ∅ }

/-! ## What the operations do to transactions -/

omit [DecidableEq H]

/-- The transactions that came with accounts and wait for the transfer. -/
def collected (nd : ClpaNode H) : List Transaction :=
  nd.accountStateTx.entries.flatMap fun e => e.2.txs

variable {cc} {nd nd' : ClpaNode H}

/-- Every transaction of the pool is sent or stays. -/
theorem fetchTxs_spec {addrSet : List Address} {txs send : List Transaction}
    {rest : List (Option Transaction)} (h : fetchTxs addrSet (txs.map some) = some (send, rest)) :
    ∃ stay, rest = stay.map some ∧ txs.Perm (send ++ stay) := by
  induction txs generalizing send rest with
  | nil =>
    obtain ⟨rfl, rfl⟩ := Prod.mk.inj (Option.some.inj h)
    exact ⟨[], rfl, .refl _⟩
  | cons tx txs ih =>
    rw [List.map_cons, fetchTxs] at h
    obtain ⟨⟨send', rest'⟩, hr, h⟩ := Option.map_eq_some_iff.mp h
    obtain ⟨stay, rfl, hperm⟩ := ih hr
    split at h
    · obtain ⟨rfl, rfl⟩ := Prod.mk.inj h
      exact ⟨stay, rfl, hperm.cons tx⟩
    · obtain ⟨rfl, rfl⟩ := Prod.mk.inj h
      exact ⟨tx :: stay, rfl, (hperm.cons tx).trans List.perm_middle.symm⟩

/-- The messages with accounts, with the shards they go to. -/
def transferMessages (sends : List (ℕ × AccountStateAndTx)) : List (ℕ × ClpaMessage) :=
  sends.map fun e => (e.1, .accountStateAndTx e.2)

/-- Every transaction of the pool goes to one shard or stays. -/
theorem sendToShards_spec {m : PartitionModified} {fetched : List (Address × AccountState)}
    {is : List ℕ} {txs : List Transaction} {msgs : List (ℕ × ClpaMessage)}
    {rest : List (Option Transaction)}
    (h : sendToShards cc m fetched is (txs.map some) = some (msgs, rest)) :
    ∃ sends stay, msgs = transferMessages sends ∧ rest = stay.map some ∧
      txs.Perm (sends.flatMap (fun e => e.2.txs) ++ stay) ∧ ∀ e ∈ sends, e.1 ∈ is := by
  induction is generalizing txs msgs rest with
  | nil =>
    obtain ⟨rfl, rfl⟩ := Prod.mk.inj (Option.some.inj h)
    exact ⟨[], txs, rfl, rfl, .refl _, nofun⟩
  | cons i is ih =>
    rw [sendToShards] at h
    obtain ⟨⟨send, rest'⟩, hfetch, h⟩ := Option.bind_eq_some_iff.mp h
    obtain ⟨⟨msgs', rest''⟩, hr, h⟩ := Option.map_eq_some_iff.mp h
    obtain ⟨rfl, rfl⟩ := Prod.mk.inj h
    obtain ⟨stay, rfl, hperm⟩ := fetchTxs_spec hfetch
    obtain ⟨sends, stay', rfl, rfl, hperm', his⟩ := ih hr
    refine ⟨(i, ⟨_, _, _, send⟩) :: sends, stay', rfl, rfl, ?_, ?_⟩
    · rw [List.flatMap_cons, List.append_assoc]
      exact hperm.trans (hperm'.append_left send)
    · intro e he
      rcases List.mem_cons.mp he with rfl | he
      · exact List.mem_cons_self
      · exact List.mem_cons_of_mem _ (his e he)

/-- **What leaves with the accounts**: every transaction of the pool goes to one other
shard or stays. -/
theorem sendAccountsAndTxs_spec {txs : List Transaction} {msgs : List (ℕ × ClpaMessage)}
    (hq : nd.curChain.txpool.txQueue = txs.map some)
    (h : sendAccountsAndTxs cc nd = some (nd', msgs)) :
    ∃ sends stay, msgs = transferMessages sends ∧
      txs.Perm (sends.flatMap (fun e => e.2.txs) ++ stay) ∧
      (∀ e ∈ sends, e.1 < cc.shardNums) ∧
      nd' = { nd with
        curChain := { nd.curChain with
          txpool := { nd.curChain.txpool with txQueue := stay.map some } } } := by
  rw [sendAccountsAndTxs, hq] at h
  obtain ⟨m, -, h⟩ := Option.bind_eq_some_iff.mp h
  obtain ⟨⟨msgs', rest⟩, hr, h⟩ := Option.map_eq_some_iff.mp h
  obtain ⟨rfl, rfl⟩ := Prod.mk.inj h
  obtain ⟨sends, stay, rfl, rfl, hperm, his⟩ := sendToShards_spec hr
  refine ⟨sends, stay, rfl, hperm, fun e he => ?_, rfl⟩
  exact List.mem_range.mp (List.mem_filter.mp (his e he)).1

theorem receiveAll_spec {asts : List AccountStateAndTx}
    {states states' : AList fun _ : Address => AccountState} {txs txs' : List Transaction}
    (h : receiveAll asts states txs = some (states', txs')) :
    txs' = txs ++ asts.flatMap (·.txs) := by
  induction asts generalizing states txs with
  | nil =>
    obtain ⟨rfl, rfl⟩ := Prod.mk.inj (Option.some.inj h)
    rw [List.flatMap_nil, List.append_nil]
  | cons ast asts ih =>
    rw [receiveAll] at h
    obtain ⟨states₁, -, h⟩ := Option.bind_eq_some_iff.mp h
    rw [ih h, List.flatMap_cons, List.append_assoc]

/-- **What a transfer pools**: all transactions that came with accounts. -/
theorem proposePartition_spec {atm : AccountTransferMsg}
    (h : proposePartition cc nd = some (nd', atm)) :
    nd'.curChain = nd.curChain.received (nd.receivedNewTx ++ nd.collected) := by
  rw [proposePartition] at h
  obtain ⟨⟨states, txs⟩, hr, h⟩ := Option.bind_eq_some_iff.mp h
  obtain ⟨m, -, h⟩ := Option.bind_eq_some_iff.mp h
  obtain rfl : txs = nd.receivedNewTx ++ nd.collected := by
    rw [receiveAll_spec hr, List.flatMap_map, collected]
  split at h
  · obtain ⟨rfl, -⟩ := Prod.mk.inj (Option.some.inj h)
    rfl
  · cases h

/-- The loop over the placements of a transfer. -/
theorem foldl_updatePartitionMap (es : List (Sigma fun _ : Address => ℕ)) (bc : BlockChain H) :
    es.foldl (fun bc e => bc.updatePartitionMap e.1 e.2) bc =
      { bc with partitionMap := placeAll bc.partitionMap (es.map fun e => (e.1, e.2)) } := by
  rw [← BlockChain.foldl_updatePartitionMap, List.foldl_map]

/-- **What the installation of a transfer leaves alone**: the pool and the index; what
came with accounts is forgotten. -/
theorem accountTransferDo_spec [DecidableEq H] {atm : AccountTransferMsg}
    (h : accountTransferDo cc nd atm = some nd') :
    nd'.curChain.txpool = nd.curChain.txpool ∧
      nd'.curChain.storage.executedTransaction = nd.curChain.storage.executedTransaction ∧
      nd'.receivedNewTx = [] ∧ nd'.collected = [] := by
  rw [accountTransferDo] at h
  obtain ⟨bc, hadd, rfl⟩ := Option.map_eq_some_iff.mp h
  rw [foldl_updatePartitionMap] at hadd
  obtain ⟨b, storage, hbody, -, -, -, hs, -, rfl⟩ := BlockChain.addAccounts_eq_some hadd
  refine ⟨rfl, ?_, rfl, rfl⟩
  dsimp only
  rw [Storage.addBlock_eq_some hs, hbody]
  exact Finset.union_empty _

end ClpaNode

end BlockEmulator
