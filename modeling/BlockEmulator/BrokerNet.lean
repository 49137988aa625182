import BlockEmulator.Accounting
import BlockEmulator.BlockExecution
import BlockEmulator.BrokerModule
import BlockEmulator.BrokerRoutes
import BlockEmulator.RelayShard
import BlockEmulator.StepSystem

/-!
# A broker committee and its shards

The supervisor hands batches of raw transactions to the broker committee, Inject
messages arrive at the leaders of the shards, a leader commits a block and reports it,
a block information reaches the committee: in any order, and block informations any
number of times.

Three histories are kept beside the state: what was executed in which shard at which
balances, which block informations were handled, and which hashes were used.

`BrokerSound` is the invariant: every transaction that was sent is in one place, each
raw message has one first transaction, and as many second transactions as block
informations have named the first one. Every step keeps it (`BrokerSound.step`).
-/

namespace BlockEmulator

open Accounting BrokerCommitteeMod

variable {H : Type} [DecidableEq H]

/-- A system of broker shards. -/
structure BrokerSystem (H : Type) where
  /-- the configuration of a shard, but for its number -/
  chainConfig : ChainConfig H
  /-- `params.InjectSpeed` -/
  injectSpeed : ℕ
  /-- the accounts of the brokers -/
  brokerAddress : List Address
  /-- the addresses that are used -/
  addresses : Finset Address
  /-- the shards and the supervisor count the same shards -/
  shards : chainConfig.shardNums = chainConfig.shardNum
  /-- there are shards -/
  pos : 0 < chainConfig.shardNum
  /-- brokers are among those that are used -/
  brokers : ∀ b ∈ brokerAddress, b ∈ addresses

namespace BrokerSystem

variable (sys : BrokerSystem H)

/-- The configuration of one shard. -/
def cc (k : ℕ) : ChainConfig H := { sys.chainConfig with shardID := k }

/-- The parameters of the committee. -/
def params : BrokerParams H :=
  ⟨sys.chainConfig.hash, sys.chainConfig.shardNum, sys.injectSpeed⟩

/-- The number of shards. -/
abbrev shardNum : ℕ := sys.chainConfig.shardNum

/-- The home of an address. -/
def place (a : Address) : ℕ := fetchModifiedMap sys.params a

/-- The shard a transaction is sent to. -/
def route (tx : Transaction) : ℕ :=
  if tx.sender ∈ sys.brokerAddress then sys.place tx.recipient else sys.place tx.sender

omit [DecidableEq H] in
@[simp] theorem cc_shardID (k : ℕ) : (sys.cc k).shardID = k := rfl

omit [DecidableEq H] in
theorem getPartitionMap_eq {bc : BlockChain H} (h : bc.partitionMap = fun _ => none) (k : ℕ) :
    bc.getPartitionMap (sys.cc k) = sys.place := by
  funext a
  rw [BlockChain.getPartitionMap, h]
  rfl

omit [DecidableEq H] in
theorem place_lt (a : Address) : sys.place a < sys.shardNum :=
  addr2ShardWithShardNum_lt _ _ sys.pos

end BrokerSystem

/-! ## The histories -/

/-- The state of a broker committee and its shards. -/
structure BrokerNet (H : Type) where
  /-- the committee -/
  committee : BrokerCommitteeMod
  /-- the chain of each shard -/
  chains : ℕ → BlockChain H
  /-- the Inject messages under way, with their destinations -/
  flight : List (ℕ × List Transaction)
  /-- the block informations that were sent -/
  infos : List BrokerInfoMsg
  /-- the block informations that were handled, in order -/
  handled : List BrokerInfoMsg
  /-- what was executed, in order -/
  ledger : List Execution
  /-- the hashes that were used -/
  used : Finset Bytes

/-- What can happen. -/
inductive BrokerNetAction where
  /-- a batch of raw transactions, with the hashes of the transactions that are made -/
  | batch (txs : List Transaction) (hashes : List Bytes)
  /-- an Inject message arrives -/
  | deliver (k : ℕ)
  /-- the leader of a shard commits a block and reports it -/
  | commit (sid miner : ℕ) (now : Time)
  /-- a block information reaches the committee, for the first time or again -/
  | blockInfo (k : ℕ) (hashes : List Bytes)
  deriving DecidableEq

/-- What is true of a raw transaction, as it is read from the data set. -/
structure Transaction.Raw (addresses : Finset Address) (tx : Transaction) : Prop where
  /-- it is in its first phase -/
  relayed : tx.relayed = false
  /-- it is not yet a broker transaction -/
  hasBroker : tx.hasBroker = false
  /-- nor was it made for another one -/
  rawTxHash : tx.rawTxHash = []
  /-- the paying account is one of those that are used -/
  sender : tx.sender ∈ addresses
  /-- so is the receiving account -/
  recipient : tx.recipient ∈ addresses

instance (addresses : Finset Address) (tx : Transaction) : Decidable (tx.Raw addresses) :=
  decidable_of_iff (tx.relayed = false ∧ tx.hasBroker = false ∧ tx.rawTxHash = [] ∧
      tx.sender ∈ addresses ∧ tx.recipient ∈ addresses)
    ⟨fun ⟨h₁, h₂, h₃, h₄, h₅⟩ => ⟨h₁, h₂, h₃, h₄, h₅⟩, fun h => ⟨h.1, h.2, h.3, h.4, h.5⟩⟩

namespace BrokerNet

variable (sys : BrokerSystem H)

/-- The system just started. -/
def start : BrokerNet H where
  committee := .new sys.brokerAddress
  chains k := genesisChain (sys.cc k)
  flight := []
  infos := []
  handled := []
  ledger := []
  used := ∅

/-- Hashes of new transactions: they are distinct, and none was used. -/
def NewHashes (s : BrokerNet H) (hashes : List Bytes) : Prop :=
  hashes.Nodup ∧ ∀ h ∈ hashes, h ≠ [] ∧ h ∉ s.used

instance (s : BrokerNet H) (hashes : List Bytes) : Decidable (s.NewHashes hashes) :=
  inferInstanceAs (Decidable (_ ∧ _))

/-- The balances in a shard. -/
def balance (s : BrokerNet H) (k : ℕ) : Address → ℤ :=
  balanceOf (s.chains k).currentBlock.header.stateRoot

/-- What the next block of a shard executes. -/
def packed (s : BrokerNet H) (sid : ℕ) : List Transaction :=
  BlockChain.filterFreshTransactions (s.chains sid)
    (BlockChain.packForBlock (sys.cc sid) (s.chains sid)).1

/-- One step. -/
def step (s : BrokerNet H) : BrokerNetAction → Option (BrokerNet H)
  | .batch txs hashes =>
    if s.NewHashes (txs.map (·.txHash) ++ hashes) ∧ ∀ tx ∈ txs, tx.Raw sys.addresses then
      (handleBatch sys.params s.committee txs hashes).map fun r =>
        { s with
          committee := r.1
          flight := s.flight ++ r.2
          used := s.used ∪ (txs.map (·.txHash) ++ hashes).toFinset }
    else none
  | .deliver k =>
    s.flight[k]?.bind fun e =>
      (RawBroker.handleMessageOutsidePBFT (s.chains e.1) (.inject (e.2.map some) [])).map
        fun bc =>
          { s with
            chains := Function.update s.chains e.1 bc
            flight := s.flight.eraseIdx k }
  | .commit sid miner now =>
    if sid < sys.shardNum then
      -- the ledger gets what is packed, in turn, over the balances before the block
      (brokerRound (sys.cc sid) miner now (s.chains sid)).map fun r =>
        { s with
          chains := Function.update s.chains sid r.1
          infos := s.infos ++ r.2
          ledger := s.ledger ++ executions sys.place sid (s.balance sid) (s.packed sys sid) }
    else none
  -- a block information stays where it is: it may come again
  | .blockInfo k hashes =>
    if s.NewHashes hashes then
      s.infos[k]?.bind fun b =>
        (handleBlockInfo sys.params s.committee b hashes).map fun r =>
          { s with
            committee := r.1
            flight := s.flight ++ r.2
            handled := s.handled ++ [b]
            used := s.used ∪ hashes.toFinset }
    else none

/-- The raw messages that were handled. -/
abbrev raws (s : BrokerNet H) : Finset BrokerRawMeg := s.committee.broker.brokerRawMegs

end BrokerNet

/-! ## The transactions that are sent -/

/-- The first transaction of a raw message. -/
def BrokerRawMeg.First (m : BrokerRawMeg) (tx : Transaction) : Prop := tx = newBroker1Tx m tx.txHash

/-- A second transaction of a raw message. -/
def BrokerRawMeg.Second (m : BrokerRawMeg) (tx : Transaction) : Prop := tx = newBroker2Tx m tx.txHash

instance (m : BrokerRawMeg) : DecidablePred m.First := fun _ => inferInstanceAs (Decidable (_ = _))

instance (m : BrokerRawMeg) : DecidablePred m.Second := fun _ => inferInstanceAs (Decidable (_ = _))

/-- What is true of a raw message that was handled. -/
structure BrokerRawMeg.Valid (sys : BrokerSystem H) (m : BrokerRawMeg) : Prop where
  /-- there is a hash -/
  txHash : m.tx.txHash ≠ []
  /-- the ends are in different shards -/
  crossing : sys.place m.tx.recipient ≠ sys.place m.tx.sender
  /-- the sender is not a broker -/
  sender : m.tx.sender ∉ sys.brokerAddress
  /-- nor is the recipient -/
  recipient : m.tx.recipient ∉ sys.brokerAddress
  /-- the broker is the first one -/
  broker : sys.brokerAddress.head? = some m.broker
  /-- the paying account is one of those that are used -/
  sender_mem : m.tx.sender ∈ sys.addresses
  /-- so is the receiving account -/
  recipient_mem : m.tx.recipient ∈ sys.addresses

/-- What is true of a transaction that is sent as it is: its ends are in one shard, or
one of them is a broker. -/
structure Transaction.Plain (sys : BrokerSystem H) (tx : Transaction) : Prop where
  /-- it was not made for another one -/
  rawTxHash : tx.rawTxHash = []
  /-- it is in its first phase -/
  relayed : tx.relayed = false
  /-- the mark is right -/
  hasBroker : tx.hasBroker = true ↔ tx.recipient ∈ sys.brokerAddress ∨ tx.sender ∈ sys.brokerAddress
  /-- without a broker, it stays in one shard -/
  place : tx.hasBroker = false → sys.place tx.recipient = sys.place tx.sender
  /-- the paying account is one of those that are used -/
  sender_mem : tx.sender ∈ sys.addresses
  /-- so is the receiving account -/
  recipient_mem : tx.recipient ∈ sys.addresses

section

variable {sys : BrokerSystem H} {m m' : BrokerRawMeg} {tx : Transaction}

omit [DecidableEq H] in
theorem BrokerRawMeg.Valid.broker_mem (h : m.Valid sys) : m.broker ∈ sys.brokerAddress :=
  List.mem_of_head? h.broker

theorem BrokerRawMeg.First.rawTxHash (h : m.First tx) : tx.rawTxHash = m.tx.txHash := by
  rw [h]
  rfl

theorem BrokerRawMeg.Second.rawTxHash (h : m.Second tx) : tx.rawTxHash = m.tx.txHash := by
  rw [h]
  rfl

theorem BrokerRawMeg.First.sender (h : m.First tx) : tx.sender = m.tx.sender := by
  rw [h]
  rfl

theorem BrokerRawMeg.Second.sender (h : m.Second tx) : tx.sender = m.broker := by
  rw [h]
  rfl

theorem BrokerRawMeg.first_new (m : BrokerRawMeg) (h : Bytes) : m.First (newBroker1Tx m h) := rfl

theorem BrokerRawMeg.second_new (m : BrokerRawMeg) (h : Bytes) : m.Second (newBroker2Tx m h) := rfl

omit [DecidableEq H] in
/-- No transaction is both. -/
theorem BrokerRawMeg.First.not_second (hm : m.Valid sys) (hm' : m'.Valid sys) (h : m.First tx) :
    ¬ m'.Second tx := by
  intro h'
  apply hm.sender
  rw [← h.sender, h'.sender]
  exact hm'.broker_mem

end

/-! ## Where transactions are -/

namespace BrokerNet

variable (sys : BrokerSystem H)

/-- All transactions that were sent: under way, pooled, or executed. -/
def all (s : BrokerNet H) : Multiset Transaction :=
  (s.flight.flatMap (·.2) : List Transaction) +
    total sys.shardNum (fun _ bc => (bc.pooled : Multiset Transaction)) s.chains +
    (s.ledger.map (·.tx) : List Transaction)

/-- How often the block informations that were handled name the first transaction of a
raw message. -/
def named (s : BrokerNet H) (m : BrokerRawMeg) : ℕ :=
  (s.handled.map fun b => b.broker1Txs.countP m.First).sum

end BrokerNet

/-- Every transaction is where it was sent. -/
structure InPlace (sys : BrokerSystem H) (s : BrokerNet H) : Prop where
  /-- addresses are not placed explicitly -/
  placed : ∀ k, (s.chains k).partitionMap = fun _ => none
  /-- pools hold no nil pointers -/
  queue : ∀ k, (s.chains k).txpool.txQueue = (s.chains k).pooled.map some
  /-- what is under way goes to its shard -/
  flight : ∀ e ∈ s.flight, e.1 < sys.shardNum ∧ ∀ tx ∈ e.2, sys.route tx = e.1
  /-- what is pooled is in its shard -/
  pooled : ∀ k < sys.shardNum, ∀ tx ∈ (s.chains k).pooled, sys.route tx = k
  /-- what was executed was in its shard -/
  ledger : ∀ e ∈ s.ledger, sys.route e.tx = e.shard
  /-- what a chain has executed is in the ledger -/
  executed : ∀ k, ∀ h ∈ (s.chains k).storage.executedTransaction, ∃ e ∈ s.ledger, e.tx.txHash = h

/-- Every transaction is accounted for. -/
structure AllKnown (sys : BrokerSystem H) (s : BrokerNet H) : Prop where
  /-- the committee has the brokers -/
  brokers : s.committee.broker.brokerAddress = sys.brokerAddress
  /-- no two transactions have the same hash -/
  nodup : ((s.all sys).map (·.txHash)).Nodup
  /-- their hashes are used -/
  used : ∀ tx ∈ s.all sys, tx.txHash ≠ [] ∧ tx.txHash ∈ s.used
  /-- they are plain, or made for a raw message -/
  kind : ∀ tx ∈ s.all sys, tx.Plain sys ∨ ∃ m ∈ s.raws, m.First tx ∨ m.Second tx
  /-- raw messages are valid, and their hashes are used -/
  raw : ∀ m ∈ s.raws, m.Valid sys ∧ m.tx.txHash ∈ s.used
  /-- no two raw messages have the same hash -/
  rawHash : ∀ m ∈ s.raws, ∀ m' ∈ s.raws, m.tx.txHash = m'.tx.txHash → m = m'
  /-- there is one first transaction -/
  once : ∀ m ∈ s.raws, (s.all sys).countP m.First = 1
  /-- there is a second transaction for each time the first was named -/
  second : ∀ m ∈ s.raws, (s.all sys).countP m.Second = s.named m
  /-- first transactions are noted -/
  confirm1 : ∀ m ∈ s.raws, ∀ tx ∈ s.all sys, m.First tx →
    s.committee.brokerConfirm1Pool tx.txHash = some ⟨tx.txHash, m⟩
  /-- nothing else is -/
  confirmed : ∀ h c, s.committee.brokerConfirm1Pool h = some c →
    c.rawMeg ∈ s.raws ∧ ∃ tx ∈ s.all sys, tx.txHash = h ∧ c.rawMeg.First tx
  /-- an empty block names nothing -/
  empty : ∀ b ∈ s.infos, b.blockBodyLength = 0 → b.broker1Txs = []
  /-- what is reported first is a first transaction -/
  infos₁ : ∀ b ∈ s.infos, ∀ tx ∈ b.broker1Txs, tx ∈ s.all sys ∧ ∃ m ∈ s.raws, m.First tx
  /-- what is reported second is a second one -/
  infos₂ : ∀ b ∈ s.infos, ∀ tx ∈ b.broker2Txs, tx ∈ s.all sys ∧ ∃ m ∈ s.raws, m.Second tx
  /-- what was handled was sent -/
  handled : ∀ b ∈ s.handled, b ∈ s.infos

variable {sys : BrokerSystem H} {s t : BrokerNet H} {a : BrokerNetAction}

/-! ## The start -/

omit [DecidableEq H] in
theorem BrokerNet.all_start : (start sys).all sys = 0 := by
  simp [all, start, total, BlockChain.pooled, genesisChain, TxPool.new]

omit [DecidableEq H] in
theorem InPlace.start : InPlace sys (BrokerNet.start sys) where
  placed _ := rfl
  queue _ := rfl
  flight _ h := absurd h List.not_mem_nil
  pooled _ _ _ h := absurd h List.not_mem_nil
  ledger _ h := absurd h List.not_mem_nil
  executed _ _ h := absurd h (Finset.notMem_empty _)

omit [DecidableEq H] in
theorem AllKnown.start : AllKnown sys (BrokerNet.start sys) where
  brokers := rfl
  nodup := by simp [BrokerNet.all_start]
  used tx h := by simp [BrokerNet.all_start] at h
  kind tx h := by simp [BrokerNet.all_start] at h
  raw m h := absurd h (Finset.notMem_empty _)
  rawHash m h := absurd h (Finset.notMem_empty _)
  once m h := absurd h (Finset.notMem_empty _)
  second m h := absurd h (Finset.notMem_empty _)
  confirm1 m h := absurd h (Finset.notMem_empty _)
  confirmed h c hc := by cases hc
  empty b h := absurd h List.not_mem_nil
  infos₁ b h := absurd h List.not_mem_nil
  infos₂ b h := absurd h List.not_mem_nil
  handled b h := absurd h List.not_mem_nil

/-! ## Transactions are sent -/

omit [DecidableEq H] in
theorem BrokerSystem.senderShard_eq {bcm : BrokerCommitteeMod}
    (h : bcm.broker.brokerAddress = sys.brokerAddress) (tx : Transaction) :
    senderShard sys.params bcm tx = sys.route tx := by
  simp only [senderShard, BrokerSystem.route, Broker.isBroker, h]
  rfl

/-- What the committee does when it makes transactions with new hashes and sends them. -/
structure Sends (sys : BrokerSystem H) (s t : BrokerNet H) (txs : List Transaction) : Prop where
  /-- all of them are sent where they belong -/
  sent : ∃ sent : List (ℕ × List Transaction), (sent.flatMap (·.2)).Perm txs ∧
    (∀ e ∈ sent, e.1 < sys.shardNum ∧ ∀ tx ∈ e.2, sys.route tx = e.1) ∧
    t.flight = s.flight ++ sent
  /-- no two of them have the same hash -/
  nodup : (txs.map (·.txHash)).Nodup
  /-- their hashes are new, and used from then on -/
  fresh : ∀ tx ∈ txs, tx.txHash ≠ [] ∧ tx.txHash ∉ s.used ∧ tx.txHash ∈ t.used
  /-- used hashes stay used -/
  used : s.used ⊆ t.used
  /-- the brokers stay -/
  brokers : t.committee.broker.brokerAddress = sys.brokerAddress
  /-- so do the chains -/
  chains : t.chains = s.chains
  /-- what is executed -/
  ledger : t.ledger = s.ledger
  /-- and what is reported -/
  infos : t.infos = s.infos

namespace Sends

variable {txs : List Transaction}

omit [DecidableEq H] in
/-- What is sent comes to all that was sent. -/
theorem all (h : Sends sys s t txs) : t.all sys = s.all sys + (txs : Multiset Transaction) := by
  obtain ⟨sent, hperm, -, hflight⟩ := h.sent
  rw [BrokerNet.all, BrokerNet.all, h.chains, h.ledger, hflight, List.flatMap_append,
    ← Multiset.coe_add, Multiset.coe_eq_coe.mpr hperm]
  abel

omit [DecidableEq H] in
theorem mem_all (h : Sends sys s t txs) {tx : Transaction} :
    tx ∈ t.all sys ↔ tx ∈ s.all sys ∨ tx ∈ txs := by
  rw [h.all, Multiset.mem_add, Multiset.mem_coe]

omit [DecidableEq H] in
theorem countP (h : Sends sys s t txs) (P : Transaction → Prop) [DecidablePred P] :
    (t.all sys).countP P = (s.all sys).countP P + txs.countP fun tx => P tx := by
  rw [h.all, Multiset.countP_add, Multiset.coe_countP]

omit [DecidableEq H] in
/-- What is sent is in its place. -/
theorem inPlace (h : Sends sys s t txs) (hs : InPlace sys s) : InPlace sys t where
  placed k := by rw [h.chains, hs.placed k]
  queue k := by rw [h.chains, hs.queue k]
  flight e he := by
    obtain ⟨sent, -, hroute, hflight⟩ := h.sent
    rw [hflight] at he
    rcases List.mem_append.mp he with he | he
    · exact hs.flight e he
    · exact hroute e he
  pooled k hk := by
    rw [h.chains]
    exact hs.pooled k hk
  ledger := by
    rw [h.ledger]
    exact hs.ledger
  executed k := by
    rw [h.chains, h.ledger]
    exact hs.executed k

omit [DecidableEq H] in
/-- New transactions have new hashes. -/
theorem nodup_all (h : Sends sys s t txs) (hs : AllKnown sys s) :
    ((t.all sys).map (·.txHash)).Nodup := by
  rw [h.all, Multiset.map_add]
  refine Multiset.nodup_add.mpr ⟨hs.nodup, Multiset.coe_nodup.mpr h.nodup, ?_⟩
  refine Multiset.disjoint_left.mpr fun hh hh' => ?_
  obtain ⟨tx, htx, rfl⟩ := Multiset.mem_map.mp hh
  obtain ⟨tx', htx', heq⟩ := Multiset.mem_map.mp hh'
  exact (h.fresh tx' (Multiset.mem_coe.mp htx')).2.1 (heq ▸ (hs.used tx htx).2)

omit [DecidableEq H] in
/-- They are used. -/
theorem used_all (h : Sends sys s t txs) (hs : AllKnown sys s) :
    ∀ tx ∈ t.all sys, tx.txHash ≠ [] ∧ tx.txHash ∈ t.used := by
  intro tx htx
  rcases h.mem_all.mp htx with htx | htx
  · exact ⟨(hs.used tx htx).1, h.used (hs.used tx htx).2⟩
  · exact ⟨(h.fresh tx htx).1, (h.fresh tx htx).2.2⟩

omit [DecidableEq H] in
/-- Reports name what was sent. -/
theorem reported (h : Sends sys s t txs) (hraws : ∀ m ∈ s.raws, m ∈ t.raws)
    {K : BrokerRawMeg → Transaction → Prop} {part : BrokerInfoMsg → List Transaction}
    (hs : ∀ b ∈ s.infos, ∀ tx ∈ part b, tx ∈ s.all sys ∧ ∃ m ∈ s.raws, K m tx) :
    ∀ b ∈ t.infos, ∀ tx ∈ part b, tx ∈ t.all sys ∧ ∃ m ∈ t.raws, K m tx := by
  intro b hb tx htx
  obtain ⟨hmem, m, hm, hkind⟩ := hs b (h.infos ▸ hb) tx htx
  exact ⟨h.mem_all.mpr (.inl hmem), m, hraws m hm, hkind⟩

end Sends

/-! ## Nothing is in two places -/

namespace BrokerNet

omit [DecidableEq H] in
theorem pooled_le (s : BrokerNet H) {k : ℕ} (hk : k < sys.shardNum) :
    ((s.chains k).pooled : Multiset Transaction) ≤ s.all sys := by
  rw [all, total_eq hk]
  exact (Multiset.le_add_right _ _).trans
    ((Multiset.le_add_left _ _).trans (Multiset.le_add_right _ _))

omit [DecidableEq H] in
theorem mem_all_of_pooled {k : ℕ} (hk : k < sys.shardNum) {tx : Transaction}
    (h : tx ∈ (s.chains k).pooled) : tx ∈ s.all sys :=
  Multiset.mem_of_le (s.pooled_le hk) (Multiset.mem_coe.mpr h)

omit [DecidableEq H] in
theorem mem_all_of_ledger {e : Execution} (h : e ∈ s.ledger) : e.tx ∈ s.all sys :=
  Multiset.mem_add.mpr (.inr (Multiset.mem_coe.mpr (List.mem_map_of_mem h)))

end BrokerNet

omit [DecidableEq H] in
/-- What is pooled was not executed. -/
theorem AllKnown.pooled_ne_ledger (hs : AllKnown sys s) {k : ℕ} (hk : k < sys.shardNum)
    {tx : Transaction} (htx : tx ∈ (s.chains k).pooled) {e : Execution} (he : e ∈ s.ledger) :
    e.tx.txHash ≠ tx.txHash := by
  intro heq
  have hnd := hs.nodup
  rw [BrokerNet.all, Multiset.map_add] at hnd
  have hexec : tx.txHash ∈ ((s.ledger.map (·.tx) : List Transaction) : Multiset Transaction).map
      (·.txHash) := by
    rw [← heq]
    exact Multiset.mem_map_of_mem _ (Multiset.mem_coe.mpr (List.mem_map_of_mem he))
  refine Multiset.disjoint_left.mp (Multiset.nodup_add.mp hnd).2.2 ?_ hexec
  refine Multiset.mem_map_of_mem _ (Multiset.mem_add.mpr (.inr (mem_total.mpr ⟨k, hk, ?_⟩)))
  exact Multiset.mem_coe.mpr htx

omit [DecidableEq H] in
/-- The pool of a shard is fresh to its chain. -/
theorem AllKnown.freshPool (hs : AllKnown sys s) (hp : InPlace sys s) {k : ℕ}
    (hk : k < sys.shardNum) : FreshPool (s.chains k) (s.chains k).pooled where
  queue := hp.queue k
  nodup := Multiset.coe_nodup.mp
    (Multiset.nodup_of_le (Multiset.map_le_map (s.pooled_le hk)) hs.nodup)
  fresh tx htx := by
    refine ⟨(hs.used tx (BrokerNet.mem_all_of_pooled hk htx)).1, fun hex => ?_⟩
    obtain ⟨e, he, heq⟩ := hp.executed k _ hex
    exact hs.pooled_ne_ledger hk htx he heq

omit [DecidableEq H] in
/-- A first transaction is made for one raw message. -/
theorem AllKnown.first_unique (hs : AllKnown sys s) {m m' : BrokerRawMeg} (hm : m ∈ s.raws)
    (hm' : m' ∈ s.raws) {tx : Transaction} (h : m.First tx) (h' : m'.First tx) : m = m' :=
  hs.rawHash m hm m' hm' (h.rawTxHash.symm.trans h'.rawTxHash)

/-! ## A message arrives -/

/-- What the arrival of a message does. -/
theorem BrokerNet.step_deliver {k : ℕ} (h : s.step sys (.deliver k) = some t) :
    ∃ e, s.flight[k]? = some e ∧
      t = { s with
        chains := Function.update s.chains e.1 ((s.chains e.1).received e.2)
        flight := s.flight.eraseIdx k } := by
  rw [BrokerNet.step] at h
  obtain ⟨e, he, h⟩ := Option.bind_eq_some_iff.mp h
  rw [RawBroker.handleMessageOutsidePBFT_inject] at h
  exact ⟨e, he, (Option.some.inj h).symm⟩

omit [DecidableEq H] in
/-- How all that was sent changes where one chain changes. -/
theorem BrokerNet.all_update {k : ℕ} (hk : k < sys.shardNum) {bc : BlockChain H}
    (hchains : t.chains = Function.update s.chains k bc) :
    t.all sys + (s.chains k).pooled + (s.flight.flatMap (·.2) : List Transaction) +
        (s.ledger.map (·.tx) : List Transaction) =
      s.all sys + bc.pooled + (t.flight.flatMap (·.2) : List Transaction) +
        (t.ledger.map (·.tx) : List Transaction) := by
  have hup := total_update (fun _ bc => (bc.pooled : Multiset Transaction)) s.chains hk bc
  rw [all, all, hchains]
  calc _ = (total sys.shardNum (fun _ bc => (bc.pooled : Multiset Transaction))
            (Function.update s.chains k bc) + (s.chains k).pooled) +
          ((t.flight.flatMap (·.2) : List Transaction) + (t.ledger.map (·.tx) : List Transaction) +
            (s.flight.flatMap (·.2) : List Transaction) +
            (s.ledger.map (·.tx) : List Transaction)) := by abel
    _ = _ := by
      rw [hup]
      abel

omit [DecidableEq H] in
/-- What is known stays known where nothing is sent: new reports name what was sent. -/
theorem AllKnown.report (hs : AllKnown sys s) {bs : List BrokerInfoMsg}
    (hall : t.all sys = s.all sys) (hcommittee : t.committee = s.committee)
    (hused : t.used = s.used) (hhandled : t.handled = s.handled) (hinfos : t.infos = s.infos ++ bs)
    (hempty : ∀ b ∈ bs, b.blockBodyLength = 0 → b.broker1Txs = [])
    (h₁ : ∀ b ∈ bs, ∀ tx ∈ b.broker1Txs, tx ∈ s.all sys ∧ ∃ m ∈ s.raws, m.First tx)
    (h₂ : ∀ b ∈ bs, ∀ tx ∈ b.broker2Txs, tx ∈ s.all sys ∧ ∃ m ∈ s.raws, m.Second tx) :
    AllKnown sys t := by
  have hraws : t.raws = s.raws := by rw [BrokerNet.raws, hcommittee]
  have hnamed : ∀ m, t.named m = s.named m := by
    intro m
    rw [BrokerNet.named, hhandled]
    rfl
  have hmem : ∀ b ∈ t.infos, b ∈ s.infos ∨ b ∈ bs := by
    intro b hb
    rw [hinfos] at hb
    exact List.mem_append.mp hb
  refine ⟨?_, ?_, ?_, ?_, ?_, ?_, ?_, ?_, ?_, ?_, ?_, ?_, ?_, ?_⟩
  · rw [hcommittee, hs.brokers]
  · rw [hall]
    exact hs.nodup
  · rw [hall, hused]
    exact hs.used
  · rw [hall, hraws]
    exact hs.kind
  · rw [hraws, hused]
    exact hs.raw
  · rw [hraws]
    exact hs.rawHash
  · rw [hall, hraws]
    exact hs.once
  · intro m hm
    rw [hall, hnamed]
    exact hs.second m (hraws ▸ hm)
  · rw [hall, hraws, hcommittee]
    exact hs.confirm1
  · rw [hall, hraws, hcommittee]
    exact hs.confirmed
  · intro b hb
    exact (hmem b hb).elim (hs.empty b) (hempty b)
  · intro b hb
    rw [hall, hraws]
    exact (hmem b hb).elim (hs.infos₁ b) (h₁ b)
  · intro b hb
    rw [hall, hraws]
    exact (hmem b hb).elim (hs.infos₂ b) (h₂ b)
  · intro b hb
    rw [hhandled] at hb
    rw [hinfos]
    exact List.mem_append_left _ (hs.handled b hb)

/-- What arrives goes where it was sent. -/
theorem InPlace.deliver (hp : InPlace sys s) {k : ℕ} (h : s.step sys (.deliver k) = some t) :
    InPlace sys t := by
  obtain ⟨e, he, rfl⟩ := BrokerNet.step_deliver h
  obtain ⟨-, hroute⟩ := hp.flight e (List.mem_of_getElem? he)
  refine ⟨fun i => ?_, fun i => ?_, fun e' he' => ?_, fun i hi tx htx => ?_, hp.ledger,
    fun i => ?_⟩
  · dsimp only
    rw [Function.update_apply]
    split
    · rename_i hi
      rw [BlockChain.received_partitionMap, hp.placed]
    · exact hp.placed i
  · dsimp only
    rw [Function.update_apply]
    split
    · exact BlockChain.received_queue (hp.queue e.1) e.2
    · exact hp.queue i
  · exact hp.flight e' ((List.eraseIdx_sublist _ _).subset he')
  · dsimp only at htx
    rw [Function.update_apply] at htx
    split at htx
    · rename_i hie
      rw [BlockChain.received_pooled (hp.queue e.1)] at htx
      rcases List.mem_append.mp htx with htx | htx
      · exact hp.pooled i hi tx (hie ▸ htx)
      · rw [hie, hroute tx htx]
    · exact hp.pooled i hi tx htx
  · dsimp only
    rw [Function.update_apply]
    split
    · exact hp.executed e.1
    · exact hp.executed i

theorem AllKnown.deliver (hs : AllKnown sys s) (hp : InPlace sys s) {k : ℕ}
    (h : s.step sys (.deliver k) = some t) : AllKnown sys t := by
  obtain ⟨e, he, ht⟩ := BrokerNet.step_deliver h
  have hall : t.all sys = s.all sys := by
    have hup := BrokerNet.all_update (hp.flight e (List.mem_of_getElem? he)).1
      (congrArg BrokerNet.chains ht)
    have hperm : (s.flight.flatMap (·.2)).Perm
        (e.2 ++ (s.flight.eraseIdx k).flatMap (·.2)) := by
      obtain ⟨hk, rfl⟩ := List.getElem?_eq_some_iff.mp he
      exact (List.getElem_cons_eraseIdx_perm hk).symm.flatMap_right (·.2)
    rw [BlockChain.received_pooled (hp.queue e.1), ← Multiset.coe_add,
      Multiset.coe_eq_coe.mpr hperm, ← Multiset.coe_add] at hup
    have hflight : t.flight = s.flight.eraseIdx k := congrArg BrokerNet.flight ht
    have hledger : t.ledger = s.ledger := by rw [ht]
    rw [hflight, hledger] at hup
    refine add_right_cancel (b := (s.chains e.1).pooled + (e.2 : Multiset Transaction) +
      ((s.flight.eraseIdx k).flatMap (·.2) : List Transaction) +
      (s.ledger.map (·.tx) : List Transaction)) ?_
    calc _ = _ := by abel
      _ = _ := hup
      _ = _ := by abel
  have hinfos : t.infos = s.infos ++ [] := by rw [ht, List.append_nil]
  refine hs.report hall (by rw [ht]) (by rw [ht]) (by rw [ht]) hinfos ?_ ?_ ?_
  · exact fun _ h => absurd h List.not_mem_nil
  · exact fun _ h => absurd h List.not_mem_nil
  · exact fun _ h => absurd h List.not_mem_nil

/-! ## A block is committed -/

/-- What a commit does: a prefix of the pool is executed, reported, and in the ledger. -/
theorem BrokerNet.step_commit (hs : AllKnown sys s) (hp : InPlace sys s) {sid miner : ℕ}
    {now : Time} (h : s.step sys (.commit sid miner now) = some t) :
    sid < sys.shardNum ∧ ∃ bc rest, (s.chains sid).pooled = s.packed sys sid ++ rest ∧
      bc.txpool.txQueue = rest.map some ∧
      bc.storage.executedTransaction = (s.chains sid).storage.executedTransaction ∪
        ((s.packed sys sid).map (·.txHash)).toFinset ∧
      bc.partitionMap = (fun _ => none) ∧
      balanceOf bc.currentBlock.header.stateRoot = (s.packed sys sid).foldl (fun bal tx =>
        settle (tx.homes sys.place sid) sid bal tx) (s.balance sid) ∧
      t = { s with
        chains := Function.update s.chains sid bc
        infos := s.infos ++ [RawBroker.blockInfo (sys.cc sid) (s.packed sys sid)]
        ledger := s.ledger ++ executions sys.place sid (s.balance sid) (s.packed sys sid) } := by
  rw [BrokerNet.step] at h
  split at h
  case isFalse => cases h
  rename_i hk
  obtain ⟨⟨bc, infos⟩, hround, rfl⟩ := Option.map_eq_some_iff.mp h
  obtain ⟨packed, rest, htxs, hqueue, hexec, hmap, hfilter, hst, rfl⟩ :=
    brokerRound_spec (hs.freshPool hp hk) hround
  obtain rfl : s.packed sys sid = packed := hfilter
  have hbal := BlockChain.getUpdateStatusTrie_settles hst
  rw [sys.getPartitionMap_eq (hp.placed sid), sys.cc_shardID] at hbal
  exact ⟨hk, bc, rest, htxs, hqueue, hexec, hmap.trans (hp.placed sid), hbal, rfl⟩

/-- What is executed was in its shard. -/
theorem InPlace.commit (hp : InPlace sys s) (hs : AllKnown sys s) {sid miner : ℕ} {now : Time}
    (h : s.step sys (.commit sid miner now) = some t) : InPlace sys t := by
  obtain ⟨hk, bc, rest, htxs, hqueue, hexec, hmap, -, rfl⟩ := BrokerNet.step_commit hs hp h
  have hpool : bc.pooled = rest := BlockChain.pooled_eq hqueue
  refine ⟨fun i => ?_, fun i => ?_, hp.flight, fun i hi tx htx => ?_, fun e he => ?_,
    fun i b hb => ?_⟩
  · dsimp only
    rw [Function.update_apply]
    split
    · exact hmap
    · exact hp.placed i
  · dsimp only
    rw [Function.update_apply]
    split
    · rw [hpool, hqueue]
    · exact hp.queue i
  · dsimp only at htx
    rw [Function.update_apply] at htx
    split at htx
    · rename_i hie
      rw [hpool] at htx
      rw [hie]
      exact hp.pooled sid hk tx (htxs ▸ List.mem_append_right _ htx)
    · exact hp.pooled i hi tx htx
  · rcases List.mem_append.mp he with he | he
    · exact hp.ledger e he
    · have hmem : e.tx ∈ s.packed sys sid := by
        rw [← executions_tx sys.place sid (s.balance sid) (s.packed sys sid)]
        exact List.mem_map_of_mem he
      rw [executions_shard e he]
      exact hp.pooled sid hk e.tx (htxs ▸ List.mem_append_left _ hmem)
  · dsimp only at hb ⊢
    rw [Function.update_apply] at hb
    split at hb
    · rw [hexec] at hb
      rcases Finset.mem_union.mp hb with hb | hb
      · obtain ⟨e, he, heq⟩ := hp.executed sid b hb
        exact ⟨e, List.mem_append_left _ he, heq⟩
      · obtain ⟨tx, htx, rfl⟩ := List.mem_map.mp (List.mem_toFinset.mp hb)
        rw [← executions_tx sys.place sid (s.balance sid) (s.packed sys sid)] at htx
        obtain ⟨e, he, rfl⟩ := List.mem_map.mp htx
        exact ⟨e, List.mem_append_right _ he, rfl⟩
    · obtain ⟨e, he, heq⟩ := hp.executed i b hb
      exact ⟨e, List.mem_append_left _ he, heq⟩

omit [DecidableEq H] in
/-- What kind of transaction is reported where. -/
theorem AllKnown.reported (hs : AllKnown sys s) {tx : Transaction} (htx : tx ∈ s.all sys) :
    (RawBroker.IsBroker1Tx tx → ∃ m ∈ s.raws, m.First tx) ∧
      (RawBroker.IsBroker2Tx tx → ∃ m ∈ s.raws, m.Second tx) := by
  rcases hs.kind tx htx with hplain | ⟨m, hm, hfirst | hsecond⟩
  · refine ⟨fun h => absurd hplain.rawTxHash h.2.1, fun h => absurd hplain.rawTxHash h.1⟩
  · refine ⟨fun _ => ⟨m, hm, hfirst⟩, fun h => ?_⟩
    -- it goes to the broker, who is not the recipient in the end
    exfalso
    have hbroker : m.broker = m.tx.recipient := by
      have heq := h.2
      rw [hfirst] at heq
      exact heq
    exact (hs.raw m hm).1.recipient (hbroker ▸ (hs.raw m hm).1.broker_mem)
  · refine ⟨fun h => absurd ?_ h.1, fun _ => ⟨m, hm, hsecond⟩⟩
    refine ⟨h.2.1, ?_⟩
    rw [hsecond]
    rfl

theorem AllKnown.commit (hs : AllKnown sys s) (hp : InPlace sys s) {sid miner : ℕ} {now : Time}
    (h : s.step sys (.commit sid miner now) = some t) : AllKnown sys t := by
  obtain ⟨hk, bc, rest, htxs, hqueue, -, -, -, ht⟩ := BrokerNet.step_commit hs hp h
  have hall : t.all sys = s.all sys := by
    have hchains : t.chains = Function.update s.chains sid bc := by rw [ht]
    have hflight : t.flight = s.flight := by rw [ht]
    have hledger : t.ledger.map (·.tx) = s.ledger.map (·.tx) ++ s.packed sys sid := by
      rw [ht, List.map_append, executions_tx]
    have hup := BrokerNet.all_update hk hchains
    rw [hflight, hledger, BlockChain.pooled_eq hqueue, htxs, ← Multiset.coe_add,
      ← Multiset.coe_add] at hup
    refine add_right_cancel (b := (s.packed sys sid : Multiset Transaction) + rest +
      (s.flight.flatMap (·.2) : List Transaction) + (s.ledger.map (·.tx) : List Transaction)) ?_
    calc _ = _ := by abel
      _ = _ := hup
      _ = _ := by abel
  have hmem : ∀ tx ∈ s.packed sys sid, tx ∈ s.all sys := fun tx htx =>
    BrokerNet.mem_all_of_pooled hk (htxs ▸ List.mem_append_left _ htx)
  have hinfos : t.infos = s.infos ++ [RawBroker.blockInfo (sys.cc sid) (s.packed sys sid)] := by
    rw [ht]
  refine hs.report hall (by rw [ht]) (by rw [ht]) (by rw [ht]) hinfos ?_ ?_ ?_
  · intro b hb hempty
    obtain rfl := List.mem_singleton.mp hb
    have hnone : s.packed sys sid = [] := List.length_eq_zero_iff.mp hempty
    rw [hnone]
    rfl
  · intro b hb tx htx
    obtain rfl := List.mem_singleton.mp hb
    obtain ⟨htx, hkind⟩ := List.mem_filter.mp htx
    exact ⟨hmem tx htx, (hs.reported (hmem tx htx)).1 (of_decide_eq_true hkind)⟩
  · intro b hb tx htx
    obtain rfl := List.mem_singleton.mp hb
    obtain ⟨htx, hkind⟩ := List.mem_filter.mp htx
    exact ⟨hmem tx htx, (hs.reported (hmem tx htx)).2 (of_decide_eq_true hkind)⟩

/-! ## Transactions that are made -/

namespace AllKnown

omit [DecidableEq H] in
/-- The hash of a transaction tells it. -/
theorem eq_of_txHash (hs : AllKnown sys s) {tx tx' : Transaction} (h : tx ∈ s.all sys)
    (h' : tx' ∈ s.all sys) (heq : tx.txHash = tx'.txHash) : tx = tx' :=
  Multiset.inj_on_of_nodup_map hs.nodup tx h tx' h' heq

omit [DecidableEq H] in
/-- What a transaction was made for is used. -/
theorem rawTxHash_used (hs : AllKnown sys s) {tx : Transaction} (h : tx ∈ s.all sys)
    (hne : tx.rawTxHash ≠ []) : tx.rawTxHash ∈ s.used := by
  rcases hs.kind tx h with hplain | ⟨m, hm, hfirst | hsecond⟩
  · exact absurd hplain.rawTxHash hne
  · rw [hfirst.rawTxHash]
    exact (hs.raw m hm).2
  · rw [hsecond.rawTxHash]
    exact (hs.raw m hm).2

end AllKnown

theorem map_snd_zip_sublist {α β : Type} :
    ∀ (xs : List α) (ys : List β), ((xs.zip ys).map (·.2)).Sublist ys
  | [], ys => List.nil_sublist ys
  | _ :: _, [] => List.Sublist.refl []
  | _ :: xs, y :: ys => (map_snd_zip_sublist xs ys).cons_cons y

/-- How many transactions are made for a raw message. -/
theorem countP_made {made : List (BrokerRawMeg × Bytes)} {f : BrokerRawMeg × Bytes → Transaction}
    {P : Transaction → Prop} [DecidablePred P] {m : BrokerRawMeg}
    (h : ∀ e ∈ made, P (f e) ↔ e.1 = m) :
    (made.map f).countP (fun tx => P tx) = (made.map (·.1)).count m := by
  rw [List.countP_map, List.count, List.countP_map]
  refine List.countP_congr fun e he => ?_
  simp [h e he]

theorem countP_made_zero {made : List (BrokerRawMeg × Bytes)}
    {f : BrokerRawMeg × Bytes → Transaction} {P : Transaction → Prop} [DecidablePred P]
    (h : ∀ e ∈ made, ¬ P (f e)) : (made.map f).countP (fun tx => P tx) = 0 := by
  refine List.countP_eq_zero.mpr fun tx htx => ?_
  obtain ⟨e, he, rfl⟩ := List.mem_map.mp htx
  simpa using h e he

omit [DecidableEq H] in
/-- A transaction that is not raw is plain once it is marked. -/
theorem Transaction.Raw.plain {bcm : BrokerCommitteeMod} {tx : Transaction}
    (h : tx.Raw sys.addresses) (hb : bcm.broker.brokerAddress = sys.brokerAddress)
    (hc : ¬ Crossing sys.params bcm tx) : (markBroker bcm tx).Plain sys := by
  have hbroker : ∀ a, bcm.broker.isBroker a ↔ a ∈ sys.brokerAddress := by
    intro a
    rw [Broker.isBroker, hb]
  rw [markBroker]
  split
  · rename_i hends
    rw [hbroker, hbroker] at hends
    exact ⟨h.rawTxHash, h.relayed, iff_of_true rfl hends, fun hf => absurd hf Bool.noConfusion,
      h.sender, h.recipient⟩
  · rename_i hends
    rw [hbroker, hbroker] at hends
    refine ⟨h.rawTxHash, h.relayed, ?_, fun _ => ?_, h.sender, h.recipient⟩
    · rw [h.hasBroker]
      exact iff_of_false Bool.false_ne_true hends
    · by_contra hne
      rw [Crossing, hbroker, hbroker] at hc
      exact hc ⟨hne, not_or.mp hends⟩

/-! ## A batch is handled -/

/-- What a batch does: raw messages are new, and what is made is made for them, or plain. -/
structure Batched (sys : BrokerSystem H) (s t : BrokerNet H) (made : List (BrokerRawMeg × Bytes))
    (plain : List Transaction) : Prop where
  /-- it is sent -/
  sends : Sends sys s t (made.map (fun e => newBroker1Tx e.1 e.2) ++ plain)
  /-- no two raw messages have the same hash -/
  nodup : ((made.map (·.1)).map (·.tx.txHash)).Nodup
  /-- they are valid, and their hashes are new -/
  valid : ∀ e ∈ made, e.1.Valid sys ∧ e.1.tx.txHash ∉ s.used ∧ e.1.tx.txHash ∈ t.used
  /-- the rest is plain -/
  plain : ∀ tx ∈ plain, tx.Plain sys
  /-- raw messages are noted -/
  raws : ∀ m, m ∈ t.raws ↔ m ∈ s.raws ∨ m ∈ made.map (·.1)
  /-- with their first transactions -/
  confirm1 : t.committee.brokerConfirm1Pool = confirm1s s.committee.brokerConfirm1Pool made
  /-- block informations are as before -/
  handled : t.handled = s.handled

theorem BrokerNet.step_batch (hs : AllKnown sys s) {txs : List Transaction} {hashes : List Bytes}
    (h : s.step sys (.batch txs hashes) = some t) : ∃ made plain, Batched sys s t made plain := by
  rw [BrokerNet.step] at h
  split at h
  case isFalse => cases h
  rename_i hok
  obtain ⟨⟨hnd, hnew⟩, hraw⟩ := hok
  obtain ⟨⟨bcm, sent⟩, hbatch, rfl⟩ := Option.map_eq_some_iff.mp h
  obtain ⟨raws, plain, hsort, hlen, rfl, hperm, hroute⟩ := handleBatch_spec sys.pos hbatch
  obtain ⟨hraws, hplain, hhash⟩ := sortTxs_spec hsort
  have hfst : (raws.zip hashes).map (·.1) = raws := List.map_fst_zip hlen
  have hsnd := map_snd_zip_sublist raws hashes
  rw [List.nodup_append] at hnd
  have hnd' := hhash.nodup_iff.mpr hnd.1
  rw [List.nodup_append] at hnd'
  have hplainHash : ∀ h ∈ plain.map (·.txHash), h ∈ txs.map (·.txHash) :=
    fun h hh => hhash.subset (List.mem_append_right _ hh)
  have hmem : ∀ h ∈ txs.map (·.txHash) ++ hashes,
      h ∈ s.used ∪ (txs.map (·.txHash) ++ hashes).toFinset :=
    fun h hh => Finset.mem_union_right _ (List.mem_toFinset.mpr hh)
  have hmade : ((raws.zip hashes).map fun e => newBroker1Tx e.1 e.2).map (·.txHash) =
      (raws.zip hashes).map (·.2) := by
    rw [List.map_map]
    rfl
  refine ⟨raws.zip hashes, plain, ⟨⟨sent, hperm, fun e he => ?_, rfl⟩, ?_, fun tx htx => ?_,
    Finset.subset_union_left, hs.brokers, rfl, rfl, rfl⟩, ?_, fun e he => ?_, fun tx htx => ?_,
    fun m => ?_, rfl, rfl⟩
  · obtain ⟨hlt, hall⟩ := hroute e he
    exact ⟨hlt, fun tx htx => (sys.senderShard_eq hs.brokers tx).symm.trans (hall tx htx)⟩
  · rw [List.map_append, hmade]
    refine List.nodup_append.mpr ⟨hnd.2.1.sublist hsnd, hnd'.2.1, fun a ha b hb => ?_⟩
    exact (hnd.2.2 b (hplainHash b hb) a (hsnd.subset ha)).symm
  · have hall : tx.txHash ∈ txs.map (·.txHash) ++ hashes := by
      rcases List.mem_append.mp htx with htx | htx
      · refine List.mem_append_right _ (hsnd.subset ?_)
        rw [← hmade]
        exact List.mem_map_of_mem htx
      · exact List.mem_append_left _ (hplainHash _ (List.mem_map_of_mem htx))
    exact ⟨(hnew _ hall).1, (hnew _ hall).2, hmem _ hall⟩
  · rw [hfst]
    exact hnd'.1
  · obtain ⟨htx, hcross, hbroker⟩ := hraws e.1 (hfst ▸ List.mem_map_of_mem he)
    have hall : e.1.tx.txHash ∈ txs.map (·.txHash) ++ hashes :=
      List.mem_append_left _ (List.mem_map_of_mem htx)
    rw [Crossing, Broker.isBroker, Broker.isBroker, hs.brokers] at hcross
    rw [hs.brokers] at hbroker
    exact ⟨⟨(hnew _ hall).1, hcross.1, hcross.2.2, hcross.2.1, hbroker, (hraw _ htx).sender,
      (hraw _ htx).recipient⟩, (hnew _ hall).2, hmem _ hall⟩
  · obtain ⟨t', ht', hcross, rfl⟩ := hplain tx htx
    exact (hraw t' ht').plain hs.brokers hcross
  · rw [hfst, ← List.mem_toFinset]
    exact Finset.mem_union

omit [DecidableEq H] in
/-- Nothing was made for a raw message that is new. -/
theorem AllKnown.none_made (hs : AllKnown sys s) {m : BrokerRawMeg} (hne : m.tx.txHash ≠ [])
    (hnew : m.tx.txHash ∉ s.used) {tx : Transaction} (htx : tx ∈ s.all sys) :
    ¬ m.First tx ∧ ¬ m.Second tx := by
  constructor
  · intro h
    exact hnew (h.rawTxHash ▸ hs.rawTxHash_used htx (h.rawTxHash ▸ hne))
  · intro h
    exact hnew (h.rawTxHash ▸ hs.rawTxHash_used htx (h.rawTxHash ▸ hne))

namespace Batched

variable {made : List (BrokerRawMeg × Bytes)} {plain : List Transaction} {m : BrokerRawMeg}

omit [DecidableEq H] in
/-- What was sent is old, made for a raw message, or plain. -/
theorem mem_all (h : Batched sys s t made plain) {tx : Transaction} (htx : tx ∈ t.all sys) :
    tx ∈ s.all sys ∨ (∃ e ∈ made, tx = newBroker1Tx e.1 e.2) ∨ tx ∈ plain := by
  refine (h.sends.mem_all.mp htx).imp_right fun htx => ?_
  refine (List.mem_append.mp htx).imp_left fun htx => ?_
  obtain ⟨e, he, rfl⟩ := List.mem_map.mp htx
  exact ⟨e, he, rfl⟩

omit [DecidableEq H] in
theorem mem_raws (h : Batched sys s t made plain) {e : BrokerRawMeg × Bytes} (he : e ∈ made) :
    e.1 ∈ t.raws := (h.raws e.1).mpr (.inr (List.mem_map_of_mem he))

omit [DecidableEq H] in
theorem raw (h : Batched sys s t made plain) (hs : AllKnown sys s) :
    ∀ m ∈ t.raws, m.Valid sys ∧ m.tx.txHash ∈ t.used := by
  intro m hm
  rcases (h.raws m).mp hm with hm | hm
  · exact ⟨(hs.raw m hm).1, h.sends.used (hs.raw m hm).2⟩
  · obtain ⟨e, he, rfl⟩ := List.mem_map.mp hm
    exact ⟨(h.valid e he).1, (h.valid e he).2.2⟩

omit [DecidableEq H] in
/-- The hash of a raw message tells it. -/
theorem rawHash (h : Batched sys s t made plain) (hs : AllKnown sys s) :
    ∀ m ∈ t.raws, ∀ m' ∈ t.raws, m.tx.txHash = m'.tx.txHash → m = m' := by
  intro m hm m' hm' heq
  rcases (h.raws m).mp hm with hm | hm
  · rcases (h.raws m').mp hm' with hm' | hm'
    · exact hs.rawHash m hm m' hm' heq
    · obtain ⟨e, he, rfl⟩ := List.mem_map.mp hm'
      exact absurd (heq ▸ (hs.raw m hm).2) (h.valid e he).2.1
  · rcases (h.raws m').mp hm' with hm' | hm'
    · obtain ⟨e, he, rfl⟩ := List.mem_map.mp hm
      exact absurd (heq ▸ (hs.raw m' hm').2) (h.valid e he).2.1
    · exact List.inj_on_of_nodup_map h.nodup hm hm' heq

omit [DecidableEq H] in
/-- Which raw message a first transaction is made for. -/
theorem first_iff (h : Batched sys s t made plain) (hs : AllKnown sys s) (hm : m ∈ t.raws)
    {e : BrokerRawMeg × Bytes} (he : e ∈ made) : m.First (newBroker1Tx e.1 e.2) ↔ e.1 = m := by
  refine ⟨fun hfirst => ?_, fun heq => heq ▸ e.1.first_new e.2⟩
  exact h.rawHash hs e.1 (h.mem_raws he) m hm hfirst.rawTxHash

omit [DecidableEq H] in
theorem plain_not (h : Batched sys s t made plain) (hs : AllKnown sys s) (hm : m ∈ t.raws)
    {tx : Transaction} (htx : tx ∈ plain) : ¬ m.First tx ∧ ¬ m.Second tx := by
  have hne := (h.raw hs m hm).1.txHash
  rw [← not_or]
  rintro (hkind | hkind)
  · exact hne (hkind.rawTxHash ▸ (h.plain tx htx).rawTxHash)
  · exact hne (hkind.rawTxHash ▸ (h.plain tx htx).rawTxHash)

omit [DecidableEq H] in
/-- Nothing was made before for a raw message of the batch. -/
theorem none_made (h : Batched sys s t made plain) (hs : AllKnown sys s)
    (hm : m ∈ made.map (·.1)) {tx : Transaction} (htx : tx ∈ s.all sys) :
    ¬ m.First tx ∧ ¬ m.Second tx := by
  obtain ⟨e, he, rfl⟩ := List.mem_map.mp hm
  exact hs.none_made (h.valid e he).1.txHash (h.valid e he).2.1 htx

omit [DecidableEq H] in
/-- One first transaction is made for each raw message. -/
theorem once (h : Batched sys s t made plain) (hs : AllKnown sys s) (hm : m ∈ t.raws) :
    (t.all sys).countP m.First = 1 := by
  have hplain : plain.countP (fun tx => m.First tx) = 0 :=
    List.countP_eq_zero.mpr fun tx htx => by simpa using (h.plain_not hs hm htx).1
  rw [h.sends.countP, List.countP_append, hplain, add_zero,
    countP_made fun e he => h.first_iff hs hm he]
  rcases (h.raws m).mp hm with hold | hin
  · rw [hs.once m hold, List.count_eq_zero_of_not_mem fun hin => ?_]
    obtain ⟨e, he, rfl⟩ := List.mem_map.mp hin
    exact (h.valid e he).2.1 (hs.raw _ hold).2
  · have hnone : (s.all sys).countP m.First = 0 :=
      Multiset.countP_eq_zero.mpr fun tx htx => (h.none_made hs hin htx).1
    rw [hnone, List.count_eq_one_of_mem (List.Nodup.of_map _ h.nodup) hin]

omit [DecidableEq H] in
/-- No second transaction is made. -/
theorem second (h : Batched sys s t made plain) (hs : AllKnown sys s) (hm : m ∈ t.raws) :
    (t.all sys).countP m.Second = t.named m := by
  have hplain : plain.countP (fun tx => m.Second tx) = 0 :=
    List.countP_eq_zero.mpr fun tx htx => by simpa using (h.plain_not hs hm htx).2
  have hmade : (made.map fun e => newBroker1Tx e.1 e.2).countP (fun tx => m.Second tx) = 0 :=
    countP_made_zero fun e he => (e.1.first_new e.2).not_second (h.valid e he).1 (h.raw hs m hm).1
  rw [h.sends.countP, List.countP_append, hplain, hmade, add_zero, add_zero, BrokerNet.named,
    h.handled]
  rcases (h.raws m).mp hm with hold | hin
  · exact hs.second m hold
  · have hnone : (s.all sys).countP m.Second = 0 :=
      Multiset.countP_eq_zero.mpr fun tx htx => (h.none_made hs hin htx).2
    rw [hnone, eq_comm]
    refine List.sum_eq_zero fun n hn => ?_
    obtain ⟨b, hb, rfl⟩ := List.mem_map.mp hn
    refine List.countP_eq_zero.mpr fun tx htx => ?_
    obtain ⟨hmem, -⟩ := hs.infos₁ b (hs.handled b hb) tx htx
    simpa using (h.none_made hs hin hmem).1

omit [DecidableEq H] in
theorem nodup_hashes (h : Batched sys s t made plain) : (made.map (·.2)).Nodup := by
  have hnd := h.sends.nodup
  rw [List.map_append, List.nodup_append, List.map_map] at hnd
  exact hnd.1

omit [DecidableEq H] in
/-- First transactions are noted. -/
theorem noted (h : Batched sys s t made plain) (hs : AllKnown sys s) (hm : m ∈ t.raws)
    {tx : Transaction} (htx : tx ∈ t.all sys) (hfirst : m.First tx) :
    t.committee.brokerConfirm1Pool tx.txHash = some ⟨tx.txHash, m⟩ := by
  rw [h.confirm1]
  rcases h.mem_all htx with htx | ⟨e, he, rfl⟩ | htx
  · rw [confirm1s_of_notMem fun hin => ?_]
    · rcases (h.raws m).mp hm with hold | hin
      · exact hs.confirm1 m hold tx htx hfirst
      · exact absurd hfirst (h.none_made hs hin htx).1
    · -- its hash would be new
      obtain ⟨e, he, heq⟩ := List.mem_map.mp hin
      have hnew := h.sends.fresh (newBroker1Tx e.1 e.2)
        (List.mem_append_left _ (List.mem_map.mpr ⟨e, he, rfl⟩))
      exact hnew.2.1 (heq ▸ (hs.used tx htx).2)
  · obtain rfl := (h.first_iff hs hm he).mp hfirst
    exact confirm1s_of_mem h.nodup_hashes he
  · exact absurd hfirst (h.plain_not hs hm htx).1

omit [DecidableEq H] in
/-- Nothing else is. -/
theorem confirmed (h : Batched sys s t made plain) (hs : AllKnown sys s) {b : Bytes}
    {c : Mag1Confirm} (hc : t.committee.brokerConfirm1Pool b = some c) :
    c.rawMeg ∈ t.raws ∧ ∃ tx ∈ t.all sys, tx.txHash = b ∧ c.rawMeg.First tx := by
  rw [h.confirm1] at hc
  by_cases hin : b ∈ made.map (·.2)
  · obtain ⟨e, he, rfl⟩ := List.mem_map.mp hin
    rw [confirm1s_of_mem h.nodup_hashes he] at hc
    obtain rfl := Option.some.inj hc
    have hmem : newBroker1Tx e.1 e.2 ∈ t.all sys := h.sends.mem_all.mpr
      (.inr (List.mem_append_left _ (List.mem_map.mpr ⟨e, he, rfl⟩)))
    exact ⟨h.mem_raws he, newBroker1Tx e.1 e.2, hmem, rfl, e.1.first_new e.2⟩
  · rw [confirm1s_of_notMem hin] at hc
    obtain ⟨hm, tx, htx, hrest⟩ := hs.confirmed b c hc
    exact ⟨(h.raws _).mpr (.inl hm), tx, h.sends.mem_all.mpr (.inl htx), hrest⟩

end Batched

theorem AllKnown.batch (hs : AllKnown sys s) {txs : List Transaction} {hashes : List Bytes}
    (h : s.step sys (.batch txs hashes) = some t) : AllKnown sys t := by
  obtain ⟨made, plain, h⟩ := BrokerNet.step_batch hs h
  have hraws : ∀ m ∈ s.raws, m ∈ t.raws := fun m hm => (h.raws m).mpr (.inl hm)
  refine ⟨h.sends.brokers, h.sends.nodup_all hs, h.sends.used_all hs, fun tx htx => ?_, h.raw hs,
    h.rawHash hs, fun m hm => h.once hs hm, fun m hm => h.second hs hm,
    fun m hm tx htx hfirst => h.noted hs hm htx hfirst, fun b c hc => h.confirmed hs hc, ?_,
    h.sends.reported hraws hs.infos₁, h.sends.reported hraws hs.infos₂, ?_⟩
  · rcases h.mem_all htx with htx | ⟨e, he, rfl⟩ | htx
    · exact (hs.kind tx htx).imp_right fun ⟨m, hm, hkind⟩ => ⟨m, hraws m hm, hkind⟩
    · exact .inr ⟨e.1, h.mem_raws he, .inl (e.1.first_new e.2)⟩
    · exact .inl (h.plain tx htx)
  · rw [h.sends.infos]
    exact hs.empty
  · rw [h.handled, h.sends.infos]
    exact hs.handled

/-! ## A block information is handled -/

omit [DecidableEq H] in
/-- The raw messages that a block information names: those of its first transactions. -/
theorem AllKnown.namedRaws_spec (hs : AllKnown sys s) {b : BrokerInfoMsg} (hb : b ∈ s.infos) :
    (∀ m ∈ namedRaws s.committee b, m ∈ s.raws) ∧
      ∀ m ∈ s.raws, (namedRaws s.committee b).count m = b.broker1Txs.countP m.First := by
  have hmem : ∀ m ∈ namedRaws s.committee b, m ∈ s.raws := by
    intro m hm
    rw [namedRaws] at hm
    split at hm
    · exact absurd hm List.not_mem_nil
    · obtain ⟨c, hc, rfl⟩ := List.mem_map.mp hm
      obtain ⟨tx, -, htx⟩ := List.mem_filterMap.mp hc
      exact (hs.confirmed _ c htx).1
  refine ⟨hmem, fun m hm => ?_⟩
  rw [namedRaws]
  split
  · rename_i hempty
    rw [hs.empty b hb hempty]
    rfl
  · have hnone : b.broker2Txs.filterMap (fun tx => s.committee.brokerConfirm1Pool tx.txHash) = [] := by
      refine List.filterMap_eq_nil_iff.mpr fun tx htx => Option.eq_none_iff_forall_ne_some.mpr ?_
      intro c hc
      obtain ⟨hall, m', hm', hsecond⟩ := hs.infos₂ b hb tx htx
      obtain ⟨hmc, tx', htx', heq, hfirst⟩ := hs.confirmed _ c hc
      rw [hs.eq_of_txHash htx' hall heq] at hfirst
      exact hfirst.not_second (hs.raw _ hmc).1 (hs.raw m' hm').1 hsecond
    rw [List.filterMap_append, hnone, List.append_nil]
    have hfirst : ∀ tx ∈ b.broker1Txs, ∃ m' ∈ s.raws, m'.First tx ∧
        s.committee.brokerConfirm1Pool tx.txHash = some ⟨tx.txHash, m'⟩ := by
      intro tx htx
      obtain ⟨hall, m', hm', hkind⟩ := hs.infos₁ b hb tx htx
      exact ⟨m', hm', hkind, hs.confirm1 m' hm' tx hall hkind⟩
    generalize b.broker1Txs = txs at hfirst ⊢
    induction txs with
    | nil => rfl
    | cons tx txs ih =>
      obtain ⟨m', hm', hkind, hconf⟩ := hfirst tx List.mem_cons_self
      have hsame : m' = m ↔ m.First tx :=
        ⟨fun h => h ▸ hkind, fun h => hs.first_unique hm' hm hkind h⟩
      have hcons : (tx :: txs).filterMap (fun tx => s.committee.brokerConfirm1Pool tx.txHash) =
          ⟨tx.txHash, m'⟩ ::
            txs.filterMap fun tx => s.committee.brokerConfirm1Pool tx.txHash :=
        List.filterMap_cons_some hconf
      rw [hcons, List.map_cons, List.count_cons, List.countP_cons,
        ih fun t ht => hfirst t (List.mem_cons_of_mem _ ht)]
      simp [hsame]

/-- What a block information does: a second transaction is made for each raw message it
names. -/
theorem BrokerNet.step_blockInfo (hs : AllKnown sys s) {k : ℕ} {hashes : List Bytes}
    (h : s.step sys (.blockInfo k hashes) = some t) :
    ∃ b, ∃ made : List (BrokerRawMeg × Bytes), s.infos[k]? = some b ∧
      made.map (·.1) = namedRaws s.committee b ∧
      Sends sys s t (made.map fun e => newBroker2Tx e.1 e.2) ∧ t.raws = s.raws ∧
      t.committee.brokerConfirm1Pool = s.committee.brokerConfirm1Pool ∧
      t.handled = s.handled ++ [b] := by
  rw [BrokerNet.step] at h
  split at h
  case isFalse => cases h
  rename_i hok
  obtain ⟨hnd, hnew⟩ := hok
  obtain ⟨b, hb, h⟩ := Option.bind_eq_some_iff.mp h
  obtain ⟨⟨bcm, sent⟩, hinfo, rfl⟩ := Option.map_eq_some_iff.mp h
  have hnamed := (hs.namedRaws_spec (List.mem_of_getElem? hb)).1
  obtain ⟨hlen, ⟨notes, pool, rfl⟩, hperm, hroute⟩ := handleBlockInfo_spec sys.pos
    (fun m hm => ⟨hnamed m hm, hs.brokers ▸ (hs.raw m (hnamed m hm)).1.broker⟩) hinfo
  have hsnd := map_snd_zip_sublist (namedRaws s.committee b) hashes
  have hmade : ((((namedRaws s.committee b).zip hashes).map fun e => newBroker2Tx e.1 e.2).map
      (·.txHash)) = ((namedRaws s.committee b).zip hashes).map (·.2) := by
    rw [List.map_map]
    rfl
  refine ⟨b, (namedRaws s.committee b).zip hashes, hb, List.map_fst_zip hlen,
    ⟨⟨sent, hperm, fun e he => ?_, rfl⟩, ?_, fun tx htx => ?_, Finset.subset_union_left,
      hs.brokers, rfl, rfl, rfl⟩, rfl, rfl, rfl⟩
  · obtain ⟨hlt, hall⟩ := hroute e he
    exact ⟨hlt, fun tx htx => (sys.senderShard_eq hs.brokers tx).symm.trans (hall tx htx)⟩
  · rw [hmade]
    exact hnd.sublist hsnd
  · have hin : tx.txHash ∈ hashes := by
      refine hsnd.subset ?_
      rw [← hmade]
      exact List.mem_map_of_mem htx
    exact ⟨(hnew _ hin).1, (hnew _ hin).2, Finset.mem_union_right _ (List.mem_toFinset.mpr hin)⟩

theorem AllKnown.blockInfo (hs : AllKnown sys s) {k : ℕ} {hashes : List Bytes}
    (h : s.step sys (.blockInfo k hashes) = some t) : AllKnown sys t := by
  obtain ⟨b, made, hb, hfst, hsends, htraws, hpool, hhandled⟩ := BrokerNet.step_blockInfo hs h
  obtain ⟨hnamedRaws, hcountRaws⟩ := hs.namedRaws_spec (List.mem_of_getElem? hb)
  have hmemraw : ∀ e ∈ made, e.1 ∈ s.raws :=
    fun e he => hnamedRaws e.1 (hfst ▸ List.mem_map_of_mem he)
  have hmem : ∀ tx ∈ t.all sys, tx ∈ s.all sys ∨ ∃ e ∈ made, tx = newBroker2Tx e.1 e.2 := by
    intro tx htx
    refine (hsends.mem_all.mp htx).imp_right fun htx => ?_
    obtain ⟨e, he, rfl⟩ := List.mem_map.mp htx
    exact ⟨e, he, rfl⟩
  have hsecond : ∀ m ∈ s.raws, ∀ e ∈ made, m.Second (newBroker2Tx e.1 e.2) ↔ e.1 = m := by
    intro m hm e he
    refine ⟨fun h => ?_, fun h => h ▸ e.1.second_new e.2⟩
    exact hs.rawHash e.1 (hmemraw e he) m hm h.rawTxHash
  -- none of those that are made is a first transaction
  have hfirst : ∀ m ∈ s.raws, ∀ e ∈ made, ¬ m.First (newBroker2Tx e.1 e.2) := by
    intro m hm e he h
    exact h.not_second (hs.raw m hm).1 (hs.raw e.1 (hmemraw e he)).1 (e.1.second_new e.2)
  have hraws : ∀ m ∈ s.raws, m ∈ t.raws := fun m hm => htraws ▸ hm
  refine ⟨hsends.brokers, hsends.nodup_all hs, hsends.used_all hs, fun tx htx => ?_, ?_, ?_,
    fun m hm => ?_, fun m hm => ?_, fun m hm tx htx hm₁ => ?_, fun h c hc => ?_, ?_,
    hsends.reported hraws hs.infos₁, hsends.reported hraws hs.infos₂, fun b' hb' => ?_⟩
  · rw [htraws]
    rcases hmem tx htx with htx | ⟨e, he, rfl⟩
    · exact hs.kind tx htx
    · exact .inr ⟨e.1, hmemraw e he, .inr (e.1.second_new e.2)⟩
  · rw [htraws]
    exact fun m hm => ⟨(hs.raw m hm).1, hsends.used (hs.raw m hm).2⟩
  · rw [htraws]
    exact hs.rawHash
  · rw [htraws] at hm
    rw [hsends.countP, countP_made_zero (hfirst m hm), hs.once m hm]
  · rw [htraws] at hm
    rw [hsends.countP, countP_made (hsecond m hm), hfst, hcountRaws m hm, hs.second m hm,
      BrokerNet.named, BrokerNet.named, hhandled, List.map_append, List.sum_append,
      List.map_singleton, List.sum_singleton]
  · rw [htraws] at hm
    rw [hpool]
    rcases hmem tx htx with htx | ⟨e, he, rfl⟩
    · exact hs.confirm1 m hm tx htx hm₁
    · exact absurd hm₁ (hfirst m hm e he)
  · rw [hpool] at hc
    obtain ⟨hm, tx, htx, hrest⟩ := hs.confirmed h c hc
    exact ⟨hraws _ hm, tx, hsends.mem_all.mpr (.inl htx), hrest⟩
  · rw [hsends.infos]
    exact hs.empty
  · rw [hhandled] at hb'
    rw [hsends.infos]
    rcases List.mem_append.mp hb' with hb' | hb'
    · exact hs.handled b' hb'
    · exact List.mem_singleton.mp hb' ▸ List.mem_of_getElem? hb

/-! ## Every step -/

/-- The invariant: every transaction is in its place and accounted for. -/
structure BrokerSound (sys : BrokerSystem H) (s : BrokerNet H) : Prop where
  /-- where transactions are -/
  inPlace : InPlace sys s
  /-- what they are -/
  known : AllKnown sys s

omit [DecidableEq H] in
theorem BrokerSound.start : BrokerSound sys (BrokerNet.start sys) := ⟨.start, .start⟩

/-- **Every step keeps transactions where they belong and accounted for.** -/
theorem BrokerSound.step (hs : BrokerSound sys s) (h : s.step sys a = some t) :
    BrokerSound sys t := by
  obtain ⟨hp, hk⟩ := hs
  cases a with
  | batch txs hashes =>
    obtain ⟨made, plain, hbatch⟩ := BrokerNet.step_batch hk h
    exact ⟨hbatch.sends.inPlace hp, hk.batch h⟩
  | deliver k => exact ⟨hp.deliver h, hk.deliver hp h⟩
  | commit sid miner now => exact ⟨hp.commit hk h, hk.commit hp h⟩
  | blockInfo k hashes =>
    obtain ⟨b, made, -, -, hsends, -⟩ := BrokerNet.step_blockInfo hk h
    exact ⟨hsends.inPlace hp, hk.blockInfo h⟩

end BlockEmulator
