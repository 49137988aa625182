import BlockEmulator.BrokerRoutes
import BlockEmulator.PartitionResult

/-!
# The CLPA committee with brokers (`committee_clpa_broker.go`)

It handles batches and block informations as the broker committee does, over the routes of
the last partition. Block informations also draw the graph that the next partition is made
of, and inner-shard transactions that a partition has torn apart come back to it.

* `handleBatch_eq`, `handleBlockInfo_eq_some` — what is done for the brokers, over its routes.
* `ClpaSound` — **accounts are in shards that exist**, after any partition.
-/

namespace BlockEmulator

open Partition CLPAState

/-- `CLPACommitteeMod_Broker`, without what reads the data set. -/
structure CLPACommitteeModBroker (F : Type) where
  /-- the brokers and the confirmations, which the broker committee has too -/
  toBroker : BrokerCommitteeMod
  /-- `modifiedMap` -/
  modifiedMap : Address → Option ℕ
  /-- `clpaGraph` -/
  clpaGraph : CLPAState F
  /-- `curEpoch` -/
  curEpoch : ℕ

namespace CLPACommitteeModBroker

variable {F H : Type} (fl : FloatOps F) (p : BrokerParams H)

/-- A new graph: `Init_CLPAState(0.5, 100, params.ShardNum)`, with labels put in. -/
def newGraph (modifiedMap : Address → Option ℕ) : CLPAState F :=
  .init (fl.div (fl.ofInt 1) (fl.ofInt 2)) 100 p.shardNum modifiedMap

/-- `NewCLPACommitteeMod_Broker`. -/
def new (brokerAddress : List Address) : CLPACommitteeModBroker F where
  toBroker := .new brokerAddress
  modifiedMap _ := none
  clpaGraph := newGraph fl p fun _ => none
  curEpoch := 0

variable (ccm : CLPACommitteeModBroker F)

/-- `fetchModifiedMap`. -/
def fetchModifiedMap (key : Address) : ℕ :=
  (ccm.modifiedMap key).getD (addr2ShardWithShardNum p.hash key p.shardNum)

/-- The routes of the last partition. -/
def routes : BrokerRoutes := ⟨ccm.fetchModifiedMap p, p.shardNum, p.injectSpeed⟩

/-! ## Batches -/

/-- `txSending`. -/
def txSending (txlist : List Transaction) : Option (List (ℕ × List Transaction)) :=
  (ccm.routes p).txSending ccm.toBroker txlist

/-- `dealTxByBroker`. -/
def dealTxByBroker (txs : List Transaction) (hashes : List Bytes) :
    Option (CLPACommitteeModBroker F × List (ℕ × List Transaction) × List Transaction) :=
  ((ccm.routes p).dealTxByBroker ccm.toBroker txs hashes).map fun s =>
    ({ ccm with toBroker := s.1 }, s.2)

/-- A batch in the loop of `MsgSendingControl`: `dealTxByBroker`, and the transactions it
returns are sent. -/
def handleBatch (txlist : List Transaction) (hashes : List Bytes) :
    Option (CLPACommitteeModBroker F × List (ℕ × List Transaction)) :=
  (ccm.dealTxByBroker p txlist hashes).bind fun s =>
    (s.1.txSending p s.2.2).map fun sent => (s.1, s.2.1 ++ sent)

/-- `HandleOtherMessage`, for inner-shard transactions that now cross shards. -/
def handleOtherMessage (txs : List Transaction) (hashes : List Bytes) :
    Option (CLPACommitteeModBroker F × List (ℕ × List Transaction)) :=
  (ccm.dealTxByBroker p txs hashes).bind fun s =>
    (s.1.txSending p s.2.2).map fun sent => (s.1, s.2.1 ++ sent)

/-! ## Block informations -/

/-- `createConfirm`. -/
def createConfirm (txs : List Transaction) (hashes : List Bytes) :
    Option (CLPACommitteeModBroker F × List (ℕ × List Transaction)) :=
  ((ccm.routes p).createConfirm ccm.toBroker txs hashes).map fun s =>
    ({ ccm with toBroker := s.1 }, s.2)

/-- The edges that a block information draws: inner-shard transactions without a broker,
and raw transactions by their first ones. -/
def infoEdges (b : BrokerInfoMsg) : List (Vertex × Vertex) :=
  (b.innerShardTxs.filter fun tx => !tx.hasBroker).map (fun tx => (tx.sender, tx.recipient)) ++
    b.broker1Txs.map fun tx => (tx.originalSender, tx.finalRecipient)

/-- `HandleBlockInfo`. -/
def handleBlockInfo (b : BrokerInfoMsg) (hashes : List Bytes) :
    Option (CLPACommitteeModBroker F × List (ℕ × List Transaction)) :=
  let ccm := if ccm.curEpoch + 1 = b.epoch then { ccm with curEpoch := b.epoch } else ccm
  if b.blockBodyLength = 0 then some (ccm, [])
  else (ccm.createConfirm p (b.broker1Txs ++ b.broker2Txs) hashes).bind fun s =>
    (s.1.clpaGraph.build p.hash (drawEdges (infoEdges b))).map fun clpaGraph =>
      ({ s.1 with clpaGraph := clpaGraph }, s.2)

/-! ## Partitions -/

/-- `clpaMapSend`: the new placement, to every shard. -/
def clpaMapSend (m : Address → Option ℕ) : List (ℕ × (Address → Option ℕ)) :=
  (List.range p.shardNum).map fun i => (i, m)

/-- `clpaReset`. -/
def clpaReset : CLPACommitteeModBroker F := { ccm with clpaGraph := newGraph fl p ccm.modifiedMap }

/-- A partition in the loops of `MsgSendingControl`. -/
def repartition (orders : ℕ → List Vertex) :
    Option (CLPACommitteeModBroker F × List (ℕ × (Address → Option ℕ))) :=
  (ccm.clpaGraph.clpaPartition fl orders).map fun r =>
    (clpaReset fl p { ccm with modifiedMap := fun key => (r.1 key).or (ccm.modifiedMap key) },
      clpaMapSend p r.1)

/-! ## What is done for the brokers -/

variable {fl} {p} {ccm} {ccm' : CLPACommitteeModBroker F}

/-- **A batch** is handled over the routes of the last partition. -/
theorem handleBatch_eq (txs : List Transaction) (hashes : List Bytes) :
    ccm.handleBatch p txs hashes = ((ccm.routes p).handleBatch ccm.toBroker txs hashes).map
      fun s => ({ ccm with toBroker := s.1 }, s.2) := by
  rw [handleBatch, dealTxByBroker, BrokerRoutes.handleBatch, Option.bind_map, Option.map_bind]
  refine Option.bind_congr fun s _ => ?_
  rw [Function.comp_apply, Function.comp_apply, Option.map_map]
  rfl

/-- **A block information** with a body. -/
theorem handleBlockInfo_eq_some {b : BrokerInfoMsg} {hashes : List Bytes}
    {sent : List (ℕ × List Transaction)} (h : ccm.handleBlockInfo p b hashes = some (ccm', sent)) :
    ccm'.modifiedMap = ccm.modifiedMap ∧
      (b.blockBodyLength = 0 ∧ ccm'.toBroker = ccm.toBroker ∧ sent = [] ∧
          ccm'.clpaGraph = ccm.clpaGraph ∨
        b.blockBodyLength ≠ 0 ∧
          (ccm.routes p).createConfirm ccm.toBroker (b.broker1Txs ++ b.broker2Txs) hashes =
            some (ccm'.toBroker, sent) ∧
          ccm.clpaGraph.build p.hash (drawEdges (infoEdges b)) = some ccm'.clpaGraph) := by
  -- the epoch is of no account
  have hepoch : ∃ n, (if ccm.curEpoch + 1 = b.epoch then { ccm with curEpoch := b.epoch }
      else ccm) = { ccm with curEpoch := n } := by
    split
    · exact ⟨_, rfl⟩
    · exact ⟨ccm.curEpoch, rfl⟩
  obtain ⟨n, hn⟩ := hepoch
  rw [handleBlockInfo] at h
  simp only [hn] at h
  split at h
  · rename_i hempty
    obtain ⟨rfl, rfl⟩ := Prod.mk.inj (Option.some.inj h)
    exact ⟨rfl, .inl ⟨hempty, rfl, rfl, rfl⟩⟩
  · rename_i hbody
    obtain ⟨⟨ccm₁, sent₁⟩, hconfirm, h⟩ := Option.bind_eq_some_iff.mp h
    obtain ⟨graph, hgraph, heq⟩ := Option.map_eq_some_iff.mp h
    obtain ⟨rfl, rfl⟩ := Prod.mk.inj heq
    rw [createConfirm] at hconfirm
    obtain ⟨⟨bcm, sent₂⟩, hcreate, heq⟩ := Option.map_eq_some_iff.mp hconfirm
    obtain ⟨rfl, rfl⟩ := Prod.mk.inj heq
    exact ⟨rfl, .inr ⟨hbody, hcreate, hgraph⟩⟩

/-! ## Routes -/

/-- What is true of every state: the graph was built by calls, and what was placed is in a
shard that exists. -/
structure ClpaSound (p : BrokerParams H) (ccm : CLPACommitteeModBroker F) : Prop where
  /-- what was placed is in a shard -/
  placed : ∀ a k, ccm.modifiedMap a = some k → k < p.shardNum
  /-- the graph is over the same shards -/
  shardNum : ccm.clpaGraph.shardNum = p.shardNum
  /-- the graph was built by calls -/
  built : ∃ edges twice, Built ccm.clpaGraph edges twice

theorem ClpaSound.start (fl : FloatOps F) (p : BrokerParams H) (brokerAddress : List Address) :
    ClpaSound p (new fl p brokerAddress) :=
  ⟨fun _ _ h => (nomatch h), rfl, _, _, built_init _ _ _ _⟩

/-- **Accounts are in shards that exist.** -/
theorem ClpaSound.inRange (hpos : 0 < p.shardNum) (h : ClpaSound p ccm) :
    (ccm.routes p).InRange := by
  intro a
  change (ccm.modifiedMap a).getD _ < p.shardNum
  cases ha : ccm.modifiedMap a with
  | none => exact addr2ShardWithShardNum_lt _ _ hpos
  | some k => exact h.placed a k ha

theorem ClpaSound.toBroker (h : ClpaSound p ccm) (bcm : BrokerCommitteeMod) :
    ClpaSound p { ccm with toBroker := bcm } := ⟨h.placed, h.shardNum, h.built⟩

theorem ClpaSound.handleBlockInfo (h : ClpaSound p ccm) {b : BrokerInfoMsg} {hashes : List Bytes}
    {sent : List (ℕ × List Transaction)}
    (hstep : ccm.handleBlockInfo p b hashes = some (ccm', sent)) : ClpaSound p ccm' := by
  obtain ⟨hmap, ⟨-, -, -, hgraph⟩ | ⟨-, -, hgraph⟩⟩ := handleBlockInfo_eq_some hstep
  · refine ⟨?_, ?_, ?_⟩
    · rw [hmap]
      exact h.placed
    · rw [hgraph]
      exact h.shardNum
    · rw [hgraph]
      exact h.built
  · obtain ⟨edges, twice, hbuilt⟩ := h.built
    refine ⟨?_, (build_shardNum hgraph).trans h.shardNum, _, _, hbuilt.build _ hgraph⟩
    rw [hmap]
    exact h.placed

theorem ClpaSound.repartition (h : ClpaSound p ccm) {orders : ℕ → List Vertex}
    {sent : List (ℕ × (Address → Option ℕ))}
    (hstep : ccm.repartition fl p orders = some (ccm', sent)) : ClpaSound p ccm' := by
  obtain ⟨edges, twice, hbuilt⟩ := h.built
  obtain ⟨⟨res, cross, cs'⟩, hrun, heq⟩ := Option.map_eq_some_iff.mp hstep
  obtain ⟨rfl, rfl⟩ := Prod.mk.inj heq
  refine ⟨fun a k hk => ?_, rfl, _, _, built_init _ _ _ _⟩
  have hk : (res a).or (ccm.modifiedMap a) = some k := hk
  cases hres : res a with
  | none =>
    rw [hres, Option.none_or] at hk
    exact h.placed a k hk
  | some j =>
    rw [hres, Option.some_or] at hk
    obtain rfl := Option.some.inj hk
    rw [← h.shardNum]
    exact hbuilt.clpaPartition_lt hrun hres

end CLPACommitteeModBroker

end BlockEmulator
