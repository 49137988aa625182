import BlockEmulator.RelayModule
import BlockEmulator.Shard

/-!
# A shard of relay nodes

`relayConfig` puts the relay module into the nodes of a shard, and `genesisChain`
is the chain a node starts with on an empty disk.

`fourNodes` is a concrete shard: four nodes, so that one of them may fail, and
digests that are the requests themselves. Runs of it are computed.
-/

namespace BlockEmulator

open ShardState

variable {H D : Type} [DecidableEq H]

/-- The nodes of a relay shard. -/
def relayConfig (cc : ChainConfig H) (nodeNums : ℕ) (ipNodeTable : ℕ → ℕ → Option String)
    (getDigest : Option (Request H) → D) :
    PbftConfig (BlockChain H) (Option (Request H)) D OutsideMessage Outgoing where
  nodeID := 0
  shardID := cc.shardID
  nodeNums := nodeNums
  ipNodeTable := ipNodeTable
  getDigest := getDigest
  ihm := RawRelay.ihm cc
  ohm := RawRelay.ohm

/-- The chain over an empty disk: the genesis block. -/
def genesisChain (cc : ChainConfig H) : BlockChain H :=
  let b := BlockChain.newGenisisBlock cc
  { currentBlock := b
    storage :=
      { block := AList.singleton b.hash b
        blockHeader := AList.singleton b.hash b.header
        newestBlockHash := some b.hash
        executedTransaction := ∅
        writable := true }
    txpool := TxPool.new
    partitionMap := fun _ => none }

theorem newBlockChain_empty (cc : ChainConfig H) :
    BlockChain.newBlockChain cc Storage.empty = some (genesisChain cc) := by
  simp only [BlockChain.newBlockChain, Storage.newStorage, Storage.empty, Storage.backfill,
    Storage.addBlock, Storage.getBlock, genesisChain, BlockChain.newGenisisBlock, bodyHashes,
    AList.insert_empty, AList.empty_entries, List.flatMap_nil, List.filterMap_nil,
    List.toFinset_nil, Finset.union_empty, if_true, Option.bind_some]
  exact congrArg _ (AList.lookup_insert ∅)

/-! ## Four nodes -/

/-- The requests of a concrete relay shard, which are their own digests. -/
abbrev FreeRequest : Type := Option (Request FreeHash)

/-- What happens in it. -/
abbrev FreeAction : Type := ShardAction FreeRequest FreeRequest OutsideMessage

/-- The chain configuration of shard 0 of two. -/
def fourNodesChain : ChainConfig FreeHash :=
  { hash := freeHash, shardID := 0, shardNums := 2, blockSize := 10,
    useBlocksizeInBytes := false, blocksizeInBytes := 0, shardNum := 2 }

/-- The addresses of the four nodes of shard 0. -/
def fourNodesIP : ℕ → ℕ → Option String
  | 0, 0 => some "n0"
  | 0, 1 => some "n1"
  | 0, 2 => some "n2"
  | 0, 3 => some "n3"
  | _, _ => none

/-- A relay shard of four nodes. -/
def fourNodes :
    PbftConfig (BlockChain FreeHash) FreeRequest FreeRequest OutsideMessage Outgoing :=
  relayConfig fourNodesChain 4 fourNodesIP id

/-- Its start, on empty disks. -/
def fourNodesStart : ShardState (BlockChain FreeHash) FreeRequest FreeRequest Outgoing :=
  ShardState.new fourNodes.ihm.height fun _ => genesisChain fourNodesChain

/-- A node of it, as messages name it. -/
def fourNodesNode (k : ℕ) : Node := (fourNodes.at k).runningNode

/-- The request for an empty first block, made at a time by a node. -/
def emptyRequest (miner : ℕ) (now : Time) : FreeRequest :=
  let bh : BlockHeader FreeHash :=
    { parentBlockHash := (BlockChain.newGenisisBlock fourNodesChain).hash
      stateRoot := ∅
      txRoot := ∅
      bloom := ∅
      number := 1
      time := now
      miner := miner }
  some ⟨.block, some (some { header := bh, body := [], hash := freeHash.headerHash bh }), now⟩

/-- A transaction from shard 0 to shard 1. -/
def crossTransaction : Transaction := newTransaction "a" "b" 5 0 [1]

/-- The first block of shard 0 with it, proposed by node 0. -/
def crossBlock : Block FreeHash :=
  let bh : BlockHeader FreeHash :=
    { parentBlockHash := (BlockChain.newGenisisBlock fourNodesChain).hash
      stateRoot := Finmap.insert "a" ⟨0, initBalance - 5⟩ ∅
      txRoot := {[1]}
      bloom := {1}
      number := 1
      time := 7
      miner := 0 }
  { header := bh, body := [some crossTransaction], hash := freeHash.headerHash bh }

/-- The request for this block. -/
def crossRequest : FreeRequest := some ⟨.block, some (some crossBlock), 7⟩

/-- The goroutine of `Propose`, from one end to the other. -/
def propose (i : ℕ) (now : Time) : List FreeAction :=
  [.node i .nextRound, .node i .proposeCheck, .node i .proposeLock,
    .node i (.proposeBroadcast now), .node i .proposeStage]

/-- A proposal reaches nodes. -/
def deliverPrePrepare (is : List ℕ) (r : FreeRequest) (seqID : ℕ) : List FreeAction :=
  is.map fun i => .node i (.receive (.prePrepare ⟨r, r, seqID⟩))

/-- The prepare votes of some nodes reach others. -/
def deliverPrepare (is ks : List ℕ) (r : FreeRequest) (seqID : ℕ) : List FreeAction :=
  is.flatMap fun i => ks.map fun k =>
    .node i (.receive (.prepare ⟨r, seqID, some (fourNodesNode k)⟩))

/-- The commit votes of some nodes reach others. -/
def deliverCommit (is ks : List ℕ) (r : FreeRequest) (seqID : ℕ) : List FreeAction :=
  is.flatMap fun i => ks.map fun k =>
    .node i (.receive (.commit ⟨r, seqID, some (fourNodesNode k)⟩))

/-- A view change from view 0 to view 1 at a sequence number: nodes time out, and
get each other's requests for it. -/
def timeOut (is : List ℕ) (seqID : ℤ) : List FreeAction :=
  (is.map fun i => .node i .viewChangePropose) ++
    is.flatMap fun i => is.map fun k =>
      .node i (.receive (.viewChange ⟨0, 1, seqID, k⟩))

/-- The announcements of view 1 by some nodes reach others. -/
def deliverNewView (is ks : List ℕ) (seqID : ℤ) : List FreeAction :=
  is.flatMap fun i => ks.map fun k => .node i (.receive (.newView ⟨0, 1, seqID, k⟩))

end BlockEmulator
