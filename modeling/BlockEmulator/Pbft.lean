import Mathlib.Data.Finset.Card
import Mathlib.Data.Finset.Range
import Mathlib.Algebra.Order.Ring.Int

/-!
# A consensus node (`consensus_shard/pbft_all`)

The state of a `PbftConsensusNode` and every handler that changes it: proposing,
the three PBFT phases, the request and the installation of old messages, view
changes. `nodeStep` is what one input does to a node and what the node sends.

* What a request is and what a block does are behind the two interfaces the node
  has for it (`ExtraOpInConsensus`, `OpInterShards`): their state is the type
  `App`, their requests `R`, digests `D`.
* A handler that waits on the condition variable is an input that is not enabled
  yet: its message counts as still on the way. A waiting handler gives up when the
  view changes, as a message that is lost.
* `Propose` takes the lock, broadcasts and stores the stage in separate steps, and
  several of its goroutines may be under way. `handleCommit` may block on
  `askForLock` while it holds `pbftLock`.
* A panic, and the unlock of an unlocked mutex, end the process (`fault`).

Sequence numbers are natural numbers; conversions between `int`, `int32` and
`uint64` are explicit. `lastCommitTime`, which only decides when a timeout fires,
logging and metrics are left out.
-/

namespace BlockEmulator

/-! ## Messages -/

/-- `shard.Node`. -/
structure Node where
  /-- the number of the node in its shard -/
  nodeID : ℕ
  /-- the shard -/
  shardID : ℕ
  /-- the address it listens on -/
  ipAddr : String
  deriving DecidableEq

/-- `message.PrePrepare`. -/
structure PrePrepare (R D : Type) where
  /-- the request -/
  requestMsg : R
  /-- its digest -/
  digest : D
  /-- the sequence number it is proposed for -/
  seqID : ℕ
  deriving DecidableEq

/-- `message.Prepare`. -/
structure Prepare (D : Type) where
  /-- the request that is prepared -/
  digest : D
  /-- the sequence number -/
  seqID : ℕ
  /-- who votes -/
  senderNode : Option Node
  deriving DecidableEq

/-- `message.Commit`. -/
structure Commit (D : Type) where
  /-- the request that is to be committed -/
  digest : D
  /-- the sequence number -/
  seqID : ℕ
  /-- who votes -/
  senderNode : Option Node
  deriving DecidableEq

/-- `message.RequestOldMessage`. -/
structure RequestOldMessage where
  /-- the first sequence number asked for -/
  seqStartHeight : ℕ
  /-- the last one -/
  seqEndHeight : ℕ
  /-- who asks -/
  senderNode : Option Node
  deriving DecidableEq

/-- `message.SendOldMessage`. -/
structure SendOldMessage (R : Type) where
  /-- the first sequence number sent -/
  seqStartHeight : ℕ
  /-- the last one -/
  seqEndHeight : ℕ
  /-- the requests -/
  oldRequest : List R
  deriving DecidableEq

/-- `message.ViewChangeMsg`. -/
structure ViewChangeMsg where
  /-- the view of the sender -/
  curView : ℤ
  /-- the view it asks for -/
  nextView : ℤ
  /-- its sequence number -/
  seqID : ℤ
  /-- the sender, as it says -/
  fromNode : ℕ
  deriving DecidableEq

/-- `message.NewViewMsg`. -/
structure NewViewMsg where
  /-- the view of the sender -/
  curView : ℤ
  /-- the view it announces -/
  nextView : ℤ
  /-- the sequence number that view starts with -/
  newSeqID : ℤ
  /-- the sender, as it says -/
  fromNode : ℕ
  deriving DecidableEq

/-- The messages inside a shard. -/
inductive Message (R D : Type) where
  /-- a proposal -/
  | prePrepare : PrePrepare R D → Message R D
  /-- a vote of the first phase -/
  | prepare : Prepare D → Message R D
  /-- a vote of the second phase -/
  | commit : Commit D → Message R D
  /-- a node asks for requests it misses -/
  | requestOld : RequestOldMessage → Message R D
  /-- the answer -/
  | sendOld : SendOldMessage R → Message R D
  /-- a node asks for a new view -/
  | viewChange : ViewChangeMsg → Message R D
  /-- a node announces a new view -/
  | newView : NewViewMsg → Message R D
  deriving DecidableEq

/-- The messages of a view change; a node counts every one of them. -/
def Message.isViewMessage {R D : Type} : Message R D → Bool
  | .viewChange _ | .newView _ => true
  | _ => false

/-- Where a message goes. -/
inductive Dest where
  /-- to all nodes of the shard, the sender included -/
  | all
  /-- to all but this address -/
  | others : String → Dest
  /-- to this address -/
  | addr : String → Dest
  deriving DecidableEq

/-- Whether a message goes to the node at an address. -/
def Dest.reaches : Dest → String → Bool
  | .all, _ => true
  | .others ip, a => decide (a ≠ ip)
  | .addr ip, a => decide (a = ip)

/-- What a node gives to the world outside its own state. -/
inductive Output (R D Out : Type) where
  /-- a message inside the shard -/
  | send : Dest → Message R D → Output R D Out
  /-- a message to another shard -/
  | relay : Out → Output R D Out
  /-- not a message: `HandleinCommit` has accepted a request at this sequence
  number -/
  | committed : ℕ → D → Output R D Out
  deriving DecidableEq

/-! ## The interfaces of a node -/

/-- What `HandleinCommit` comes back with. -/
inductive CommitResult (App Out : Type) where
  /-- it panics, over this state -/
  | panic : App → CommitResult App Out
  /-- `false`: nothing has changed -/
  | rejected
  /-- `true`, and what was sent to other shards -/
  | done : App → List Out → CommitResult App Out

/-- `ExtraOpInConsensus`. `none` is a panic. `HandleinPrepare` and
`HandleReqestforOldSeq` do nothing in any module. -/
structure ExtraOpInConsensus (App R Out : Type) where
  /-- `CurChain.CurrentBlock.Header.Number` -/
  height : App → ℕ
  /-- `HandleinPropose`, at a node and at a time -/
  handleinPropose : ℕ → ℕ → App → Option (R × App)
  /-- `HandleinPrePrepare` -/
  handleinPrePrepare : App → R → Option Bool
  /-- `HandleinCommit`; whether this node is the leader, its sequence number -/
  handleinCommit : Bool → ℕ → App → R → CommitResult App Out
  /-- `HandleforSequentialRequest` -/
  handleforSequentialRequest : App → SendOldMessage R → Option (Bool × App)

/-- `OpInterShards`: `HandleMessageOutsidePBFT`. -/
structure OpInterShards (App In : Type) where
  /-- what a message from outside changes; `none` is a panic -/
  handleMessageOutsidePBFT : App → In → Option App

/-- What does not change while a node runs. -/
structure PbftConfig (App R D In Out : Type) where
  /-- `NodeID` -/
  nodeID : ℕ
  /-- `ShardID` -/
  shardID : ℕ
  /-- `node_nums` -/
  nodeNums : ℕ
  /-- `ip_nodeTable`, by shard and node -/
  ipNodeTable : ℕ → ℕ → Option String
  /-- `getDigest` -/
  getDigest : R → D
  /-- `ihm` -/
  ihm : ExtraOpInConsensus App R Out
  /-- `ohm` -/
  ohm : OpInterShards App In

namespace PbftConfig

variable {App R D In Out : Type} (cfg : PbftConfig App R D In Out)

/-- `malicious_nums`. -/
def maliciousNums : ℕ := (cfg.nodeNums - 1) / 3

/-- How many votes make a quorum. -/
def quorum : ℕ := 2 * cfg.maliciousNums + 1

/-- A node's address; unknown nodes have the empty one. -/
def ipOf (n : ℕ) : String := (cfg.ipNodeTable cfg.shardID n).getD ""

/-- `RunningNode`. -/
def runningNode : Node := ⟨cfg.nodeID, cfg.shardID, cfg.ipOf cfg.nodeID⟩

end PbftConfig

/-! ## The state of a node -/

/-- `ViewChangeData`. -/
structure ViewChangeData where
  /-- the view -/
  nextView : ℤ
  /-- the sequence number -/
  seqID : ℤ
  deriving DecidableEq

/-- The round that holds `sequenceLock`. -/
structure Round (D : Type) where
  /-- the view in which the lock was taken -/
  view : ℤ
  /-- the request, once it is broadcast -/
  digest : Option D
  deriving DecidableEq

/-- Why a process has ended. -/
inductive Fault where
  /-- a panic -/
  | panic
  /-- `sequenceLock` was unlocked while unlocked -/
  | sequenceUnlock
  /-- `askForLock` was unlocked while unlocked -/
  | askForUnlock
  deriving DecidableEq

/-- How many goroutines of `Propose` have got how far. -/
structure Proposers where
  /-- started -/
  launched : ℕ
  /-- past the check of the view, waiting for the lock -/
  waiting : ℕ
  /-- past the lock -/
  locked : ℕ
  /-- past the broadcast -/
  announced : ℕ
  deriving DecidableEq

/-- `PbftConsensusNode`. -/
structure PbftNode (App R D : Type) where
  /-- `CurChain`, with the data of the modules -/
  curChain : App
  /-- `view`, an `int32` -/
  view : ℤ
  /-- who asked for a new view -/
  viewChangeMap : ViewChangeData → Finset ℕ
  /-- who announced a new view -/
  newViewMap : ViewChangeData → Finset ℕ
  /-- the sequence number of the current round -/
  sequenceID : ℕ
  /-- the requests seen, by digest -/
  requestPool : D → Option R
  /-- who has prepared a request -/
  cntPrepareConfirm : D → Finset ℕ
  /-- who is ready to commit a request -/
  cntCommitConfirm : D → Finset ℕ
  /-- the requests this node has broadcast a commit for -/
  isCommitBordcast : D → Bool
  /-- the requests this node has committed -/
  isReply : D → Bool
  /-- the request seen last for a sequence number -/
  height2Digest : ℕ → Option D
  /-- `pbftStage` -/
  pbftStage : ℕ
  /-- `sequenceLock`, with the round that took it -/
  sequenceLock : Option (Round D)
  /-- `askForLock` -/
  askForLock : Bool
  /-- a `handleCommit` for this sequence number that holds `pbftLock` and waits
  for `askForLock` -/
  asking : Option ℕ
  /-- the goroutines of `Propose` -/
  proposers : Proposers
  /-- set when the process has ended -/
  fault : Option Fault

/-- What can happen at a node. -/
inductive NodeInput (R D In : Type) where
  /-- the ticker of `Propose` starts a round -/
  | nextRound
  /-- a goroutine of `Propose` checks that this node leads -/
  | proposeCheck
  /-- it takes the lock -/
  | proposeLock
  /-- it builds and broadcasts a request -/
  | proposeBroadcast (now : ℕ)
  /-- it stores the stage -/
  | proposeStage
  /-- `viewChangePropose` -/
  | viewChangePropose
  /-- the blocked `handleCommit` gets `askForLock` -/
  | askForRequests
  /-- a message of the shard is handled -/
  | receive (m : Message R D)
  /-- a message from outside is handled -/
  | outside (m : In)
  deriving DecidableEq

/-- A node just started over a chain. -/
def PbftNode.new {App R D : Type} (height : App → ℕ) (app : App) : PbftNode App R D where
  curChain := app
  view := 0
  viewChangeMap := fun _ => ∅
  newViewMap := fun _ => ∅
  sequenceID := height app + 1
  requestPool := fun _ => none
  cntPrepareConfirm := fun _ => ∅
  cntCommitConfirm := fun _ => ∅
  isCommitBordcast := fun _ => false
  isReply := fun _ => false
  height2Digest := fun _ => none
  pbftStage := 1
  sequenceLock := none
  askForLock := false
  asking := none
  proposers := ⟨0, 0, 0, 0⟩
  fault := none

/-! ## The handlers -/

namespace PbftNode

variable {App R D In Out : Type} [DecidableEq D] (cfg : PbftConfig App R D In Out)
  (p : PbftNode App R D)

/-- `uint64(p.view.Load())`. -/
def mainNode : ℕ := (p.view % 2 ^ 64).toNat

/-- Whether this node takes itself for the leader. -/
def isMain : Bool := decide (p.mainNode = cfg.nodeID)

/-- The condition on which the handlers of the three phases wait. -/
def waits (stage seqID : ℕ) : Prop := p.pbftStage < stage ∧ p.sequenceID ≤ seqID

instance (stage seqID : ℕ) : Decidable (p.waits stage seqID) :=
  inferInstanceAs (Decidable (_ ∧ _))

/-- A request is stored, for a sequence number. -/
def record (seqID : ℕ) (r : R) : PbftNode App R D :=
  { p with
    requestPool := Function.update p.requestPool (cfg.getDigest r) (some r)
    height2Digest := Function.update p.height2Digest seqID (some (cfg.getDigest r)) }

/-- `sequenceLock.Unlock()`. -/
def unlockSequence : PbftNode App R D :=
  match p.sequenceLock with
  | none => { p with fault := some .sequenceUnlock }
  | some _ => { p with sequenceLock := none }

/-- `askForLock.Unlock()`. -/
def unlockAskFor : PbftNode App R D :=
  if p.askForLock then { p with askForLock := false }
  else { p with fault := some .askForUnlock }

/-! ### `Propose` -/

/-- `Propose` builds the request and broadcasts it, after it took the lock. -/
def proposeBroadcast (now : ℕ) : PbftNode App R D × List (Output R D Out) :=
  match cfg.ihm.handleinPropose cfg.nodeID now p.curChain with
  | none => ({ p with fault := some .panic }, [])
  | some (r, app) =>
    ({ p.record cfg p.sequenceID r with
        curChain := app
        sequenceLock := p.sequenceLock.map fun l =>
          { l with digest := some (cfg.getDigest r) }
        proposers :=
          { p.proposers with
            locked := p.proposers.locked - 1
            announced := p.proposers.announced + 1 } },
      [.send .all (.prePrepare ⟨r, cfg.getDigest r, p.sequenceID⟩)])

/-! ### The three phases -/

/-- `handlePrePrepare`; `none` while it waits. -/
def handlePrePrepare (ppmsg : PrePrepare R D) :
    Option (PbftNode App R D × List (Output R D Out)) :=
  if p.asking.isSome ∨ p.waits 1 ppmsg.seqID then none
  -- out of date
  else if ppmsg.seqID < p.sequenceID then some (p, [])
  -- the digest is not that of the request
  else if cfg.getDigest ppmsg.requestMsg ≠ ppmsg.digest then some (p, [])
  -- ahead of this node, which stores the request and does not vote
  else if p.sequenceID < ppmsg.seqID then
    some (p.record cfg ppmsg.seqID ppmsg.requestMsg, [])
  else
    match cfg.ihm.handleinPrePrepare p.curChain ppmsg.requestMsg with
    | none => some ({ p with fault := some .panic }, [])
    | some false => some (p.record cfg ppmsg.seqID ppmsg.requestMsg, [])
    | some true =>
      some ({ p.record cfg ppmsg.seqID ppmsg.requestMsg with pbftStage := p.pbftStage + 1 },
        [.send .all (.prepare ⟨ppmsg.digest, ppmsg.seqID, some cfg.runningNode⟩)])

/-- `set2DMap`: the vote is counted when it comes from a member of the shard. -/
def set2DMap (confirm : D → Finset ℕ) (key : D) (val : Option Node) :
    Option (D → Finset ℕ) :=
  match val with
  | none => none
  | some node =>
    if node.shardID = cfg.shardID ∧ node.nodeID < cfg.nodeNums ∧
        cfg.ipNodeTable cfg.shardID node.nodeID = some node.ipAddr then
      some (Function.update confirm key (insert node.nodeID (confirm key)))
    else none

/-- `handlePrepare`; `none` while it waits. -/
def handlePrepare (pmsg : Prepare D) : Option (PbftNode App R D × List (Output R D Out)) :=
  if p.asking.isSome ∨ p.waits 2 pmsg.seqID then none
  else if pmsg.seqID < p.sequenceID then some (p, [])
  -- a vote for a request that has not come, or for a later number, is not counted
  else if p.requestPool pmsg.digest = none then some (p, [])
  else if p.sequenceID < pmsg.seqID then some (p, [])
  else
    match set2DMap cfg p.cntPrepareConfirm pmsg.digest pmsg.senderNode with
    | none => some (p, [])
    | some confirm =>
      if cfg.quorum ≤ (confirm pmsg.digest).card ∧ p.isCommitBordcast pmsg.digest = false then
        some ({ p with
                cntPrepareConfirm := confirm
                isCommitBordcast := Function.update p.isCommitBordcast pmsg.digest true
                pbftStage := p.pbftStage + 1 },
          [.send .all (.commit ⟨pmsg.digest, pmsg.seqID, some cfg.runningNode⟩)])
      else some ({ p with cntPrepareConfirm := confirm }, [])

/-- The end of a round in `handleCommit`: the leader releases `sequenceLock`. -/
def endRound : PbftNode App R D :=
  if p.isMain cfg then unlockSequence { p with pbftStage := 1 } else { p with pbftStage := 1 }

/-- The branch of `handleCommit` for a node that is left behind, with
`askForLock` free. -/
def askForRequests (seqID : ℕ) : PbftNode App R D × List (Output R D Out) :=
  (endRound cfg { p with askForLock := true, asking := none },
    [.send (.addr (cfg.ipOf p.mainNode))
      (.requestOld ⟨cfg.ihm.height p.curChain + 1, seqID, some cfg.runningNode⟩)])

/-- `handleCommit`; `none` while it waits for its stage. -/
def handleCommit (cmsg : Commit D) : Option (PbftNode App R D × List (Output R D Out)) :=
  if p.asking.isSome ∨ p.waits 3 cmsg.seqID then none
  else if cmsg.seqID < p.sequenceID then some (p, [])
  else
    match set2DMap cfg p.cntCommitConfirm cmsg.digest cmsg.senderNode with
    | none => some (p, [])
    | some confirm =>
      let q := { p with cntCommitConfirm := confirm }
      if cfg.quorum ≤ (confirm cmsg.digest).card ∧ p.isReply cmsg.digest = false then
        match p.requestPool cmsg.digest with
        | none =>
          -- left behind: it asks for requests, once an earlier answer has come
          if p.askForLock then some ({ q with asking := some cmsg.seqID }, [])
          else some (askForRequests cfg q cmsg.seqID)
        | some r =>
          match cfg.ihm.handleinCommit (p.isMain cfg) p.sequenceID p.curChain r with
          | .panic app => some ({ q with curChain := app, fault := some .panic }, [])
          | .rejected => some (q, [])
          | .done app outs =>
            some (endRound cfg
                { q with
                  curChain := app
                  isReply := Function.update p.isReply cmsg.digest true
                  sequenceID := p.sequenceID + 1 },
              .committed p.sequenceID cmsg.digest :: outs.map .relay)
      else some (q, [])

/-! ### Old messages -/

/-- The loop of `handleRequestOldSeq`: the stored requests from a height on, up
to the first that is missing. -/
def collectOld : ℕ → ℕ → List R
  | _, 0 => []
  | height, n + 1 =>
    match p.height2Digest height with
    | none => []
    | some digest =>
      match p.requestPool digest with
      | none => []
      | some r => r :: collectOld (height + 1) n

/-- `handleRequestOldSeq`. -/
def handleRequestOldSeq (rom : RequestOldMessage) :
    PbftNode App R D × List (Output R D Out) :=
  if p.isMain cfg = false then (p, [])
  else
    match rom.senderNode with
    | none => ({ p with fault := some .panic }, [])
    | some sender =>
      -- both ends are included
      let oldR := p.collectOld rom.seqStartHeight (rom.seqEndHeight + 1 - rom.seqStartHeight)
      if oldR.isEmpty then (p, [])
      else
        (p, [.send (.addr sender.ipAddr)
          (.sendOld ⟨rom.seqStartHeight, rom.seqStartHeight + oldR.length - 1, oldR⟩)])

/-- The loop of `handleSendOldSeq` over the installed requests. -/
def recordOld : ℕ → List R → PbftNode App R D → PbftNode App R D
  | _, [], p => p
  | seqID, r :: rs, p =>
    recordOld (seqID + 1) rs
      { p.record cfg seqID r with
        isReply := Function.update p.isReply (cfg.getDigest r) true }

/-- The request already stored for the next sequence number. -/
def storedNext : Option R :=
  (p.height2Digest p.sequenceID).bind p.requestPool

/-- `handleSendOldSeq`. -/
def handleSendOldSeq (som : SendOldMessage R) : PbftNode App R D × List (Output R D Out) :=
  match cfg.ihm.handleforSequentialRequest p.curChain som with
  | none => ({ p with fault := some .panic }, [])
  | some (false, app) =>
    -- a prefix may have been installed: the node goes on from the head of its chain
    (unlockAskFor { p with curChain := app, sequenceID := cfg.ihm.height app + 1 }, [])
  | some (true, app) =>
    -- all were installed: the node goes on behind the end that the sender claims
    let q := { recordOld cfg som.seqStartHeight som.oldRequest { p with curChain := app } with
      sequenceID := som.seqEndHeight + 1 }
    match q.storedNext with
    | none => (unlockAskFor q, [])
    | some r =>
      match cfg.ihm.handleinPrePrepare app r with
      | none => ({ q with fault := some .panic }, [])
      | some false => (unlockAskFor q, [])
      | some true =>
        -- the next request is stored already: the node votes for it at once
        (unlockAskFor q,
          [.send (.others (cfg.ipOf cfg.nodeID))
            (.prepare ⟨cfg.getDigest r, q.sequenceID, some cfg.runningNode⟩)])

/-! ### View changes -/

/-- The view after this one: `int(p.view.Load()+1) % int(p.node_nums)`. -/
def viewAfter : ℤ := (Int.bmod (p.view + 1) (2 ^ 32)).tmod cfg.nodeNums

/-- `int(p.sequenceID)`. -/
def seqAsInt : ℤ := Int.bmod p.sequenceID (2 ^ 64)

/-- `viewChangePropose`. -/
def viewChangePropose : PbftNode App R D × List (Output R D Out) :=
  ({ p with pbftStage := 5 },
    [.send .all (.viewChange ⟨p.view, p.viewAfter cfg, p.seqAsInt, cfg.nodeID⟩)])

/-- `handleViewChangeMsg`. -/
def handleViewChangeMsg (vcmsg : ViewChangeMsg) : PbftNode App R D × List (Output R D Out) :=
  let vcData : ViewChangeData := ⟨vcmsg.nextView, vcmsg.seqID⟩
  let votes := insert vcmsg.fromNode (p.viewChangeMap vcData)
  let q := { p with viewChangeMap := Function.update p.viewChangeMap vcData votes }
  -- exactly a quorum: what comes beyond it announces nothing
  if votes.card = cfg.quorum then
    (q, [.send .all (.newView ⟨p.view, p.viewAfter cfg, p.seqAsInt, cfg.nodeID⟩)])
  else (q, [])

/-- `handleNewViewMsg`. -/
def handleNewViewMsg (nvmsg : NewViewMsg) : PbftNode App R D :=
  let vcData : ViewChangeData := ⟨nvmsg.nextView, nvmsg.newSeqID⟩
  let votes := insert nvmsg.fromNode (p.newViewMap vcData)
  let q := { p with newViewMap := Function.update p.newViewMap vcData votes }
  if votes.card = cfg.quorum then
    { q with
      view := Int.bmod nvmsg.nextView (2 ^ 32)
      sequenceID := (nvmsg.newSeqID % 2 ^ 64).toNat
      pbftStage := 1 }
  else q

/-! ### One input -/

/-- What a message of the shard does. -/
def handleMessage : Message R D → Option (PbftNode App R D × List (Output R D Out))
  | .prePrepare m => p.handlePrePrepare cfg m
  | .prepare m => p.handlePrepare cfg m
  | .commit m => p.handleCommit cfg m
  | .requestOld m => some (p.handleRequestOldSeq cfg m)
  | .sendOld m => some (p.handleSendOldSeq cfg m)
  | .viewChange m => some (p.handleViewChangeMsg cfg m)
  | .newView m => some (p.handleNewViewMsg cfg m, [])

/-- What an input does to a node that has not ended; `none` where it is not
enabled. -/
def handleInput : NodeInput R D In → Option (PbftNode App R D × List (Output R D Out))
  | .nextRound =>
    if p.pbftStage = 1 then
      some ({ p with
        proposers := { p.proposers with launched := p.proposers.launched + 1 } }, [])
    else none
  | .proposeCheck =>
    if p.proposers.launched = 0 then none
    else if p.isMain cfg then
      some ({ p with
        proposers :=
          { p.proposers with
            launched := p.proposers.launched - 1
            waiting := p.proposers.waiting + 1 } }, [])
    else
      some ({ p with
        proposers := { p.proposers with launched := p.proposers.launched - 1 } }, [])
  | .proposeLock =>
    if p.proposers.waiting = 0 ∨ p.sequenceLock.isSome then none
    else
      some ({ p with
        sequenceLock := some ⟨p.view, none⟩
        proposers :=
          { p.proposers with
            waiting := p.proposers.waiting - 1
            locked := p.proposers.locked + 1 } }, [])
  | .proposeBroadcast now =>
    if p.proposers.locked = 0 then none else some (p.proposeBroadcast cfg now)
  | .proposeStage =>
    if p.proposers.announced = 0 then none
    else
      some ({ p with
        pbftStage := 2
        proposers := { p.proposers with announced := p.proposers.announced - 1 } }, [])
  | .viewChangePropose => some (p.viewChangePropose cfg)
  | .askForRequests =>
    match p.asking with
    | none => none
    | some seqID => if p.askForLock then none else some (p.askForRequests cfg seqID)
  | .receive m => p.handleMessage cfg m
  | .outside m =>
    match cfg.ohm.handleMessageOutsidePBFT p.curChain m with
    | none => some ({ p with fault := some .panic }, [])
    | some app => some ({ p with curChain := app }, [])

/-- One step of a node: nothing happens at one that has ended. -/
def nodeStep (input : NodeInput R D In) : Option (PbftNode App R D × List (Output R D Out)) :=
  if p.fault.isSome then none else p.handleInput cfg input

end PbftNode

end BlockEmulator
