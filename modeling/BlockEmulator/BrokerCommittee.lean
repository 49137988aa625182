import BlockEmulator.Transaction
import Mathlib.Algebra.BigOperators.Group.List.Basic

/-!
# The broker committee (`committee_broker.go`, `broker/broker.go`)

The supervisor of the broker method makes two transactions out of one whose ends are
in different shards: the first pays a broker in the sender's shard, the second lets the
broker pay the recipient in the recipient's shard. The second is made when a block with
the first is reported.

A raw message stands for its own digest, and the hashes of new transactions, which
cover the time, are given: one for each transaction that is made. Functions that can panic return
`none` for it.
-/

namespace BlockEmulator

/-! ## Messages -/

/-- `message.BrokerRawMeg`, without the fields that are ignored. -/
structure BrokerRawMeg where
  /-- the raw transaction -/
  tx : Transaction
  /-- the broker it is to go through -/
  broker : Address
  deriving DecidableEq

/-- `message.BrokerType1Meg`. -/
structure BrokerType1Meg where
  /-- the raw message -/
  rawMeg : BrokerRawMeg
  /-- stands for the signature of the broker -/
  broker : Address
  deriving DecidableEq

/-- `message.Mag1Confirm`. -/
structure Mag1Confirm where
  /-- the hash of the first transaction -/
  tx1Hash : Bytes
  /-- the raw message -/
  rawMeg : BrokerRawMeg
  deriving DecidableEq

/-- `message.BrokerType2Meg`. -/
structure BrokerType2Meg where
  /-- the raw message -/
  rawMeg : BrokerRawMeg
  /-- stands for the signature of the broker -/
  broker : Address
  deriving DecidableEq

/-- `message.Mag2Confirm`. -/
structure Mag2Confirm where
  /-- the hash of the second transaction -/
  tx2Hash : Bytes
  /-- the raw message -/
  rawMeg : BrokerRawMeg
  deriving DecidableEq

/-- `message.BlockInfoMsg`, as the broker module of a shard fills it. -/
structure BrokerInfoMsg where
  /-- `BlockBodyLength` -/
  blockBodyLength : ℕ
  /-- `InnerShardTxs` -/
  innerShardTxs : List Transaction
  /-- `Broker1Txs` -/
  broker1Txs : List Transaction
  /-- `Broker2Txs` -/
  broker2Txs : List Transaction
  /-- `Epoch` -/
  epoch : ℕ
  /-- `SenderShardID` -/
  senderShardID : ℕ
  deriving DecidableEq

/-! ## State -/

/-- `broker.Broker`. -/
structure Broker where
  /-- the accounts of the brokers -/
  brokerAddress : List Address
  /-- the raw messages that were handled -/
  brokerRawMegs : Finset BrokerRawMeg
  /-- the transactions confirmed for each raw transaction -/
  rawTx2BrokerTx : Bytes → List Bytes

/-- `NewBroker`, with the accounts that `initBrokerAddr` reads from the file. -/
def Broker.new (brokerAddress : List Address) : Broker := ⟨brokerAddress, ∅, fun _ => []⟩

/-- `IsBroker`. -/
def Broker.isBroker (b : Broker) (address : Address) : Prop := address ∈ b.brokerAddress

instance (b : Broker) (address : Address) : Decidable (b.isBroker address) :=
  inferInstanceAs (Decidable (_ ∈ _))

/-- `BrokerCommitteeMod`, without what reads the data set. -/
structure BrokerCommitteeMod where
  /-- the brokers -/
  broker : Broker
  /-- what a first transaction confirms, by its hash -/
  brokerConfirm1Pool : Bytes → Option Mag1Confirm
  /-- what a second transaction confirms, by its hash -/
  brokerConfirm2Pool : Bytes → Option Mag2Confirm

/-- The parameters of the committee. -/
structure BrokerParams (H : Type) where
  /-- the hash functions -/
  hash : HashFns H
  /-- `params.ShardNum` -/
  shardNum : ℕ
  /-- `params.InjectSpeed` -/
  injectSpeed : ℕ

/-! ## New transactions -/

/-- A transaction made for a raw one, with what both kinds have in common. -/
def newBrokerTx (ctx : Transaction) (sender recipient : Address) (txHash : Bytes) : Transaction :=
  { newTransaction sender recipient 0 ctx.nonce txHash with
    -- the pointer is passed on
    value := ctx.value
    originalSender := ctx.sender
    finalRecipient := ctx.recipient
    rawTxHash := ctx.txHash }

/-- The first transaction: the sender pays the broker. -/
def newBroker1Tx (meg : BrokerRawMeg) (txHash : Bytes) : Transaction :=
  newBrokerTx meg.tx meg.tx.sender meg.broker txHash

/-- The second transaction: the broker pays the recipient. -/
def newBroker2Tx (meg : BrokerRawMeg) (txHash : Bytes) : Transaction :=
  newBrokerTx meg.tx meg.broker meg.tx.recipient txHash

namespace BrokerCommitteeMod

/-- `NewBrokerCommitteeMod`. -/
def new (brokerAddress : List Address) : BrokerCommitteeMod where
  broker := .new brokerAddress
  brokerConfirm1Pool _ := none
  brokerConfirm2Pool _ := none

variable {H : Type} (p : BrokerParams H)

/-- `fetchModifiedMap`. -/
def fetchModifiedMap (key : Address) : ℕ := addr2ShardWithShardNum p.hash key p.shardNum

/-! ## Sending -/

variable (bcm : BrokerCommitteeMod)

/-- `sendersid`: the shard a transaction is sent to. -/
def senderShard (tx : Transaction) : ℕ :=
  if bcm.broker.isBroker tx.sender then fetchModifiedMap p tx.recipient
  else fetchModifiedMap p tx.sender

/-- One round of sending: an Inject message to every shard. -/
def sendToShards (sendToShard : ℕ → List Transaction) : List (ℕ × List Transaction) :=
  (List.range p.shardNum).map fun sid => (sid, sendToShard sid)

/-- The loop of `txSending`: it sends before every `InjectSpeed`-th transaction, and at
the end. -/
def txSendingLoop :
    ℕ → (ℕ → List Transaction) → List Transaction → List (ℕ × List Transaction)
  | idx, sendToShard, [] => if 0 < idx then sendToShards p sendToShard else []
  | idx, sendToShard, tx :: txs =>
    let sid := senderShard p bcm tx
    if 0 < idx ∧ idx % p.injectSpeed = 0 then
      sendToShards p sendToShard ++
        txSendingLoop (idx + 1) (Function.update (fun _ => []) sid [tx]) txs
    else txSendingLoop (idx + 1) (Function.update sendToShard sid (sendToShard sid ++ [tx])) txs

/-- `txSending`: the Inject messages; `none` where the division by `InjectSpeed` panics. -/
def txSending (txlist : List Transaction) : Option (List (ℕ × List Transaction)) :=
  if p.injectSpeed = 0 ∧ txlist ≠ [] then none
  else some (txSendingLoop p bcm 0 (fun _ => []) txlist)

/-! ## First transactions -/

/-- `handleBrokerType1Mes`: a first transaction for each message. -/
def handleBrokerType1Mes (brokerType1Megs : List BrokerType1Meg) (hashes : List Bytes) :
    Option (BrokerCommitteeMod × List (ℕ × List Transaction)) :=
  if hashes.length ≠ brokerType1Megs.length then none
  else
    let made := brokerType1Megs.zip hashes
    let bcm' :=
      { bcm with
        brokerConfirm1Pool := made.foldl
          (fun pool e => Function.update pool e.2 (some ⟨e.2, e.1.rawMeg⟩))
          bcm.brokerConfirm1Pool }
    (txSending p bcm'
      (made.map fun e => newBroker1Tx ⟨e.1.rawMeg.tx, e.1.broker⟩ e.2)).map (bcm', ·)

/-- `handleBrokerRawMag`. -/
def handleBrokerRawMag (brokerRawMags : List BrokerRawMeg) (hashes : List Bytes) :
    Option (BrokerCommitteeMod × List (ℕ × List Transaction)) :=
  handleBrokerType1Mes p
    { bcm with
      broker := { bcm.broker with
        brokerRawMegs := bcm.broker.brokerRawMegs ∪ brokerRawMags.toFinset } }
    (brokerRawMags.map fun meg => ⟨meg, meg.broker⟩) hashes

/-- Whether the committee makes two transactions out of one: its ends are in different
shards, and none of them is a broker. -/
def Crossing (tx : Transaction) : Prop :=
  fetchModifiedMap p tx.recipient ≠ fetchModifiedMap p tx.sender ∧
    ¬ bcm.broker.isBroker tx.recipient ∧ ¬ bcm.broker.isBroker tx.sender

instance (tx : Transaction) : Decidable (Crossing p bcm tx) :=
  inferInstanceAs (Decidable (_ ∧ _ ∧ _))

/-- What is put on a transaction that is sent as it is. -/
def markBroker (tx : Transaction) : Transaction :=
  if bcm.broker.isBroker tx.recipient ∨ bcm.broker.isBroker tx.sender then
    { tx with hasBroker := true, senderIsBroker := bcm.broker.isBroker tx.sender }
  else tx

/-- The loop of `dealTxByBroker`: the raw messages, and what is sent as it is; `none`
where there is no broker. -/
def sortTxs : List Transaction → Option (List BrokerRawMeg × List Transaction)
  | [] => some ([], [])
  | tx :: txs =>
    if Crossing p bcm tx then
      bcm.broker.brokerAddress.head?.bind fun broker =>
        (sortTxs txs).map fun r => (⟨tx, broker⟩ :: r.1, r.2)
    else (sortTxs txs).map fun r => (r.1, markBroker bcm tx :: r.2)

/-- `dealTxByBroker`: the committee after it, the first transactions it has sent, and
the transactions it returns. -/
def dealTxByBroker (txs : List Transaction) (hashes : List Bytes) :
    Option (BrokerCommitteeMod × List (ℕ × List Transaction) × List Transaction) :=
  (sortTxs p bcm txs).bind fun r =>
    if r.1 ≠ [] then
      (handleBrokerRawMag p bcm r.1 hashes).map fun s => (s.1, s.2, r.2)
    else some (bcm, [], r.2)

/-- The body of the loop of `MsgSendingControl`, on a batch: `dealTxByBroker`, and the
transactions it returns are sent. -/
def handleBatch (txlist : List Transaction) (hashes : List Bytes) :
    Option (BrokerCommitteeMod × List (ℕ × List Transaction)) :=
  (dealTxByBroker p bcm txlist hashes).bind fun r =>
    (txSending p r.1 r.2.2).map fun sent => (r.1, r.2.1 ++ sent)

/-! ## Second transactions -/

/-- `handleBrokerType2Mes`: a second transaction for each message. -/
def handleBrokerType2Mes (brokerType2Megs : List BrokerType2Meg) (hashes : List Bytes) :
    Option (BrokerCommitteeMod × List (ℕ × List Transaction)) :=
  if hashes.length ≠ brokerType2Megs.length then none
  else
    let made := brokerType2Megs.zip hashes
    let bcm' :=
      { bcm with
        brokerConfirm2Pool := made.foldl
          (fun pool e => Function.update pool e.2 (some ⟨e.2, e.1.rawMeg⟩))
          bcm.brokerConfirm2Pool }
    (txSending p bcm'
      (made.map fun e => newBroker2Tx ⟨e.1.rawMeg.tx, e.1.broker⟩ e.2)).map (bcm', ·)

/-- A transaction is noted for a raw one. -/
def noteTx (rawHash txHash : Bytes) : BrokerCommitteeMod :=
  { bcm with
    broker := { bcm.broker with
      rawTx2BrokerTx := Function.update bcm.broker.rawTx2BrokerTx rawHash
        (bcm.broker.rawTx2BrokerTx rawHash ++ [txHash]) } }

/-- The loop of `handleTx1ConfirmMag`. -/
def confirmLoop : BrokerCommitteeMod → List Mag1Confirm →
    Option (BrokerCommitteeMod × List BrokerType2Meg)
  | bcm, [] => some (bcm, [])
  | bcm, c :: cs =>
    if c.rawMeg ∉ bcm.broker.brokerRawMegs then confirmLoop bcm cs
    else
      bcm.broker.brokerAddress.head?.bind fun broker =>
        (confirmLoop (noteTx bcm c.rawMeg.tx.txHash c.tx1Hash) cs).map fun r =>
          (r.1, ⟨c.rawMeg, broker⟩ :: r.2)

/-- `handleTx1ConfirmMag`. -/
def handleTx1ConfirmMag (mag1confirms : List Mag1Confirm) (hashes : List Bytes) :
    Option (BrokerCommitteeMod × List (ℕ × List Transaction)) :=
  (confirmLoop bcm mag1confirms).bind fun r => handleBrokerType2Mes p r.1 r.2 hashes

/-- `handleTx2ConfirmMag`. -/
def handleTx2ConfirmMag (mag2confirms : List Mag2Confirm) : BrokerCommitteeMod :=
  mag2confirms.foldl (fun bcm c => noteTx bcm c.rawMeg.tx.txHash c.tx2Hash) bcm

/-- `createConfirm`. -/
def createConfirm (txs : List Transaction) (hashes : List Bytes) :
    Option (BrokerCommitteeMod × List (ℕ × List Transaction)) :=
  let confirm1s := txs.filterMap fun tx => bcm.brokerConfirm1Pool tx.txHash
  let confirm2s := txs.filterMap fun tx => bcm.brokerConfirm2Pool tx.txHash
  (if confirm1s ≠ [] then handleTx1ConfirmMag p bcm confirm1s hashes
    else some (bcm, [])).map fun r =>
    (if confirm2s ≠ [] then handleTx2ConfirmMag r.1 confirm2s else r.1, r.2)

/-- `HandleBlockInfo`. -/
def handleBlockInfo (b : BrokerInfoMsg) (hashes : List Bytes) :
    Option (BrokerCommitteeMod × List (ℕ × List Transaction)) :=
  if b.blockBodyLength = 0 then some (bcm, [])
  else createConfirm p bcm (b.broker1Txs ++ b.broker2Txs) hashes

/-! ## What is kept -/

variable {p} {bcm}

@[simp] theorem markBroker_txHash (tx : Transaction) :
    (markBroker bcm tx).txHash = tx.txHash := by
  rw [markBroker]
  split
  · rfl
  · rfl

@[simp] theorem markBroker_rawTxHash (tx : Transaction) :
    (markBroker bcm tx).rawTxHash = tx.rawTxHash := by
  rw [markBroker]
  split
  · rfl
  · rfl

/-- What is noted of first transactions that are made. -/
def confirm1s (pool : Bytes → Option Mag1Confirm) (made : List (BrokerRawMeg × Bytes)) :
    Bytes → Option Mag1Confirm :=
  made.foldl (fun pool e => Function.update pool e.2 (some ⟨e.2, e.1⟩)) pool

theorem confirm1s_of_notMem {pool : Bytes → Option Mag1Confirm}
    {made : List (BrokerRawMeg × Bytes)} {h : Bytes} (hh : h ∉ made.map (·.2)) :
    confirm1s pool made h = pool h := by
  induction made generalizing pool with
  | nil => rfl
  | cons e made ih =>
    rw [List.map_cons, List.mem_cons, not_or] at hh
    rw [confirm1s, List.foldl_cons]
    exact (ih hh.2).trans (Function.update_of_ne hh.1 _ _)

theorem confirm1s_of_mem {pool : Bytes → Option Mag1Confirm} {made : List (BrokerRawMeg × Bytes)}
    (hnd : (made.map (·.2)).Nodup) {m : BrokerRawMeg} {h : Bytes} (hmem : (m, h) ∈ made) :
    confirm1s pool made h = some ⟨h, m⟩ := by
  induction made generalizing pool with
  | nil => exact absurd hmem List.not_mem_nil
  | cons e made ih =>
    rw [List.map_cons, List.nodup_cons] at hnd
    rw [confirm1s, List.foldl_cons]
    rcases List.mem_cons.mp hmem with rfl | hmem
    · exact (confirm1s_of_notMem hnd.1).trans (Function.update_self ..)
    · exact ih hnd.2 hmem

/-- What is confirmed of first transactions that are known: a message for each, and they
are noted for their raw transactions. -/
theorem confirmLoop_spec {bcm bcm' : BrokerCommitteeMod} {cs : List Mag1Confirm}
    {megs : List BrokerType2Meg} (hknown : ∀ c ∈ cs, c.rawMeg ∈ bcm.broker.brokerRawMegs)
    (h : confirmLoop bcm cs = some (bcm', megs)) :
    megs.map (·.rawMeg) = cs.map (·.rawMeg) ∧
      (∀ g ∈ megs, bcm.broker.brokerAddress.head? = some g.broker) ∧
      ∃ notes, bcm' = { bcm with broker := { bcm.broker with rawTx2BrokerTx := notes } } := by
  induction cs generalizing bcm megs with
  | nil =>
    obtain ⟨rfl, rfl⟩ := Prod.mk.inj (Option.some.inj h)
    exact ⟨rfl, fun _ h => absurd h List.not_mem_nil, _, rfl⟩
  | cons c cs ih =>
    rw [confirmLoop, if_neg (not_not.mpr (hknown c List.mem_cons_self))] at h
    obtain ⟨broker, hbroker, h⟩ := Option.bind_eq_some_iff.mp h
    obtain ⟨⟨bcm₁, megs₁⟩, hrun, heq⟩ := Option.map_eq_some_iff.mp h
    obtain ⟨rfl, rfl⟩ := Prod.mk.inj heq
    have hrest : ∀ c' ∈ cs,
        c'.rawMeg ∈ (noteTx bcm c.rawMeg.tx.txHash c.tx1Hash).broker.brokerRawMegs :=
      fun c' hc' => hknown c' (List.mem_cons_of_mem _ hc')
    obtain ⟨hmegs, hbrokers, notes, hnotes⟩ := ih hrest hrun
    refine ⟨?_, fun g hg => ?_, notes, hnotes⟩
    · rw [List.map_cons, List.map_cons, hmegs]
    · rcases List.mem_cons.mp hg with rfl | hg
      · exact hbroker
      · exact hbrokers g hg

theorem handleTx2ConfirmMag_eq (bcm : BrokerCommitteeMod) (cs : List Mag2Confirm) :
    ∃ notes, handleTx2ConfirmMag bcm cs =
      { bcm with broker := { bcm.broker with rawTx2BrokerTx := notes } } := by
  induction cs generalizing bcm with
  | nil => exact ⟨_, rfl⟩
  | cons c cs ih =>
    obtain ⟨notes, hnotes⟩ := ih (noteTx bcm c.rawMeg.tx.txHash c.tx2Hash)
    exact ⟨notes, hnotes⟩

/-- The raw messages whose first transactions a block information names. -/
def namedRaws (bcm : BrokerCommitteeMod) (b : BrokerInfoMsg) : List BrokerRawMeg :=
  if b.blockBodyLength = 0 then []
  else ((b.broker1Txs ++ b.broker2Txs).filterMap fun tx =>
    bcm.brokerConfirm1Pool tx.txHash).map (·.rawMeg)

end BrokerCommitteeMod

end BlockEmulator
