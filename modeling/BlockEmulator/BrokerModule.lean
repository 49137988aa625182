import BlockEmulator.BrokerCommittee
import BlockEmulator.LeaderRound

/-!
# The broker module of a node (`pbftInside_moduleBroker.go`, `pbftOutside_moduleBroker.go`)

`RawBrokerPbftExtraHandleMod` and `RawBrokerOutsideModule`, the modules of a node of the
broker method. A block is proposed, accepted and recovered as in the relay module; the
leader that commits it relays nothing, and reports to the supervisor which broker
transactions are in it.

`brokerRound_spec` says what a round of a leader does in which everything goes well, and
`lawful` is what consensus may rely on. The sequence numbers that leaders send each other
are left out: nothing reads them here.
-/

namespace BlockEmulator

variable {H : Type} [DecidableEq H]

namespace RawBroker

/-- `isBroker2Tx`. -/
def IsBroker2Tx (tx : Transaction) : Prop := tx.rawTxHash ≠ [] ∧ tx.recipient = tx.finalRecipient

/-- `isBroker1Tx`, where `isBroker2Tx` is not. -/
def IsBroker1Tx (tx : Transaction) : Prop :=
  ¬ IsBroker2Tx tx ∧ tx.rawTxHash ≠ [] ∧ tx.sender = tx.originalSender

instance : DecidablePred IsBroker2Tx := fun _ => inferInstanceAs (Decidable (_ ∧ _))

instance : DecidablePred IsBroker1Tx := fun _ => inferInstanceAs (Decidable (_ ∧ _ ∧ _))

variable (cc : ChainConfig H)

omit [DecidableEq H] in
/-- What the leader reports of a block. -/
def blockInfo (body : List Transaction) : BrokerInfoMsg where
  blockBodyLength := body.length
  innerShardTxs := body.filter fun tx => ¬ IsBroker1Tx tx ∧ ¬ IsBroker2Tx tx
  broker1Txs := body.filter fun tx => IsBroker1Tx tx
  broker2Txs := body.filter fun tx => IsBroker2Tx tx
  epoch := 0
  senderShardID := cc.shardID

/-- `HandleinCommit`; a nil transaction in the body panics at the leader. -/
def handleinCommit (main : Bool) (_seqID : ℕ) (bc : BlockChain H) (r : Option (Request H)) :
    CommitResult (BlockChain H) BrokerInfoMsg :=
  match r.bind Request.content with
  | none | some none => .panic bc
  | some (some b) =>
    match bc.addBlock cc (some b) with
    | none => .panic bc
    | some (.error _) => .rejected
    | some (.ok bc') =>
      if main then
        match derefAll b.body with
        | none => .panic bc'
        | some body => .done bc' [blockInfo cc body]
      else .done bc' []

/-- The broker module inside PBFT: but for `HandleinCommit`, it is the relay module. -/
def ihm : ExtraOpInConsensus (BlockChain H) (Option (Request H)) BrokerInfoMsg where
  height bc := bc.currentBlock.header.number
  handleinPropose := RawRelay.handleinPropose cc
  handleinPrePrepare := RawRelay.handleinPrePrepare cc
  handleinCommit := handleinCommit cc
  handleforSequentialRequest := RawRelay.handleforSequentialRequest cc

/-- `HandleMessageOutsidePBFT`: `handleInjectTx`, which places nothing. -/
def handleMessageOutsidePBFT (bc : BlockChain H) : OutsideMessage → Option (BlockChain H)
  | .inject txs _ => (bc.txpool.addTxs2Pool txs).map fun pool => { bc with txpool := pool }
  | .relay _ _ _ => some bc

/-- The broker module outside PBFT. -/
def ohm : OpInterShards (BlockChain H) OutsideMessage where
  handleMessageOutsidePBFT := handleMessageOutsidePBFT

omit [DecidableEq H] in
/-- Injected transactions are pooled. -/
theorem handleMessageOutsidePBFT_inject (bc : BlockChain H) (txs : List Transaction) :
    handleMessageOutsidePBFT bc (.inject (txs.map some) []) = some (bc.received txs) := by
  rw [handleMessageOutsidePBFT, TxPool.addTxs2Pool_some, Option.map_some, BlockChain.received]

variable {cc}

/-- What `HandleinCommit` does when it succeeds: it adds the block, and the leader
reports it. -/
theorem handleinCommit_eq_done {main : Bool} {seqID : ℕ} {bc bc' : BlockChain H}
    {r : Option (Request H)} {outs : List BrokerInfoMsg}
    (h : handleinCommit cc main seqID bc r = .done bc' outs) :
    ∃ b, r.bind Request.content = some (some b) ∧ bc.addBlock cc (some b) = some (.ok bc') ∧
      (main = true → ∃ body, b.body = body.map some ∧ outs = [blockInfo cc body]) := by
  rw [handleinCommit] at h
  split at h
  · cases h
  · cases h
  rename_i b hb
  split at h
  · cases h
  · cases h
  rename_i bc₁ hadd
  split at h
  · split at h
    · cases h
    · rename_i body hbody
      cases h
      exact ⟨b, hb, hadd, fun _ => ⟨body, derefAll_eq_some hbody, rfl⟩⟩
  · rename_i hm
    cases h
    exact ⟨b, hb, hadd, fun h => absurd h hm⟩

/-- **What consensus may rely on** in the broker module. -/
theorem lawful : LawfulModule (ihm cc) (ohm (H := H)) requestNumber where
  propose := RawRelay.lawful.propose
  prePrepare := RawRelay.lawful.prePrepare
  commit {main seqID bc r bc' outs} h := by
    have h : handleinCommit cc main seqID bc r = .done bc' outs := h
    obtain ⟨b, hb, hadd, -⟩ := handleinCommit_eq_done h
    obtain ⟨b', hbb, hcur, hnum⟩ := RawRelay.addBlock_number hadd
    obtain rfl := Option.some.inj hbb
    refine ⟨(RawRelay.requestNumber_of_content hb).trans (congrArg some hnum), ?_⟩
    show bc'.currentBlock.header.number = bc.currentBlock.header.number + 1
    rw [hcur, hnum]
  sequential := RawRelay.lawful.sequential
  sequential_le := RawRelay.lawful.sequential_le
  outside {bc m bc'} h := by
    cases m with
    | relay txs shard seq =>
      obtain rfl := Option.some.inj h
      rfl
    | inject txs placements =>
      obtain ⟨pool, -, rfl⟩ := Option.map_eq_some_iff.mp h
      rfl

end RawBroker

/-! ## One round of a leader -/

/-- `HandleinPropose` and `HandleinCommit` at the leader; `none` where a block is
rejected or something panics. -/
def brokerRound (cc : ChainConfig H) (miner : ℕ) (now : Time) (bc : BlockChain H) :
    Option (BlockChain H × List BrokerInfoMsg) :=
  (RawRelay.handleinPropose cc miner now bc).bind fun r =>
    -- the sequence number is not read
    match RawBroker.handleinCommit cc true 0 r.2 r.1 with
    | .done bc' outs => some (bc', outs)
    | _ => none

/-- **What a round does**: a prefix of the pool is executed, and reported. -/
theorem brokerRound_spec {cc : ChainConfig H} {bc bc' : BlockChain H} {miner : ℕ}
    {now : Time} {infos : List BrokerInfoMsg} {txs : List Transaction} (hp : FreshPool bc txs)
    (h : brokerRound cc miner now bc = some (bc', infos)) :
    ∃ packed rest, txs = packed ++ rest ∧
      bc'.txpool.txQueue = rest.map some ∧
      bc'.storage.executedTransaction =
        bc.storage.executedTransaction ∪ (packed.map (·.txHash)).toFinset ∧
      bc'.partitionMap = bc.partitionMap ∧
      BlockChain.filterFreshTransactions bc (BlockChain.packForBlock cc bc).1 = packed ∧
      BlockChain.getUpdateStatusTrie cc bc (packed.map some) =
        some bc'.currentBlock.header.stateRoot ∧
      infos = [RawBroker.blockInfo cc packed] := by
  rw [brokerRound] at h
  obtain ⟨⟨r, bc₁⟩, hprop, h⟩ := Option.bind_eq_some_iff.mp h
  obtain ⟨⟨b, bc₂⟩, hgen, heq⟩ := Option.map_eq_some_iff.mp hprop
  obtain ⟨rfl, rfl⟩ := Prod.mk.inj heq
  dsimp only at h
  split at h
  · rename_i bc₃ outs hcm
    obtain ⟨rfl, rfl⟩ := Prod.mk.inj (Option.some.inj h)
    obtain ⟨b', hb', hadd, hreport⟩ := RawBroker.handleinCommit_eq_done hcm
    obtain rfl : b = b' := by simpa using hb'
    obtain ⟨packed, rest, htxs, hbody, hqueue, hexec, hmap, hfilter, hst⟩ := hp.addBlock hgen hadd
    obtain ⟨body, hbody', rfl⟩ := hreport rfl
    obtain rfl : packed = body :=
      List.map_injective_iff.mpr (Option.some_injective _) (hbody.symm.trans hbody')
    exact ⟨packed, rest, htxs, hqueue, hexec, hmap, hfilter, hst, rfl⟩
  · cases h

end BlockEmulator
