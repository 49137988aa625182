import BlockEmulator.Validation
import BlockEmulator.Transitions

/-!
# The relay module of a node (`pbftInside_module.go`, `pbftOutside_module.go`)

`RawRelayPbftExtraHandleMod` and `RawRelayOutsideModule`, the modules of a node
that is started without another choice: requests are blocks, and the leader that
commits a block relays its cross-shard transactions.

`lawful` says what consensus may rely on: a request that is proposed,
accepted or committed is a block one above the chain, and committing it moves the
chain up by exactly one.
-/

namespace BlockEmulator

variable {H : Type}

/-! ## Requests and messages between shards -/

/-- `message.RequestType`. -/
inductive RequestType where
  /-- `BlockRequest` -/
  | block
  /-- `PartitionReq` -/
  | partitionReq
  /-- any other string -/
  | other
  deriving DecidableEq

/-- `message.Request`, read as a block: the content is `none` when it does not
decode, `some none` when the block has no header. -/
structure Request (H : Type) where
  /-- `RequestType` -/
  requestType : RequestType
  /-- what `core.DecodeB` makes of the content -/
  content : Option (Option (Block H))
  /-- `ReqTime` -/
  reqTime : Time
  deriving DecidableEq

/-- The height of the block in a request. -/
def requestNumber : Option (Request H) → Option ℕ
  | some ⟨_, some (some b), _⟩ => some b.header.number
  | _ => none

/-- `message.Relay`, and `message.InjectTxs`, as a node gets them. -/
inductive OutsideMessage where
  /-- relayed transactions, from a shard -/
  | relay (txs : List (Option Transaction)) (senderShardID senderSeq : ℕ)
  /-- injected transactions, with placements -/
  | inject (txs : List (Option Transaction)) (placementMap : List (Address × ℕ))
  deriving DecidableEq

/-- `message.Relay`, as it is sent. -/
structure Relay where
  /-- the transactions, all marked as relayed -/
  txs : List Transaction
  /-- the shard that executed the first phase -/
  senderShardID : ℕ
  /-- its sequence number -/
  senderSeq : ℕ
  deriving DecidableEq

/-- `message.BlockInfoMsg`, as the relay module fills it. -/
structure BlockInfoMsg where
  /-- `BlockBodyLength` -/
  blockBodyLength : ℕ
  /-- `InnerShardTxs` -/
  innerShardTxs : List Transaction
  /-- `Epoch` -/
  epoch : ℕ
  /-- `Relay1Txs` -/
  relay1Txs : List Transaction
  /-- `Relay2Txs` -/
  relay2Txs : List Transaction
  /-- `SenderShardID` -/
  senderShardID : ℕ
  deriving DecidableEq

/-- What a relay node sends out of its shard. -/
inductive Outgoing where
  /-- to every node of a shard -/
  | relay (toShard : ℕ) (m : Relay)
  /-- to the supervisor -/
  | blockInfo (m : BlockInfoMsg)
  deriving DecidableEq

/-- The messages to the supervisor. -/
def Outgoing.toBlockInfo : Outgoing → Option BlockInfoMsg
  | .relay _ _ => none
  | .blockInfo b => some b

/-- The three lists that `HandleinCommit` sorts the transactions of a block
into. -/
structure Routed where
  /-- second phase elsewhere -/
  relay1Txs : List Transaction
  /-- second phase here -/
  relay2Txs : List Transaction
  /-- both ends here -/
  interShardTxs : List Transaction
  deriving DecidableEq

/-! ## `RawRelayPbftExtraHandleMod` -/

namespace RawRelay

variable [DecidableEq H] (cc : ChainConfig H)

/-- `HandleinPropose`. -/
def handleinPropose (nodeID now : ℕ) (bc : BlockChain H) :
    Option (Option (Request H) × BlockChain H) :=
  (bc.generateBlock cc nodeID now).map fun r => (some ⟨.block, some (some r.1), now⟩, r.2)

/-- `HandleinPrePrepare`. -/
def handleinPrePrepare (bc : BlockChain H) (r : Option (Request H)) : Option Bool :=
  r.bind fun r =>
    r.content.bind fun b =>
      (bc.isValidBlock cc b).map fun verdict =>
        match verdict with
        | .error _ => false
        | .ok () => true

/-- The loop of `HandleinCommit` at the leader; `none` is the panic on a
transaction that is not placed where its phase belongs. -/
def routeTxs (bc : BlockChain H) :
    List (Option Transaction) → TxPool → Routed → Option (TxPool × Routed)
  | [], pool, acc => some (pool, acc)
  | none :: _, _, _ => none
  | some tx :: txs, pool, acc =>
    let ssid := bc.getPartitionMap cc tx.sender
    let rsid := bc.getPartitionMap cc tx.recipient
    -- a transaction that is in the wrong shard panics
    if tx.relayed = false ∧ ssid ≠ cc.shardID then none
    else if tx.relayed = true ∧ rsid ≠ cc.shardID then none
    else if rsid ≠ cc.shardID then
      -- its second phase is due elsewhere
      (pool.addRelayTx { tx with relayed := true } rsid).bind fun pool =>
        routeTxs bc txs pool
          { acc with relay1Txs := acc.relay1Txs ++ [{ tx with relayed := true }] }
    else if tx.relayed then
      routeTxs bc txs pool { acc with relay2Txs := acc.relay2Txs ++ [tx] }
    else routeTxs bc txs pool { acc with interShardTxs := acc.interShardTxs ++ [tx] }

/-- `RelayMsgSend`. -/
def relayMsgSend (seqID : ℕ) (pool : TxPool) : List Outgoing × TxPool :=
  (((List.range cc.shardNums).filter (· ≠ cc.shardID)).map fun sid =>
      .relay sid ⟨(pool.relayPool.map (· sid)).getD [], cc.shardID, seqID⟩,
    pool.clearRelayPool)

/-- What the leader does after it has added a block. -/
def relayBlock (seqID : ℕ) (bc : BlockChain H) (b : Block H) :
    Option (BlockChain H × List Outgoing) :=
  (routeTxs cc bc b.body { bc.txpool with relayPool := some fun _ => [] } ⟨[], [], []⟩).map
    fun r =>
      let (outs, pool) := relayMsgSend cc seqID r.1
      ({ bc with txpool := pool },
        outs ++ [.blockInfo
          { blockBodyLength := b.body.length
            innerShardTxs := r.2.interShardTxs
            epoch := b.header.number
            relay1Txs := r.2.relay1Txs
            relay2Txs := r.2.relay2Txs
            senderShardID := cc.shardID }])

/-- `HandleinCommit`. -/
def handleinCommit (main : Bool) (seqID : ℕ) (bc : BlockChain H) (r : Option (Request H)) :
    CommitResult (BlockChain H) Outgoing :=
  match r.bind Request.content with
  | none | some none => .panic bc
  | some (some b) =>
    match bc.addBlock cc (some b) with
    | none => .panic bc
    | some (.error _) => .rejected
    | some (.ok bc') =>
      if main then
        match relayBlock cc seqID bc' b with
        | none => .panic bc'
        | some (bc'', outs) => .done bc'' outs
      else .done bc' []

/-- The loop of `HandleforSequentialRequest`. -/
def installOld : List (Option (Request H)) → BlockChain H → Option (Bool × BlockChain H)
  | [], bc => some (true, bc)
  | none :: _, bc => some (false, bc)
  | some r :: rs, bc =>
    -- the blocks before it stay
    if r.requestType ≠ .block then some (false, bc)
    else
      r.content.bind fun b =>
        (bc.addBlock cc b).bind fun res =>
          match res with
          | .error _ => some (false, bc)
          | .ok bc' => installOld rs bc'

/-- `HandleforSequentialRequest`. -/
def handleforSequentialRequest (bc : BlockChain H)
    (som : SendOldMessage (Option (Request H))) : Option (Bool × BlockChain H) :=
  if som.seqEndHeight < som.seqStartHeight ∨
      som.oldRequest.length ≠ som.seqEndHeight - som.seqStartHeight + 1 then some (false, bc)
  else installOld cc som.oldRequest bc

/-- The relay module inside PBFT. -/
def ihm : ExtraOpInConsensus (BlockChain H) (Option (Request H)) Outgoing where
  height bc := bc.currentBlock.header.number
  handleinPropose := handleinPropose cc
  handleinPrePrepare := handleinPrePrepare cc
  handleinCommit := handleinCommit cc
  handleforSequentialRequest := handleforSequentialRequest cc

/-! ## `RawRelayOutsideModule` -/

/-- `HandleMessageOutsidePBFT`: `handleRelay` and `handleInjectTx`. -/
def handleMessageOutsidePBFT (bc : BlockChain H) : OutsideMessage → Option (BlockChain H)
  | .relay txs _ _ => (bc.txpool.addTxs2Pool txs).map fun pool => { bc with txpool := pool }
  | .inject txs placementMap =>
    let bc := placementMap.foldl (fun bc e => bc.updatePartitionMap e.1 e.2) bc
    (bc.txpool.addTxs2Pool txs).map fun pool => { bc with txpool := pool }

/-- The relay module outside PBFT. -/
def ohm : OpInterShards (BlockChain H) OutsideMessage where
  handleMessageOutsidePBFT := handleMessageOutsidePBFT

/-! ## What consensus may rely on -/

variable {cc}

/-- An accepted block is the new top, one above the old one. -/
theorem addBlock_number {bc bc' : BlockChain H} {b : Option (Block H)}
    (h : bc.addBlock cc b = some (.ok bc')) :
    ∃ b', b = some b' ∧ bc'.currentBlock = b' ∧
      b'.header.number = bc.currentBlock.header.number + 1 := by
  obtain ⟨b', storage, hb, hv, -, rfl⟩ := BlockChain.addBlock_eq_ok h
  exact ⟨b', hb, rfl, (BlockChain.isValidBlock_eq_ok.mp hv).1⟩

/-- What `HandleinCommit` does when it succeeds: it adds the block, and at the
leader it relays. -/
theorem handleinCommit_eq_done {main : Bool} {seqID : ℕ} {bc bc' : BlockChain H}
    {r : Option (Request H)} {outs : List Outgoing}
    (h : handleinCommit cc main seqID bc r = .done bc' outs) :
    ∃ b bc₁, r.bind Request.content = some (some b) ∧
      bc.addBlock cc (some b) = some (.ok bc₁) ∧
      (main = true ∧ relayBlock cc seqID bc₁ b = some (bc', outs) ∨
        main = false ∧ bc' = bc₁ ∧ outs = []) := by
  rw [handleinCommit] at h
  split at h
  · cases h
  · cases h
  rename_i b hb
  split at h
  · cases h
  · cases h
  rename_i bc₁ hadd
  refine ⟨b, bc₁, hb, hadd, ?_⟩
  split at h
  · rename_i hm
    split at h
    · cases h
    · rename_i hr
      cases h
      exact .inl ⟨hm, hr⟩
  · rename_i hm
    cases h
    exact .inr ⟨by simpa using hm, rfl, rfl⟩

omit [DecidableEq H] in
/-- What is relayed touches the pool only. -/
theorem relayBlock_eq_some {seqID : ℕ} {bc bc' : BlockChain H} {b : Block H}
    {outs : List Outgoing} (h : relayBlock cc seqID bc b = some (bc', outs)) :
    ∃ pool acc,
      routeTxs cc bc b.body { bc.txpool with relayPool := some fun _ => [] } ⟨[], [], []⟩ =
        some (pool, acc) ∧
      bc' = { bc with txpool := pool.clearRelayPool } ∧
      outs = (relayMsgSend cc seqID pool).1 ++ [.blockInfo
        { blockBodyLength := b.body.length
          innerShardTxs := acc.interShardTxs
          epoch := b.header.number
          relay1Txs := acc.relay1Txs
          relay2Txs := acc.relay2Txs
          senderShardID := cc.shardID }] := by
  rw [relayBlock] at h
  obtain ⟨⟨pool, acc⟩, hroute, heq⟩ := Option.map_eq_some_iff.mp h
  obtain ⟨rfl, rfl⟩ := Prod.mk.inj heq
  exact ⟨pool, acc, hroute, rfl, rfl⟩

omit [DecidableEq H] in
theorem requestNumber_of_content {r : Option (Request H)} {b : Block H}
    (h : r.bind Request.content = some (some b)) : requestNumber r = some b.header.number := by
  obtain ⟨⟨type, content, time⟩, rfl, hc⟩ := Option.bind_eq_some_iff.mp h
  obtain rfl : content = some (some b) := hc
  rfl

/-- Installed requests are the next blocks, one by one. -/
theorem installOld_eq_true {rs : List (Option (Request H))} {bc bc' : BlockChain H}
    (h : installOld cc rs bc = some (true, bc')) :
    bc'.currentBlock.header.number = bc.currentBlock.header.number + rs.length ∧
      ∀ k r, rs[k]? = some r →
        requestNumber r = some (bc.currentBlock.header.number + k + 1) := by
  induction rs generalizing bc with
  | nil =>
    cases h
    exact ⟨rfl, fun k r hk => by simp at hk⟩
  | cons r rs ih =>
    rcases r with _ | r
    · cases h
    rw [installOld] at h
    split at h
    · cases h
    obtain ⟨b, hb, hbind⟩ := Option.bind_eq_some_iff.mp h
    obtain ⟨res, hres, hrest⟩ := Option.bind_eq_some_iff.mp hbind
    rcases res with e | bc₁
    · cases hrest
    obtain ⟨b', rfl, hcur, hnum⟩ := addBlock_number hres
    obtain ⟨hheight, hall⟩ := ih hrest
    rw [hcur, hnum] at hheight hall
    refine ⟨?_, fun k s hk => ?_⟩
    · rw [hheight, List.length_cons]
      omega
    · cases k with
      | zero =>
        obtain rfl : some r = s := by simpa using hk
        rw [requestNumber_of_content (r := some r) hb, hnum]
      | succ k =>
        rw [hall k s (by simpa using hk)]
        congr 1
        omega

/-- Installing old requests never takes a block away. -/
theorem installOld_le {rs : List (Option (Request H))} {bc bc' : BlockChain H} {ok : Bool}
    (h : installOld cc rs bc = some (ok, bc')) :
    bc.currentBlock.header.number ≤ bc'.currentBlock.header.number := by
  induction rs generalizing bc with
  | nil =>
    cases h
    exact le_refl _
  | cons r rs ih =>
    rcases r with _ | r
    · cases h
      exact le_refl _
    rw [installOld] at h
    split at h
    · cases h
      exact le_refl _
    obtain ⟨b, hb, hbind⟩ := Option.bind_eq_some_iff.mp h
    obtain ⟨res, hres, hrest⟩ := Option.bind_eq_some_iff.mp hbind
    rcases res with e | bc₁
    · cases hrest
      exact le_refl _
    · obtain ⟨b', -, hcur, hnum⟩ := addBlock_number hres
      have hle := ih hrest
      rw [hcur, hnum] at hle
      omega

omit [DecidableEq H] in
/-- What a message from outside changes: the pool and the placements. -/
theorem handleMessageOutsidePBFT_eq_some {bc bc' : BlockChain H} {m : OutsideMessage}
    (h : handleMessageOutsidePBFT bc m = some bc') :
    ∃ pool pm, bc' = { bc with txpool := pool, partitionMap := pm } := by
  cases m with
  | relay txs shard seq =>
    obtain ⟨pool, -, rfl⟩ := Option.map_eq_some_iff.mp h
    exact ⟨pool, bc.partitionMap, rfl⟩
  | inject txs placements =>
    rw [handleMessageOutsidePBFT, BlockChain.foldl_updatePartitionMap] at h
    obtain ⟨pool, -, rfl⟩ := Option.map_eq_some_iff.mp h
    exact ⟨pool, _, rfl⟩

/-- **What consensus may rely on** in the relay module. -/
theorem lawful : LawfulModule (ihm cc) (ohm (H := H)) requestNumber where
  propose {n now bc r bc'} h := by
    obtain ⟨⟨b, bc₁⟩, hgen, heq⟩ := Option.map_eq_some_iff.mp h
    obtain ⟨rfl, rfl⟩ := Prod.mk.inj heq
    obtain ⟨-, hnum, -, -, -, -, -, -, rfl⟩ := BlockChain.generateBlock_eq_some hgen
    exact ⟨congrArg some hnum, rfl⟩
  prePrepare {bc r} h := by
    obtain ⟨r, rfl, h⟩ := Option.bind_eq_some_iff.mp h
    obtain ⟨b, hb, h⟩ := Option.bind_eq_some_iff.mp h
    obtain ⟨verdict, hv, h⟩ := Option.map_eq_some_iff.mp h
    rcases verdict with e | u
    · cases h
    · rcases b with _ | b
      · cases hv
      · rw [requestNumber_of_content (r := some r) hb,
          (BlockChain.isValidBlock_eq_ok.mp hv).1]
        rfl
  commit {main seqID bc r bc' outs} h := by
    obtain ⟨b, bc₁, hb, hadd, hrest⟩ := handleinCommit_eq_done h
    obtain ⟨b', hbb, hcur, hnum⟩ := addBlock_number hadd
    obtain rfl := Option.some.inj hbb
    have hheight : bc'.currentBlock = b := by
      rcases hrest with ⟨-, hr⟩ | ⟨-, rfl, -⟩
      · obtain ⟨pool, -, -, rfl, -⟩ := relayBlock_eq_some hr
        exact hcur
      · exact hcur
    refine ⟨(requestNumber_of_content hb).trans (congrArg some hnum), ?_⟩
    show bc'.currentBlock.header.number = bc.currentBlock.header.number + 1
    rw [hheight, hnum]
  sequential {bc som bc'} h := by
    have h : handleforSequentialRequest cc bc som = some (true, bc') := h
    rw [handleforSequentialRequest] at h
    split at h
    · cases h
    rename_i hlen
    obtain ⟨hle, hlen⟩ := not_or.mp hlen
    obtain ⟨hheight, hall⟩ := installOld_eq_true h
    exact ⟨Nat.le_of_not_lt hle, not_not.mp hlen, hheight, hall⟩
  sequential_le {bc som bc'} h := by
    have h : handleforSequentialRequest cc bc som = some (false, bc') := h
    rw [handleforSequentialRequest] at h
    split at h
    · cases h
      exact le_refl _
    · exact installOld_le h
  outside {bc m bc'} h := by
    obtain ⟨pool, pm, rfl⟩ := handleMessageOutsidePBFT_eq_some h
    rfl

end RawRelay

end BlockEmulator
