import BlockEmulator.Balances
import BlockEmulator.PlacementTable
import BlockEmulator.LeaderRound
import BlockEmulator.RelayShard

/-!
# Placements on their way to relay shards

The supervisor places the addresses of a batch and tells every shard with the Inject
messages of the batch; shards tell each other of cross-shard transactions with Relay
messages. Nothing orders an Inject message of the supervisor before a Relay message that
another shard sends because of the same batch.

* `PlacementSound` — the map of a shard is a part of the table of the supervisor, and a
  relayed transaction goes where the table or the default has its recipient.
* `relayed_credited_iff` — **where a relayed transaction is credited**: exactly where the
  placement of its recipient has arrived in time.
* `relay_overtakes_inject` — a Relay message that arrives before the placement.
-/

namespace BlockEmulator

open StepSystem

variable {H : Type} [DecidableEq H]

/-! ## The system -/

/-- A supervisor that places addresses, and relay shards. -/
structure PlacementSystem (H : Type) where
  /-- what the placement goes by -/
  env : SpringEnv H
  /-- the number of transactions a block holds -/
  blockSize : ℕ
  /-- `params.UseBlocksizeInBytes` is `1` -/
  useBlocksizeInBytes : Bool
  /-- `params.BlocksizeInBytes` -/
  blocksizeInBytes : ℕ
  /-- `params.InjectSpeed` -/
  injectSpeed : ℕ

namespace PlacementSystem

variable (sys : PlacementSystem H)

/-- The configuration of a shard. -/
def cc (k : ℕ) : ChainConfig H where
  hash := sys.env.hash
  shardID := k
  shardNums := sys.env.p.shardNum
  blockSize := sys.blockSize
  useBlocksizeInBytes := sys.useBlocksizeInBytes
  blocksizeInBytes := sys.blocksizeInBytes
  shardNum := sys.env.p.shardNum

omit [DecidableEq H] in
@[simp] theorem cc_shardID (k : ℕ) : (sys.cc k).shardID = k := rfl

omit [DecidableEq H] in
/-- Without a placement, an address is where the supervisor hashes it to. -/
theorem getPartitionMap_eq (bc : BlockChain H) (k : ℕ) (a : Address) :
    bc.getPartitionMap (sys.cc k) a = (bc.partitionMap a).getD (sys.env.addr2Shard a) := by
  rw [BlockChain.getPartitionMap]
  cases bc.partitionMap a with
  | none => rfl
  | some j => rfl

/-- The cuts of the loop of `txSending`: before every `InjectSpeed`-th transaction, and
at the end. -/
def chunks : ℕ → List Transaction → List Transaction → List (List Transaction)
  | idx, sendToShard, [] => if 0 < idx then [sendToShard] else []
  | idx, sendToShard, tx :: txs =>
    if 0 < idx ∧ idx % sys.injectSpeed = 0 then sendToShard :: chunks (idx + 1) [tx] txs
    else chunks (idx + 1) (sendToShard ++ [tx]) txs

/-- `sendersid`: the shard that gets a transaction; an absent entry is read as zero. -/
def senderShard (st : PlacementState) (tx : Transaction) : ℕ :=
  if sys.env.p.springMode ≠ 0 then (st.springAddrShard.lookup tx.sender).getD 0
  else sys.env.addr2Shard tx.sender

/-- The Inject messages of one chunk: one to every shard, with the whole placement. -/
def injectChunk (st : PlacementState) (batchPlacement : BatchPlacement)
    (chunk : List Transaction) : List (ℕ × OutsideMessage) :=
  (List.range sys.env.p.shardNum).map fun sid =>
    (sid, .inject ((chunk.filter fun tx => sys.senderShard st tx = sid).map some)
      (batchPlacement.entries.map fun e => (e.1, e.2)))

/-- `txSending`: the state of the supervisor after it, and what it sends; `none` where the
placement panics, or the division by `InjectSpeed` does. -/
def txSending (st : PlacementState) (txlist : List Transaction) :
    Option (PlacementState × List (ℕ × OutsideMessage)) :=
  let prepared : Option Placing :=
    if sys.env.p.springMode ≠ 0 then springPreparePlacement sys.env st txlist else some (st, ∅)
  if sys.injectSpeed = 0 ∧ txlist ≠ [] then none
  else prepared.map fun s =>
    (s.1, (sys.chunks 0 [] txlist).flatMap (sys.injectChunk s.1 s.2))

end PlacementSystem

/-- The state of the supervisor, of the shards, and the messages under way. -/
structure PlacementNet (H : Type) where
  /-- the supervisor -/
  placement : PlacementState
  /-- the chain of each shard -/
  chains : ℕ → BlockChain H
  /-- the request that a shard works on -/
  pending : ℕ → Option (Request H)
  /-- the messages under way, with their destinations -/
  flight : List (ℕ × OutsideMessage)

/-- What can happen. -/
inductive PlacementNetAction where
  /-- the supervisor places a batch and sends it -/
  | txSending (txlist : List Transaction)
  /-- the supervisor collects blocks -/
  | feedback (springStats : ℕ → List SpringBlockStat)
  /-- a message arrives -/
  | deliver (i : ℕ)
  /-- a leader proposes a block -/
  | propose (sid miner : ℕ) (now : Time)
  /-- the shard commits the block it works on -/
  | commit (sid seqID : ℕ)
  /-- the shard gives it up -/
  | abandon (sid : ℕ)

/-- A Relay message, as its destination gets it. -/
def Relay.toMessage (e : ℕ × Relay) : ℕ × OutsideMessage :=
  (e.1, .relay (e.2.txs.map some) e.2.senderShardID e.2.senderSeq)

namespace PlacementNet

variable (sys : PlacementSystem H)

/-- The system just started. -/
def start : PlacementNet H where
  placement := .new sys.env.p
  chains k := genesisChain (sys.cc k)
  pending _ := none
  flight := []

/-- One step. New transactions are in their first phase; a node that panics is gone. -/
def step (s : PlacementNet H) : PlacementNetAction → Option (PlacementNet H)
  | .txSending txlist =>
    if ∀ tx ∈ txlist, tx.relayed = false then
      (sys.txSending s.placement txlist).map fun r =>
        { s with placement := r.1, flight := s.flight ++ r.2 }
    else none
  | .feedback springStats =>
    some { s with placement := { s.placement with springStats := springStats } }
  | .deliver i =>
    s.flight[i]?.bind fun e =>
      (RawRelay.handleMessageOutsidePBFT (s.chains e.1) e.2).map fun bc =>
        { s with chains := Function.update s.chains e.1 bc, flight := s.flight.eraseIdx i }
  | .propose sid miner now =>
    (RawRelay.handleinPropose (sys.cc sid) miner now (s.chains sid)).map fun r =>
      { s with
        chains := Function.update s.chains sid r.2
        pending := Function.update s.pending sid r.1 }
  | .commit sid seqID =>
    (s.pending sid).bind fun r =>
      match RawRelay.handleinCommit (sys.cc sid) true seqID (s.chains sid) (some r) with
      | .done bc outs =>
        some { s with
          chains := Function.update s.chains sid bc
          pending := Function.update s.pending sid none
          flight := s.flight ++ (outs.filterMap Outgoing.toRelay).map Relay.toMessage }
      | .rejected => some { s with pending := Function.update s.pending sid none }
      | .panic _ => none
  | .abandon sid => some { s with pending := Function.update s.pending sid none }

end PlacementNet

/-! ## What messages carry -/

/-- The transactions of a message. -/
def OutsideMessage.txs : OutsideMessage → List (Option Transaction)
  | .relay txs _ _ => txs
  | .inject txs _ => txs

/-- The placements of a message. -/
def OutsideMessage.placementMap : OutsideMessage → List (Address × ℕ)
  | .relay _ _ _ => []
  | .inject _ placementMap => placementMap

omit [DecidableEq H] in
/-- **What the arrival of a message changes**: its transactions are pooled, its placements
are entered. -/
theorem handleMessageOutsidePBFT_mem {bc bc' : BlockChain H} {m : OutsideMessage}
    (h : RawRelay.handleMessageOutsidePBFT bc m = some bc') :
    (∀ tx, some tx ∈ bc'.txpool.txQueue → some tx ∈ bc.txpool.txQueue ∨ some tx ∈ m.txs) ∧
    ∀ a j, bc'.partitionMap a = some j →
      bc.partitionMap a = some j ∨ (a, j) ∈ m.placementMap := by
  have hpooled : ∀ {pool pool' : TxPool} {txs}, pool.addTxs2Pool txs = some pool' →
      ∀ tx, some tx ∈ pool'.txQueue → some tx ∈ pool.txQueue ∨ some tx ∈ txs := by
    intro pool pool' txs hadd tx htx
    obtain ⟨ts, hts, rfl⟩ := Option.map_eq_some_iff.mp hadd
    rw [derefAll_eq_some hts]
    exact List.mem_append.mp htx
  cases m with
  | relay txs shard seq =>
    obtain ⟨pool, hpool, rfl⟩ := Option.map_eq_some_iff.mp h
    exact ⟨hpooled hpool, fun a j ha => .inl ha⟩
  | inject txs placements =>
    rw [RawRelay.handleMessageOutsidePBFT, BlockChain.foldl_updatePartitionMap] at h
    obtain ⟨pool, hpool, rfl⟩ := Option.map_eq_some_iff.mp h
    exact ⟨hpooled hpool, fun a j ha => placeAll_eq_some ha⟩

namespace PlacementSystem

variable (sys : PlacementSystem H)

omit [DecidableEq H] in
/-- A chunk is a part of the batch. -/
theorem mem_chunks {idx : ℕ} {cur txs chunk : List Transaction} {tx : Transaction}
    (h : chunk ∈ sys.chunks idx cur txs) (htx : tx ∈ chunk) : tx ∈ cur ∨ tx ∈ txs := by
  induction txs generalizing idx cur with
  | nil =>
    rw [chunks] at h
    split at h
    · rw [List.mem_singleton] at h
      exact .inl (h ▸ htx)
    · cases h
  | cons t txs ih =>
    rw [chunks] at h
    split at h
    · rcases List.mem_cons.mp h with rfl | h
      · exact .inl htx
      · have := ih h
        grind
    · have := ih h
      grind

/-- Whether a transaction that is marked as relayed belongs to a shard: there its
recipient is, by the table or by its hash. -/
def BoundFor (st : PlacementState) (k : ℕ) (tx : Transaction) : Prop :=
  tx.relayed = true → st.springAddrShard.lookup tx.recipient = some k ∨
    sys.env.addr2Shard tx.recipient = k

/-- What is true of a message under way. -/
structure MessageSound (st : PlacementState) (k : ℕ) (m : OutsideMessage) : Prop where
  /-- its relayed transactions belong to its destination -/
  txs : ∀ tx, some tx ∈ m.txs → sys.BoundFor st k tx
  /-- its placements are those of the table -/
  placements : ∀ a j, (a, j) ∈ m.placementMap → st.springAddrShard.lookup a = some j

variable {sys} {st st' : PlacementState}

omit [DecidableEq H] in
theorem BoundFor.kept (hk : TableKept st st') {k : ℕ} {tx : Transaction}
    (h : sys.BoundFor st k tx) : sys.BoundFor st' k tx :=
  fun hr => (h hr).imp_left (hk _ _)

omit [DecidableEq H] in
theorem MessageSound.kept (hk : TableKept st st') {k : ℕ} {m : OutsideMessage}
    (h : sys.MessageSound st k m) : sys.MessageSound st' k m :=
  ⟨fun tx htx => (h.txs tx htx).kept hk, fun a j ha => hk a j (h.placements a j ha)⟩

omit [DecidableEq H] in
/-- **What a batch does**: the table grows, and every message has a part of it. -/
theorem txSending_spec (hp : 0 < sys.env.p.shardNum) {txlist : List Transaction}
    {msgs : List (ℕ × OutsideMessage)} (hok : TableOk sys.env st)
    (hnew : ∀ tx ∈ txlist, tx.relayed = false)
    (h : sys.txSending st txlist = some (st', msgs)) :
    TableOk sys.env st' ∧ TableKept st st' ∧ ∀ e ∈ msgs, sys.MessageSound st' e.1 e.2 := by
  rw [txSending] at h
  split at h
  · cases h
  obtain ⟨s, hs, heq⟩ := Option.map_eq_some_iff.mp h
  obtain ⟨rfl, rfl⟩ := Prod.mk.inj heq
  have hgrows : Grows sys.env (st, ∅) s := by
    split at hs
    · exact (springPreparePlacement_spec hp hs).1
    · obtain rfl := Option.some.inj hs
      exact .refl _
  have hplacing : PlacingOk sys.env s := hgrows.ok ⟨hok, fun a n ha => by cases ha⟩
  refine ⟨hplacing.table, hgrows.kept, fun e he => ?_⟩
  obtain ⟨chunk, hchunk, he⟩ := List.mem_flatMap.mp he
  obtain ⟨sid, -, rfl⟩ := List.mem_map.mp he
  constructor
  · -- new transactions are in their first phase
    intro tx htx hr
    obtain ⟨t, ht, heq⟩ := List.mem_map.mp htx
    obtain rfl := Option.some.inj heq
    rcases sys.mem_chunks hchunk (List.mem_of_mem_filter ht) with hmem | hmem
    · cases hmem
    · rw [hnew t hmem] at hr
      cases hr
  · intro a j ha
    obtain ⟨e, he, heq⟩ := List.mem_map.mp ha
    obtain ⟨rfl, rfl⟩ := Prod.mk.inj heq
    exact hplacing.batch _ _ (AList.mem_lookup_iff.mpr he)

end PlacementSystem

/-! ## What every step keeps -/

/-- The transactions of a request. -/
def Request.Has (r : Request H) (tx : Transaction) : Prop :=
  ∃ b, r.content = some (some b) ∧ some tx ∈ b.body

/-- The maps of the shards are parts of the table, and relayed transactions are where
their recipients are. -/
structure PlacementSound (sys : PlacementSystem H) (s : PlacementNet H) : Prop where
  /-- the table of the supervisor -/
  table : TableOk sys.env s.placement
  /-- an entry of a shard is one of the supervisor -/
  maps : ∀ k a j, (s.chains k).partitionMap a = some j →
    s.placement.springAddrShard.lookup a = some j
  /-- what is pooled belongs to the shard -/
  pooled : ∀ k tx, some tx ∈ (s.chains k).txpool.txQueue → sys.BoundFor s.placement k tx
  /-- so does what the shard works on -/
  pending : ∀ k, ∀ r ∈ s.pending k, ∀ tx, r.Has tx → sys.BoundFor s.placement k tx
  /-- what is under way belongs to its destination -/
  flight : ∀ e ∈ s.flight, sys.MessageSound s.placement e.1 e.2

/-- What a commit does: the block is a new top, and what it makes due is sent. -/
theorem handleinCommit_mem {cc : ChainConfig H} {seqID : ℕ} {bc bc' : BlockChain H}
    {r : Request H} {outs : List Outgoing}
    (h : RawRelay.handleinCommit cc true seqID bc (some r) = .done bc' outs) :
    bc'.partitionMap = bc.partitionMap ∧
    (∀ tx, some tx ∈ bc'.txpool.txQueue → some tx ∈ bc.txpool.txQueue) ∧
    ∀ e ∈ outs.filterMap Outgoing.toRelay, ∀ tx ∈ e.2.txs,
      tx.relayed = true ∧ bc.getPartitionMap cc tx.recipient = e.1 := by
  obtain ⟨b, bc₁, -, hadd, ⟨-, hrelay⟩ | ⟨hmain, -, -⟩⟩ := RawRelay.handleinCommit_eq_done h
  · obtain ⟨b', storage, hb', -, -, rfl⟩ := BlockChain.addBlock_eq_ok hadd
    obtain rfl := Option.some.inj hb'
    obtain ⟨txs, info, -, -, rfl, rfl⟩ := RawRelay.relayBlock_spec hrelay
    refine ⟨rfl, fun tx htx => (TxPool.mem_removeTxs.mp htx).1, fun e he tx htx => ?_⟩
    obtain ⟨o, ho, hoe⟩ := List.mem_filterMap.mp he
    rcases List.mem_append.mp ho with ho | ho
    · obtain ⟨sid, -, rfl⟩ := List.mem_map.mp ho
      obtain rfl := Option.some.inj hoe
      obtain ⟨t, ht, rfl⟩ := List.mem_map.mp htx
      exact ⟨rfl, of_decide_eq_true (List.mem_filter.mp ht).2⟩
    · rw [List.mem_singleton] at ho
      subst ho
      cases hoe
  · cases hmain

namespace PlacementSound

variable {sys : PlacementSystem H} {s t : PlacementNet H}

omit [DecidableEq H] in
theorem start : PlacementSound sys (PlacementNet.start sys) where
  table := tableOk_new _ rfl
  maps k a j h := by cases h
  pooled k tx h := absurd h List.not_mem_nil
  pending k r h := by cases h
  flight e h := absurd h List.not_mem_nil

omit [DecidableEq H] in
/-- The table grows: nothing else has to change. -/
theorem kept (hs : PlacementSound sys s) {st : PlacementState} (hok : TableOk sys.env st)
    (hk : TableKept s.placement st) {msgs : List (ℕ × OutsideMessage)}
    (hmsgs : ∀ e ∈ msgs, sys.MessageSound st e.1 e.2) :
    PlacementSound sys { s with placement := st, flight := s.flight ++ msgs } where
  table := hok
  maps k a j h := hk a j (hs.maps k a j h)
  pooled k tx h := (hs.pooled k tx h).kept hk
  pending k r hr tx h := (hs.pending k r hr tx h).kept hk
  flight e he := by
    rcases List.mem_append.mp he with he | he
    · exact (hs.flight e he).kept hk
    · exact hmsgs e he

omit [DecidableEq H] in
/-- One shard changes: its map and what it holds are to be shown. -/
theorem shard (hs : PlacementSound sys s) {k : ℕ} {bc : BlockChain H} {r : Option (Request H)}
    {flight : List (ℕ × OutsideMessage)}
    (hmap : ∀ a j, bc.partitionMap a = some j → s.placement.springAddrShard.lookup a = some j)
    (hpool : ∀ tx, some tx ∈ bc.txpool.txQueue → sys.BoundFor s.placement k tx)
    (hpending : ∀ r' ∈ r, ∀ tx, r'.Has tx → sys.BoundFor s.placement k tx)
    (hflight : ∀ e ∈ flight, sys.MessageSound s.placement e.1 e.2) :
    PlacementSound sys
      { s with
        chains := Function.update s.chains k bc
        pending := Function.update s.pending k r
        flight := flight } where
  table := hs.table
  maps i a j h := by
    by_cases hi : i = k
    · subst hi
      exact hmap a j (by simpa using h)
    · exact hs.maps i a j (by simpa [hi] using h)
  pooled i tx h := by
    by_cases hi : i = k
    · subst hi
      exact hpool tx (by simpa using h)
    · exact hs.pooled i tx (by simpa [hi] using h)
  pending i r' hr tx h := by
    by_cases hi : i = k
    · subst hi
      exact hpending r' (by simpa using hr) tx h
    · exact hs.pending i r' (by simpa [hi] using hr) tx h
  flight := hflight

/-- **Every step keeps it.** -/
theorem step (hp : 0 < sys.env.p.shardNum) {a : PlacementNetAction} (hs : PlacementSound sys s)
    (h : s.step sys a = some t) : PlacementSound sys t := by
  cases a with
  | txSending txlist =>
    rw [PlacementNet.step] at h
    split at h
    case isFalse => cases h
    rename_i hnew
    obtain ⟨⟨st, msgs⟩, hsend, rfl⟩ := Option.map_eq_some_iff.mp h
    obtain ⟨hok, hk, hmsgs⟩ := PlacementSystem.txSending_spec hp hs.table hnew hsend
    exact hs.kept hok hk hmsgs
  | feedback springStats =>
    obtain rfl := Option.some.inj h
    have hsame : SameTable s.placement { s.placement with springStats := springStats } :=
      ⟨rfl, rfl, rfl⟩
    have hkept := hs.kept (hsame.tableOk hs.table) (fun _ _ ha => ha)
      (List.forall_mem_nil fun e : ℕ × OutsideMessage => sys.MessageSound _ e.1 e.2)
    rwa [List.append_nil] at hkept
  | deliver i =>
    obtain ⟨e, he, h⟩ := Option.bind_eq_some_iff.mp h
    obtain ⟨bc, hbc, rfl⟩ := Option.map_eq_some_iff.mp h
    obtain ⟨hpool, hmap⟩ := handleMessageOutsidePBFT_mem hbc
    have hm := hs.flight e (List.mem_of_getElem? he)
    have hflight : ∀ e' ∈ s.flight.eraseIdx i, sys.MessageSound s.placement e'.1 e'.2 :=
      fun e' he' => hs.flight e' (List.mem_of_mem_eraseIdx he')
    have hshard := hs.shard (k := e.1) (r := s.pending e.1)
      (fun a j ha => (hmap a j ha).elim (hs.maps e.1 a j) (hm.placements a j))
      (fun tx htx => (hpool tx htx).elim (hs.pooled e.1 tx) (hm.txs tx))
      (hs.pending e.1) hflight
    rwa [Function.update_eq_self] at hshard
  | propose sid miner now =>
    obtain ⟨⟨r, bc⟩, hprop, rfl⟩ := Option.map_eq_some_iff.mp h
    obtain ⟨⟨b, bc₁⟩, hgen, heq⟩ := Option.map_eq_some_iff.mp hprop
    obtain ⟨rfl, rfl⟩ := Prod.mk.inj heq
    obtain ⟨hbody, -, -, -, -, -, -, -, rfl⟩ := BlockChain.generateBlock_eq_some hgen
    have hsplit := BlockChain.packForBlock_append (sys.cc sid) (s.chains sid)
    refine hs.shard (hs.maps sid) (fun tx htx => ?_) ?_ hs.flight
    · apply hs.pooled sid
      rw [← hsplit]
      exact List.mem_append_right _ htx
    · rintro r hr tx ⟨b', hb', htx⟩
      obtain rfl := Option.some.inj hr
      obtain rfl : b = b' := by simpa using hb'
      rw [hbody] at htx
      obtain ⟨t, ht, heq⟩ := List.mem_map.mp htx
      obtain rfl := Option.some.inj heq
      apply hs.pooled sid
      rw [← hsplit]
      exact List.mem_append_left _ ((BlockChain.filterFresh_spec _ _ _).2 t ht).1
  | commit sid seqID =>
    obtain ⟨r, hr, h⟩ := Option.bind_eq_some_iff.mp h
    have hnone : ∀ r' ∈ (none : Option (Request H)), ∀ tx, r'.Has tx →
        sys.BoundFor s.placement sid tx := by
      intro r' hr'
      cases hr'
    split at h
    · rename_i bc outs hcm
      obtain rfl := Option.some.inj h
      obtain ⟨hmap, hpool, hsent⟩ := handleinCommit_mem hcm
      refine hs.shard (fun a j ha => hs.maps sid a j (hmap ▸ ha))
        (fun tx htx => hs.pooled sid tx (hpool tx htx)) hnone fun e he => ?_
      rcases List.mem_append.mp he with he | he
      · exact hs.flight e he
      · -- the sender routes by its own entry, which is one of the table, or by the hash
        obtain ⟨e', he', rfl⟩ := List.mem_map.mp he
        refine ⟨fun tx htx _ => ?_, fun a j ha => absurd ha List.not_mem_nil⟩
        obtain ⟨t, ht, heq⟩ := List.mem_map.mp htx
        obtain rfl := Option.some.inj heq
        have hto := (hsent e' he' t ht).2
        rw [sys.getPartitionMap_eq] at hto
        rcases hentry : (s.chains sid).partitionMap t.recipient with _ | j
        · rw [hentry] at hto
          exact .inr hto
        · rw [hentry] at hto
          obtain rfl : j = e'.1 := hto
          exact .inl (hs.maps sid _ _ hentry)
    · obtain rfl := Option.some.inj h
      have hshard := hs.shard (hs.maps sid) (hs.pooled sid) hnone hs.flight
      rwa [Function.update_eq_self] at hshard
    · cases h
  | abandon sid =>
    obtain rfl := Option.some.inj h
    have hshard := hs.shard (r := none) (hs.maps sid) (hs.pooled sid) nofun hs.flight
    rwa [Function.update_eq_self] at hshard

theorem reaches (hp : 0 < sys.env.p.shardNum)
    (hr : Reaches (PlacementNet.step sys) (fun _ _ => True) (.start sys) s) :
    PlacementSound sys s :=
  hr.invariant (PlacementSound sys) start fun _ _ _ hs _ h => hs.step hp h

end PlacementSound

/-! ## Where relayed transactions are credited -/

/-- A relayed transaction is credited by the commit of its block. -/
structure RelayCredited (cc : ChainConfig H) (bc : BlockChain H) (tx : Transaction) : Prop where
  /-- the map sends the recipient here -/
  home : bc.getPartitionMap cc tx.recipient = cc.shardID
  /-- execution credits the recipient, wherever the transaction is in the block -/
  credited : ∀ v, tx.value = some v → ∀ i st cnt, ∃ st',
    bc.executeTx cc i tx st cnt = some (st', cnt + 1) ∧
      balanceOf st' tx.recipient = balanceOf st tx.recipient + v
  /-- the loop of `HandleinCommit` goes past it -/
  routed : ∀ pool acc, (RawRelay.routeTxs cc bc [some tx] pool acc).isSome = true

omit [DecidableEq H] in
/-- All of it depends on the map. -/
theorem relayCredited_iff {cc : ChainConfig H} {bc : BlockChain H} {tx : Transaction}
    (hr : tx.relayed = true) :
    RelayCredited cc bc tx ↔ bc.getPartitionMap cc tx.recipient = cc.shardID := by
  refine ⟨RelayCredited.home, fun home => ⟨home, fun v hv i st cnt => ?_, fun pool acc => ?_⟩⟩
  · refine ⟨st.insert tx.recipient ((BlockChain.readAccount st i tx.recipient).deposit v), ?_, ?_⟩
    · have hhome : bc.isHome cc tx.recipient := home
      simp [BlockChain.executeTx, BlockChain.executeRecipient, hr, hhome, hv]
    · rw [balanceOf_insert_self, AccountState.deposit, BlockChain.readAccount_balance]
  · simp [RawRelay.routeTxs, hr, home]

/-- Whether the placement of the recipient has arrived in time at the shard that the
supervisor placed it in, and not too early at another one, which got the transaction
before the supervisor placed its recipient. -/
def PlacementInTime (sys : PlacementSystem H) (s : PlacementNet H) (k : ℕ) (tx : Transaction) :
    Prop :=
  match s.placement.springAddrShard.lookup tx.recipient with
  | none => True
  | some j =>
    if j = k then
      sys.env.addr2Shard tx.recipient = k ∨ ((s.chains k).partitionMap tx.recipient).isSome = true
    else (s.chains k).partitionMap tx.recipient = none

omit [DecidableEq H] in
/-- The map sends the recipient here exactly where the placement is in time. -/
theorem PlacementSound.home_iff {sys : PlacementSystem H} {s : PlacementNet H}
    (hs : PlacementSound sys s) {k : ℕ} {tx : Transaction}
    (hbound : s.placement.springAddrShard.lookup tx.recipient = some k ∨
      sys.env.addr2Shard tx.recipient = k) :
    (s.chains k).getPartitionMap (sys.cc k) tx.recipient = (sys.cc k).shardID ↔
      PlacementInTime sys s k tx := by
  rw [sys.getPartitionMap_eq, sys.cc_shardID, PlacementInTime]
  have hentry := hs.maps k tx.recipient
  rcases htable : s.placement.springAddrShard.lookup tx.recipient with _ | j
  · -- never placed: the default, on both sides
    rw [htable] at hbound hentry
    have hnone : (s.chains k).partitionMap tx.recipient = none := by
      rw [Option.eq_none_iff_forall_ne_some]
      intro j hj
      cases hentry j hj
    rw [hnone, Option.getD_none]
    exact iff_of_true (hbound.resolve_left nofun) trivial
  · rw [htable] at hbound hentry
    dsimp only
    rcases hmap : (s.chains k).partitionMap tx.recipient with _ | i
    · rw [Option.getD_none]
      split
      · simp
      · rename_i hj
        have hhash := hbound.resolve_left (by simpa using hj)
        exact iff_of_true hhash rfl
    · obtain rfl : j = i := by simpa using hentry i hmap
      rw [Option.getD_some]
      split
      · rename_i hj
        exact iff_of_true hj (.inr rfl)
      · rename_i hj
        exact iff_of_false hj nofun

/-- **Where relayed transactions are credited**: in every state that is reached, by any
order of batches, blocks and messages, the relayed transactions of the block that a shard
works on are credited exactly where the placements of their recipients are in time; and
then nothing but a first-phase transaction of another shard makes the leader panic. -/
theorem relayed_credited_iff (sys : PlacementSystem H) (hp : 0 < sys.env.p.shardNum)
    {s : PlacementNet H}
    (hr : Reaches (PlacementNet.step sys) (fun _ _ => True) (.start sys) s) {k : ℕ}
    {r : Request H} {b : Block H} (hpending : s.pending k = some r)
    (hb : r.content = some (some b)) :
    ((∀ tx, some tx ∈ b.body → tx.relayed = true → RelayCredited (sys.cc k) (s.chains k) tx) ↔
      ∀ tx, some tx ∈ b.body → tx.relayed = true → PlacementInTime sys s k tx) ∧
    ((∀ tx, some tx ∈ b.body → tx.relayed = true → PlacementInTime sys s k tx) →
      (∀ tx, some tx ∈ b.body → tx.relayed = false →
        (s.chains k).getPartitionMap (sys.cc k) tx.sender = k) →
      ∀ bc, (s.chains k).addBlock (sys.cc k) (some b) = some (.ok bc) →
        ∀ seqID, (RawRelay.relayBlock (sys.cc k) seqID bc b).isSome = true) := by
  have hs := PlacementSound.reaches hp hr
  have hhome : ∀ tx, some tx ∈ b.body → tx.relayed = true →
      ((s.chains k).getPartitionMap (sys.cc k) tx.recipient = (sys.cc k).shardID ↔
        PlacementInTime sys s k tx) := fun tx htx hrel =>
    hs.home_iff (hs.pending k r hpending tx ⟨b, hb, htx⟩ hrel)
  refine ⟨forall_congr' fun tx => forall_congr' fun htx => forall_congr' fun hrel =>
    (relayCredited_iff hrel).trans (hhome tx htx hrel), fun htime hfirst bc hadd seqID => ?_⟩
  obtain ⟨b', storage, hb', hvalid, -, rfl⟩ := BlockChain.addBlock_eq_ok hadd
  obtain rfl := Option.some.inj hb'
  obtain ⟨-, -, -, -, hcheck, -⟩ := BlockChain.isValidBlock_eq_ok.mp hvalid
  obtain ⟨txs, hbody, -, -⟩ := BlockChain.checkBody_eq_ok.mp hcheck
  have hmem : ∀ tx ∈ txs, some tx ∈ b.body := fun tx htx => hbody ▸ List.mem_map_of_mem htx
  apply RawRelay.relayBlock_isSome hbody
  exact fun tx htx => ⟨hfirst tx (hmem tx htx),
    fun hrel => (hhome tx (hmem tx htx) hrel).mpr (htime tx (hmem tx htx) hrel)⟩

/-! ## Two shards -/

/-- Two shards, new addresses where the fewest are. -/
def overtakeSystem : PlacementSystem FreeHash where
  env :=
    { hash := freeHash
      p := { SpringConfig.default 2 with
        springMode := 4
        springIOTMode := 0
        springIOTIdentityMode := 0 }
      rows := fun _ => none
      log1p := id
      intn := fun _ _ => 0
      callPython := fun _ _ => none }
  blockSize := 10
  useBlocksizeInBytes := false
  blocksizeInBytes := 0
  injectSpeed := 10

/-- A transaction between two accounts with even hashes; the first is placed in shard 0,
the second in shard 1. -/
def overtakeTransaction : Transaction :=
  newTransaction "00000000000000000000000000000000000000a0"
    "00000000000000000000000000000000000000b0" 5 0 [1]

/-- Shard 0 gets the batch, commits the block and relays; the Relay message is the last
one under way. -/
def overtakeStart : List PlacementNetAction :=
  [.txSending [overtakeTransaction], .deliver 0, .propose 0 0 7, .commit 0 1]

/-- The Relay message arrives at shard 1 before the Inject message. -/
def overtakeRun : List PlacementNetAction := overtakeStart ++ [.deliver 1, .propose 1 0 8]

/-- The Inject message arrives first. -/
def inTimeRun : List PlacementNetAction :=
  overtakeStart ++ [.deliver 0, .deliver 0, .propose 1 0 8]

/-- The block that shard 1 works on, if it has a relayed transaction. -/
def relayedPending (s : PlacementNet FreeHash) : Option (Request FreeHash × Block FreeHash) :=
  (s.pending 1).bind fun r =>
    match r.content with
    | some (some b) =>
      if b.body = [some { overtakeTransaction with relayed := true }] then some (r, b) else none
    | _ => none

theorem relayedPending_spec {s : PlacementNet FreeHash} {r : Request FreeHash}
    {b : Block FreeHash} (h : relayedPending s = some (r, b)) :
    s.pending 1 = some r ∧ r.content = some (some b) ∧
      b.body = [some { overtakeTransaction with relayed := true }] := by
  obtain ⟨r', hr', h⟩ := Option.bind_eq_some_iff.mp h
  split at h
  · rename_i b' hb'
    split at h
    · rename_i hbody
      cases h
      exact ⟨hr', hb', hbody⟩
    · cases h
  · cases h

/-- Whether the commit of the block that shard 1 works on panics at the leader. -/
def commitPanics (s : PlacementNet FreeHash) : Bool :=
  match RawRelay.handleinCommit (overtakeSystem.cc 1) true 1 (s.chains 1) (s.pending 1) with
  | .panic _ => true
  | _ => false

/-- In time: the recipient is credited. -/
theorem relayed_credited_iff_two : ∃ s r b,
    Reaches (PlacementNet.step overtakeSystem) (fun _ _ => True) (.start overtakeSystem) s ∧
    s.pending 1 = some r ∧ r.content = some (some b) ∧
    b.body = [some { overtakeTransaction with relayed := true }] ∧
    RelayCredited (overtakeSystem.cc 1) (s.chains 1)
      { overtakeTransaction with relayed := true } := by
  obtain ⟨s, hr, hpending, hmap⟩ := Reaches.exists_of_runWith
    (P := fun s => (relayedPending s).isSome = true ∧
      (s.chains 1).partitionMap overtakeTransaction.recipient = some 1)
    (by decide +kernel : (runWith (PlacementNet.step overtakeSystem) (fun _ _ => True)
      (.start overtakeSystem) inTimeRun).any _ = true)
  obtain ⟨⟨r, b⟩, hrb⟩ := Option.isSome_iff_exists.mp hpending
  obtain ⟨hpend, hb, hbody⟩ := relayedPending_spec hrb
  obtain ⟨hiff, -⟩ := relayed_credited_iff overtakeSystem (by decide) hr hpend hb
  refine ⟨s, r, b, hr, hpend, hb, hbody, hiff.mpr ?_ _ (by simp [hbody]) rfl⟩
  intro tx htx _
  obtain rfl : tx = { overtakeTransaction with relayed := true } := by simpa [hbody] using htx
  -- the table has what the shard has
  have hs : PlacementSound overtakeSystem s := PlacementSound.reaches (by decide) hr
  have htable := hs.maps 1 _ 1 hmap
  rw [PlacementInTime, htable]
  exact .inr (by rw [hmap]; rfl)

/-- The Relay message overtakes the Inject message: the recipient is not credited, and the
leader panics. -/
theorem relay_overtakes_inject : ∃ s r b tx,
    Reaches (PlacementNet.step overtakeSystem) (fun _ _ => True) (.start overtakeSystem) s ∧
    s.pending 1 = some r ∧ r.content = some (some b) ∧ some tx ∈ b.body ∧ tx.relayed = true ∧
    ¬ RelayCredited (overtakeSystem.cc 1) (s.chains 1) tx ∧
    ∃ bc, RawRelay.handleinCommit (overtakeSystem.cc 1) true 1 (s.chains 1) (some r) =
      .panic bc := by
  obtain ⟨s, hr, hpending, haway, hpanic⟩ := Reaches.exists_of_runWith
    (P := fun s => (relayedPending s).isSome = true ∧
      (s.chains 1).getPartitionMap (overtakeSystem.cc 1) overtakeTransaction.recipient ≠ 1 ∧
      commitPanics s = true)
    (by decide +kernel : (runWith (PlacementNet.step overtakeSystem) (fun _ _ => True)
      (.start overtakeSystem) overtakeRun).any _ = true)
  obtain ⟨⟨r, b⟩, hrb⟩ := Option.isSome_iff_exists.mp hpending
  obtain ⟨hpend, hb, hbody⟩ := relayedPending_spec hrb
  refine ⟨s, r, b, { overtakeTransaction with relayed := true }, hr, hpend, hb, by simp [hbody],
    rfl, fun hc => haway hc.home, ?_⟩
  rw [commitPanics, hpend] at hpanic
  split at hpanic
  · rename_i bc hbc
    exact ⟨bc, hbc⟩
  · cases hpanic

end BlockEmulator
