import BlockEmulator.AtomicRounds
import BlockEmulator.PlacementNet
import BlockEmulator.RelayRest

/-!
# The rounds of relay shards

The relay module satisfies what rounds as single steps need (`relay_atomic`): replicas in the
state of the leader accept and commit what it proposes, and transactions that come to the
leader in a round might as well come after it, as long as their hashes were not executed.

So a system of relay shards, in which a leader commits in one step, is what systems of PBFT
nodes make of it: `shards_refine`.
-/

namespace BlockEmulator

open StepSystem PbftNode

variable {H D : Type} [DecidableEq H]

/-! ## Messages from outside -/

/-- Whether a message from outside has no nil pointer and places nothing. -/
def OutsideMessage.plain (m : OutsideMessage) : Bool :=
  (derefAll m.txs).isSome && m.placementMap.isEmpty

/-- Whether the transactions of a message were not executed on a chain. -/
def BlockChain.awaits (bc : BlockChain H) (m : OutsideMessage) : Bool :=
  m.txs.all fun p => match p with
    | none => false
    | some tx => decide (tx.txHash ≠ [] ∧ tx.txHash ∉ bc.storage.executedTransaction)

omit [DecidableEq H] in
/-- A plain message adds its transactions to the pool. -/
theorem OutsideMessage.plain_eq {m : OutsideMessage} (h : m.plain = true) :
    ∃ txs, m.txs = txs.map some ∧
      ∀ bc : BlockChain H, RawRelay.handleMessageOutsidePBFT bc m = some (bc.received txs) := by
  obtain ⟨hps, hmap⟩ := Bool.and_eq_true_iff.mp h
  obtain ⟨txs, htxs⟩ := Option.isSome_iff_exists.mp hps
  cases m with
  | relay ps sid seqID =>
    obtain rfl := derefAll_eq_some htxs
    exact ⟨txs, rfl, fun bc => handleMessageOutsidePBFT_relay bc txs sid seqID⟩
  | inject ps placementMap =>
    obtain rfl := derefAll_eq_some htxs
    obtain rfl := List.isEmpty_iff.mp hmap
    exact ⟨txs, rfl, fun bc => handleMessageOutsidePBFT_inject bc txs⟩

/-- Transactions that are injected are plain. -/
theorem OutsideMessage.plain_inject (txs : List Transaction) :
    (OutsideMessage.inject (txs.map some) []).plain = true :=
  Bool.and_eq_true_iff.mpr ⟨by simp [OutsideMessage.txs], rfl⟩

/-- Transactions that another shard relays are plain. -/
theorem OutsideMessage.plain_relay (txs : List Transaction) (sid seqID : ℕ) :
    (OutsideMessage.relay (txs.map some) sid seqID).plain = true :=
  Bool.and_eq_true_iff.mpr ⟨by simp [OutsideMessage.txs], rfl⟩

/-! ## Transactions that come in a round -/

namespace TxPool

/-- A removal with an empty queue removes nothing either. -/
theorem removeTxs_eq (pool : TxPool) (body : List (Option Transaction)) :
    pool.removeTxs body =
      if body.isEmpty then pool
      else
        { pool with
          txQueue := pool.txQueue.filter fun p => match p with
            | none => false
            | some tx => !committedHash body tx.txHash } := by
  rw [removeTxs]
  cases body.isEmpty with
  | true => rfl
  | false =>
    cases hpool : pool.txQueue.isEmpty with
    | true =>
      obtain ⟨q, relayPool⟩ := pool
      obtain rfl : q = [] := List.isEmpty_iff.mp hpool
      rfl
    | false => rfl

/-- A removal leaves new transactions alone. -/
theorem removeTxs_append (pool : TxPool) (body : List (Option Transaction))
    {txs : List Transaction} (h : ∀ tx ∈ txs, committedHash body tx.txHash = false) :
    removeTxs { pool with txQueue := pool.txQueue ++ txs.map some } body =
      { pool.removeTxs body with txQueue := (pool.removeTxs body).txQueue ++ txs.map some } := by
  have hfilter : ((txs.map some).filter fun p => match p with
      | none => false
      | some tx => !committedHash body tx.txHash) = txs.map some := by
    refine List.filter_eq_self.mpr fun p hp => ?_
    obtain ⟨tx, htx, rfl⟩ := List.mem_map.mp hp
    simp [h tx htx]
  rw [removeTxs_eq, removeTxs_eq]
  split
  · rfl
  · dsimp only
    rw [List.filter_append, hfilter]

end TxPool

namespace RawRelay

variable {cc : ChainConfig H}

omit [DecidableEq H] in
/-- The loop of `HandleinCommit` does not look at the queue. -/
theorem routeTxs_queue (bc bc' : BlockChain H) (hmap : bc'.partitionMap = bc.partitionMap)
    (body : List (Option Transaction)) (q : List (Option Transaction)) (pool : TxPool)
    (acc : Routed) :
    routeTxs cc bc' body { pool with txQueue := q } acc =
      (routeTxs cc bc body pool acc).map fun r => ({ r.1 with txQueue := q }, r.2) := by
  have hplace : bc'.getPartitionMap cc = bc.getPartitionMap cc := by
    funext a
    rw [BlockChain.getPartitionMap, BlockChain.getPartitionMap, hmap]
  induction body generalizing pool acc with
  | nil => rfl
  | cons p body ih =>
    rcases p with _ | tx
    · rfl
    · simp only [routeTxs, hplace]
      split
      · rfl
      · split
        · rfl
        · split
          · have hadd : TxPool.addRelayTx { pool with txQueue := q } { tx with relayed := true }
                (bc.getPartitionMap cc tx.recipient) =
              (pool.addRelayTx { tx with relayed := true }
                (bc.getPartitionMap cc tx.recipient)).map ({ · with txQueue := q }) := by
              rw [TxPool.addRelayTx, TxPool.addRelayTx, Option.map_map]
              rfl
            rw [hadd, Option.map_bind, Option.bind_map]
            exact Option.bind_congr fun pool' _ => ih pool' _
          · split
            · exact ih pool _
            · exact ih pool _

omit [DecidableEq H] in
/-- Transactions that come before the leader relays a block might as well come after. -/
theorem relayBlock_received {seqID : ℕ} {bc g : BlockChain H} {b : Block H} {outs : List Outgoing}
    (h : relayBlock cc seqID bc b = some (g, outs)) (txs : List Transaction) :
    relayBlock cc seqID (bc.received txs) b = some (g.received txs, outs) := by
  obtain ⟨pool, acc, hroute, rfl, rfl⟩ := relayBlock_eq_some h
  obtain ⟨-, -, -, hqueue, -⟩ := routeTxs_eq_some hroute rfl
  have hroute' : routeTxs cc (bc.received txs) b.body
      { (bc.received txs).txpool with relayPool := some fun _ => [] } ⟨[], [], []⟩ =
        some ({ pool with txQueue := bc.txpool.txQueue ++ txs.map some }, acc) :=
    (routeTxs_queue bc (bc.received txs) rfl _ _
      { bc.txpool with relayPool := some fun _ => [] } _).trans (congrArg (Option.map _) hroute)
  rw [relayBlock, hroute', Option.map_some]
  refine congrArg some (Prod.ext ?_ rfl)
  simp only [BlockChain.received, relayMsgSend, TxPool.clearRelayPool, hqueue]

/-- Transactions that come before a block is added might as well come after, unless they are
among those of the block. -/
theorem addBlock_received {bc bc' : BlockChain H} {b : Block H}
    (h : bc.addBlock cc (some b) = some (.ok bc')) {txs : List Transaction}
    (htxs : ∀ tx ∈ txs, TxPool.committedHash b.body tx.txHash = false) :
    (bc.received txs).addBlock cc (some b) = some (.ok (bc'.received txs)) := by
  obtain ⟨b', storage, hb, hv, hs, rfl⟩ := BlockChain.addBlock_eq_ok h
  obtain rfl := Option.some.inj hb
  have hvalid : (bc.received txs).isValidBlock cc (some b) = some (.ok ()) := by
    have hsame : bc.SameState (bc.received txs) := ⟨rfl, rfl, rfl⟩
    rw [hsame.isValidBlock_eq]
    exact hv
  have hpool := TxPool.removeTxs_append bc.txpool b.body htxs
  rw [BlockChain.addBlock_of_valid hvalid hs]
  simp only [BlockChain.received, hpool]

/-- What the leader can commit, it accepts. -/
theorem handleinPrePrepare_of_addBlock {bc bc' : BlockChain H} {r : Option (Request H)}
    {b : Block H} (hr : r.bind Request.content = some (some b)) (h : bc.addBlock cc (some b) = some (.ok bc')) :
    handleinPrePrepare cc bc r = some true := by
  obtain ⟨b', storage, hb, hv, -⟩ := BlockChain.addBlock_eq_ok h
  obtain rfl := Option.some.inj hb
  obtain ⟨⟨type, content, time⟩, rfl, hc⟩ := Option.bind_eq_some_iff.mp hr
  obtain rfl : content = some (some b) := hc
  rw [handleinPrePrepare, Option.bind_some, Option.bind_some, hv]
  rfl

/-- A replica in the state of the leader commits what the leader commits. -/
theorem addBlock_sameState {bc bc' replica : BlockChain H} {b : Block H}
    (h : bc.addBlock cc (some b) = some (.ok bc')) (hsame : bc.SameState replica) :
    ∃ replica', replica.addBlock cc (some b) = some (.ok replica') ∧ bc'.SameState replica' := by
  obtain ⟨b', storage, hb, hv, hs, rfl⟩ := BlockChain.addBlock_eq_ok h
  obtain rfl := Option.some.inj hb
  rw [← hsame.isValidBlock_eq] at hv
  exact ⟨_, BlockChain.addBlock_of_valid hv (hsame.storage ▸ hs), rfl, rfl, hsame.partitionMap⟩

/-- **Rounds of relay shards are atomic.** -/
theorem relay_atomic [DecidableEq D] (cc : ChainConfig H) (nodeNums : ℕ)
    (ipNodeTable : ℕ → ℕ → Option String) (getDigest : Option (Request H) → D)
    (hinj : Function.Injective getDigest) (leader : ℕ) :
    AtomicModule (relayConfig cc nodeNums ipNodeTable getDigest) leader requestNumber
      BlockChain.SameState OutsideMessage.plain BlockChain.awaits where
  lawful := lawful
  digest r r' h := congrArg _ (hinj h)
  handles bc m h := by
    obtain ⟨txs, -, hall⟩ := OutsideMessage.plain_eq (H := H) h
    exact ⟨_, hall bc⟩
  replica {a b m b'} hsame h hb := by
    obtain ⟨txs, -, hall⟩ := OutsideMessage.plain_eq (H := H) h
    obtain rfl := Option.some.inj ((hall b).symm.trans hb)
    exact ⟨hsame.currentBlock, hsame.storage, hsame.partitionMap⟩
  leading {a b m a'} hsame h ha := by
    obtain ⟨txs, -, hall⟩ := OutsideMessage.plain_eq (H := H) h
    obtain rfl := Option.some.inj ((hall a).symm.trans ha)
    exact ⟨hsame.currentBlock, hsame.storage, hsame.partitionMap⟩
  round {a now r a₁ n a' outs} hprop hcommit := by
    obtain ⟨b, a₂, hr, hadd, hrest⟩ := handleinCommit_eq_done hcommit
    have hsame₁ : a.SameState a₁ := by
      obtain ⟨⟨b', bc₁⟩, hgen, heq⟩ := Option.map_eq_some_iff.mp hprop
      obtain ⟨rfl, rfl⟩ := Prod.mk.inj heq
      obtain ⟨-, -, -, -, -, -, -, -, rfl⟩ := BlockChain.generateBlock_eq_some hgen
      exact ⟨rfl, rfl, rfl⟩
    have hsame₂ : a₂.SameState a' := by
      rcases hrest with ⟨-, hrelay⟩ | ⟨hm, -⟩
      · obtain ⟨pool, -, -, rfl, -⟩ := relayBlock_eq_some hrelay
        exact ⟨rfl, rfl, rfl⟩
      · cases hm
    refine ⟨handleinPrePrepare_of_addBlock hr hadd, fun replica hsame => ?_⟩
    have hsame' : a₁.SameState replica := ⟨hsame.currentBlock.trans hsame₁.currentBlock.symm,
      hsame.storage.trans hsame₁.storage.symm, hsame.partitionMap.trans hsame₁.partitionMap.symm⟩
    obtain ⟨replica', hadd', hnew⟩ := addBlock_sameState hadd hsame'
    refine ⟨handleinPrePrepare_of_addBlock hr hadd', replica', ?_,
      hnew.currentBlock.trans hsame₂.currentBlock.symm, hnew.storage.trans hsame₂.storage.symm,
      hnew.partitionMap.trans hsame₂.partitionMap.symm⟩
    change handleinCommit cc false n replica r = _
    rw [handleinCommit, hr]
    dsimp only
    rw [hadd']
    rfl
  pending {c r n g outs m c'} haccept hcommit hplain hawaits hc := by
    obtain ⟨txs, htxs, hall⟩ := OutsideMessage.plain_eq (H := H) hplain
    obtain rfl := Option.some.inj ((hall c).symm.trans hc)
    obtain ⟨b, c₁, hr, hadd, ⟨-, hrelay⟩ | ⟨hm, -⟩⟩ := handleinCommit_eq_done hcommit
    · -- none of the transactions is in the block
      have hnew : ∀ tx ∈ txs, TxPool.committedHash b.body tx.txHash = false := by
        intro tx htx
        obtain ⟨hne, hexec⟩ : tx.txHash ≠ [] ∧ tx.txHash ∉ g.storage.executedTransaction := by
          rw [BlockChain.awaits, htxs, List.all_map, List.all_eq_true] at hawaits
          exact of_decide_eq_true (hawaits tx htx)
        obtain ⟨b', storage, hb, -, hs, rfl⟩ := BlockChain.addBlock_eq_ok hadd
        obtain rfl := Option.some.inj hb
        obtain ⟨pool, -, -, rfl, -⟩ := relayBlock_eq_some hrelay
        obtain rfl := Storage.addBlock_eq_some hs
        by_contra hcommitted
        obtain ⟨tx', htx', heq⟩ := TxPool.committedHash_eq_true.mp (by simpa using hcommitted)
        refine hexec (Finset.mem_union_right _ (List.mem_toFinset.mpr ?_))
        exact mem_bodyHashes.mpr ⟨hne, tx', htx', heq⟩
      have hadd' := addBlock_received hadd hnew
      refine ⟨g.received txs, hall g, handleinPrePrepare_of_addBlock hr hadd', ?_⟩
      change handleinCommit cc true n (c.received txs) r = _
      rw [handleinCommit, hr]
      dsimp only
      rw [hadd']
      dsimp only
      rw [if_pos rfl, relayBlock_received hrelay]
    · cases hm

end RawRelay

/-! ## Systems of relay shards -/

/-- Whether it is the first node of a shard that commits its next block. -/
def NetAction.InTurn (s : NetState H) : NetAction → Prop
  | .commit sid miner seqID _ =>
    miner = 0 ∧ seqID = (s.chains sid).currentBlock.header.number + 1
  | _ => True

instance (s : NetState H) : DecidablePred (NetAction.InTurn s)
  | .inject _ _ => inferInstanceAs (Decidable True)
  | .commit _ _ _ _ => inferInstanceAs (Decidable (_ ∧ _))
  | .deliver _ => inferInstanceAs (Decidable True)

/-- What happens to the leader of a shard in a step of the system. -/
def NetAction.eventsAt (sid : ℕ) (s : NetState H) :
    NetAction → List (RoundEvent (Option (Request H)) D OutsideMessage)
  | .inject k txs => if k = sid then [.outside 0 (.inject (txs.map some) [])] else []
  | .commit k _ _ now => if k = sid then [.propose now] else []
  | .deliver j =>
    match s.flight[j]? with
    | none => []
    | some (k, m) =>
      if k = sid then [.outside 0 (.relay (m.txs.map some) m.senderShardID m.senderSeq)] else []

/-- What happens to it in a run. -/
def runEvents (sys : RelaySystem H) (sid : ℕ) :
    NetState H → List NetAction → List (RoundEvent (Option (Request H)) D OutsideMessage)
  | _, [] => []
  | s, a :: as =>
    a.eventsAt sid s ++
      match s.step sys a with
      | none => []
      | some t => runEvents sys sid t as

/-- What a shard sends to others in a step of the system. -/
def NetAction.relaysOf (sys : RelaySystem H) (sid : ℕ) (s : NetState H) :
    NetAction → List (ℕ × Relay)
  | .commit k miner seqID now =>
    if k = sid then
      ((leaderRound (sys.cc k) miner seqID now (s.chains k)).map Prod.snd).getD []
    else []
  | _ => []

/-- What it sends in a run, the latest first. -/
def runRelays (sys : RelaySystem H) (sid : ℕ) : NetState H → List NetAction → List (ℕ × Relay)
  | _, [] => []
  | s, a :: as =>
    (match s.step sys a with
      | none => []
      | some t => runRelays sys sid t as) ++ a.relaysOf sys sid s

section

variable {sys : RelaySystem H} {s t : NetState H} {a : NetAction} {sid : ℕ} (nodeNums : ℕ)
  (ipNodeTable : ℕ → ℕ → Option String) (getDigest : Option (Request H) → D)

/-- A shard as one state. -/
def atomicShard (bc : BlockChain H) (sent : List Outgoing) :
    AtomicShard (BlockChain H) Outgoing :=
  ⟨bc, bc.currentBlock.header.number + 1, sent⟩

/-- A round that goes well is a step of the shard as one state. -/
theorem atomicShard_propose {cc : ChainConfig H} {bc bc' : BlockChain H} {now : Time}
    {relays : List (ℕ × Relay)}
    (h : leaderRound cc 0 (bc.currentBlock.header.number + 1) now bc = some (bc', relays))
    (sent : List Outgoing) :
    ∃ outs, (atomicShard bc sent).step (relayConfig cc nodeNums ipNodeTable getDigest) 0
        OutsideMessage.plain BlockChain.awaits (.propose now) =
          some (atomicShard bc' (outs ++ sent)) ∧ outs.filterMap Outgoing.toRelay = relays := by
  rw [leaderRound] at h
  obtain ⟨⟨r, bc₁⟩, hprop, h⟩ := Option.bind_eq_some_iff.mp h
  dsimp only at h
  split at h
  · rename_i bc₂ outs hcommit
    obtain ⟨rfl, rfl⟩ := Prod.mk.inj (Option.some.inj h)
    have hheight : bc₂.currentBlock.header.number = bc.currentBlock.header.number + 1 :=
      (RawRelay.lawful.commit hcommit).2.trans
        (congrArg (· + 1) (RawRelay.lawful.propose hprop).2)
    refine ⟨outs, ?_, rfl⟩
    have hcommit' : (relayConfig cc nodeNums ipNodeTable getDigest).ihm.handleinCommit true
        (bc.currentBlock.header.number + 1) bc₁ r = .done bc₂ outs := hcommit
    have hprop' : (relayConfig cc nodeNums ipNodeTable getDigest).ihm.handleinPropose 0 now bc =
        some (r, bc₁) := hprop
    rw [AtomicShard.step, atomicShard]
    dsimp only
    rw [hprop', Option.bind_some, hcommit', atomicShard, hheight]
  · cases h

/-- Transactions that come to the leader are a step of the shard as one state. -/
theorem atomicShard_outside {cc : ChainConfig H} {bc : BlockChain H} {m : OutsideMessage}
    {txs : List Transaction} (hplain : m.plain = true)
    (hm : RawRelay.handleMessageOutsidePBFT bc m = some (bc.received txs))
    (htxs : m.txs = txs.map some)
    (hnew : ∀ tx ∈ txs, tx.txHash ≠ [] ∧ tx.txHash ∉ bc.storage.executedTransaction)
    (sent : List Outgoing) :
    (atomicShard bc sent).step (relayConfig cc nodeNums ipNodeTable getDigest) 0
      OutsideMessage.plain BlockChain.awaits (.outside 0 m) =
        some (atomicShard (bc.received txs) sent) := by
  have hawaits : bc.awaits m = true := by
    rw [BlockChain.awaits, htxs, List.all_map, List.all_eq_true]
    exact fun tx htx => decide_eq_true (hnew tx htx)
  have hm' : (relayConfig cc nodeNums ipNodeTable getDigest).ohm.handleMessageOutsidePBFT bc m =
      some (bc.received txs) := hm
  rw [AtomicShard.step, if_pos hplain, if_pos rfl, atomicShard]
  dsimp only
  rw [if_pos hawaits, hm']
  rfl

/-- **A step of the system** is what happens to each shard as one state. -/
theorem NetSound.eventsAt (hs : NetSound sys s) (hturn : a.InTurn s)
    (h : s.step sys a = some t) (sent : List Outgoing) :
    ∃ outs, runWith (AtomicShard.step (relayConfig (sys.cc sid) nodeNums ipNodeTable getDigest) 0
        OutsideMessage.plain BlockChain.awaits) (fun _ _ => True)
          (atomicShard (s.chains sid) sent) (a.eventsAt sid s) =
            some (atomicShard (t.chains sid) (outs ++ sent)) ∧
      outs.filterMap Outgoing.toRelay = a.relaysOf sys sid s := by
  cases a with
  | inject k txs =>
    obtain ⟨⟨-, -, hin⟩, rfl⟩ := NetState.step_inject h
    refine ⟨[], ?_, rfl⟩
    rw [NetAction.eventsAt]
    split
    · rename_i hk
      subst hk
      dsimp only
      rw [Function.update_self, List.nil_append, runWith, if_pos trivial]
      rw [atomicShard_outside nodeNums ipNodeTable getDigest (OutsideMessage.plain_inject txs)
        (handleMessageOutsidePBFT_inject _ txs) rfl (fun tx htx => ⟨(hin tx htx).1.txHash,
          fun hex => (hin tx htx).2.2.2 (hs.executed k hex)⟩)]
      rfl
    · rename_i hk
      dsimp only
      rw [Function.update_of_ne (Ne.symm hk)]
      rfl
  | deliver j =>
    obtain ⟨⟨k, m⟩, he, rfl⟩ := NetState.step_deliver h
    refine ⟨[], ?_, rfl⟩
    rw [NetAction.eventsAt, he]
    dsimp only
    have hmem := List.mem_of_getElem? he
    split
    · rename_i hk
      subst hk
      rw [Function.update_self, List.nil_append, runWith, if_pos trivial]
      rw [atomicShard_outside nodeNums ipNodeTable getDigest (OutsideMessage.plain_relay m.txs _ _)
        (handleMessageOutsidePBFT_relay _ m.txs _ _) rfl fun tx htx =>
          ⟨(hs.sent _ hmem tx htx).1.txHash, hs.freshSent _ hmem tx htx⟩]
      rfl
    · rename_i hk
      rw [Function.update_of_ne (Ne.symm hk)]
      rfl
  | commit k miner seqID now =>
    obtain ⟨rfl, rfl⟩ := hturn
    rw [NetState.step] at h
    split at h
    · obtain ⟨⟨bc, relays⟩, hround, rfl⟩ := Option.map_eq_some_iff.mp h
      rw [NetAction.eventsAt, NetAction.relaysOf]
      split
      · rename_i hk
        subst hk
        obtain ⟨outs, hstep, houts⟩ := atomicShard_propose nodeNums ipNodeTable getDigest hround
          sent
        refine ⟨outs, ?_, ?_⟩
        · dsimp only
          rw [Function.update_self, runWith, if_pos trivial, hstep]
          rfl
        · rw [hround]
          exact houts
      · rename_i hk
        refine ⟨[], ?_, rfl⟩
        dsimp only
        rw [Function.update_of_ne (Ne.symm hk)]
        rfl
    · cases h

/-- **A run of the system** is what happens to each shard as one state. -/
theorem NetSound.runEvents (hs : NetSound sys s) {as : List NetAction}
    (hrun : runWith (NetState.step sys) (fun s a => a.InTurn s) s as = some t)
    (sent : List Outgoing) :
    ∃ outs, runWith (AtomicShard.step (relayConfig (sys.cc sid) nodeNums ipNodeTable getDigest) 0
        OutsideMessage.plain BlockChain.awaits) (fun _ _ => True)
          (atomicShard (s.chains sid) sent) (BlockEmulator.runEvents sys sid s as) =
            some (atomicShard (t.chains sid) (outs ++ sent)) ∧
      outs.filterMap Outgoing.toRelay = runRelays sys sid s as := by
  induction as generalizing s sent with
  | nil =>
    obtain rfl := Option.some.inj hrun
    exact ⟨[], rfl, rfl⟩
  | cons a as ih =>
    rw [runWith] at hrun
    split at hrun
    · rename_i hturn
      obtain ⟨u, hu, hrun⟩ := Option.bind_eq_some_iff.mp hrun
      obtain ⟨outs, hstep, houts⟩ := hs.eventsAt nodeNums ipNodeTable getDigest hturn hu sent
      obtain ⟨outs', hrest, houts'⟩ := ih (hs.step hu) hrun (outs ++ sent)
      refine ⟨outs' ++ outs, ?_, ?_⟩
      · rw [BlockEmulator.runEvents, hu, runWith_append, hstep, Option.bind_some, hrest,
          List.append_assoc]
      · rw [List.filterMap_append, houts, houts', runRelays, hu]
    · cases hrun

end

end BlockEmulator
