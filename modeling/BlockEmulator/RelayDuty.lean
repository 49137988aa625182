import BlockEmulator.RelayChain
import BlockEmulator.Requests
import BlockEmulator.Routing

/-!
# Who relays a block

Every node of a shard installs a block, by a quorum of commit votes or with old
requests; only a node that takes itself for the leader when it handles the last of
the votes relays it. Nobody is told to do it later. A block that every node installs
while it does not lead is relayed by nobody.

* `RelayedIn` — in one step a node installs a block and sends its second phases.
* `ProposerRelays` — the condition on a step: a node that installs a block of its own
  proposal leads, and the transactions of the block are in their shards.
* `second_phase_sent` — in every run that meets the condition, a block that all nodes
  have installed is relayed by its proposer.
-/

namespace BlockEmulator

open StepSystem PbftNode

variable {H D : Type} [DecidableEq H]

/-! ## Which steps install a block -/

section

variable [DecidableEq D] {cc : ChainConfig H} {nodeNums i : ℕ}
  {ipNodeTable : ℕ → ℕ → Option String} {getDigest : Option (Request H) → D}
  {p p' : RelayNode H D}
  {input : RelayInput H D}
  {outs : List (RelayOutput H D)}

/-- How a node comes to store a block: it commits it, by a Commit, or installs it
with old requests. -/
theorem PbftNode.Transition.stores
    (h : Transition ((relayConfig cc nodeNums ipNodeTable getDigest).at i) p input p' outs)
    {b : Block H} (hb : p'.curChain.Has b) (hnew : ¬ p.curChain.Has b) :
    (∃ m r, input = .receive (.commit m) ∧
      completesCommit ((relayConfig cc nodeNums ipNodeTable getDigest).at i) p m ∧
      p.requestPool m.digest = some r ∧ requestBlock r = some b ∧
      ∃ bc, p.curChain.addBlock cc (some b) = some (.ok bc) ∧
        (p.isMain ((relayConfig cc nodeNums ipNodeTable getDigest).at i) = false ∨
          RawRelay.relayBlock cc p.sequenceID bc b = none ∨
          ∃ bc' couts, RawRelay.relayBlock cc p.sequenceID bc b = some (bc', couts) ∧
            outs = .committed p.sequenceID m.digest :: couts.map .relay)) ∨
    ∃ m r, input = .receive (.sendOld m) ∧ r ∈ m.oldRequest ∧ requestBlock r = some b := by
  have hmove := h.chainMove
  generalize p'.curChain = bc' at hmove hb
  cases hmove with
  | same => exact absurd hb hnew
  | proposed now b₀ bc _ hgen =>
    obtain ⟨-, -, -, -, -, -, -, -, rfl⟩ := BlockChain.generateBlock_eq_some hgen
    exact absurd hb hnew
  | added m r b₀ bc _ hm hr hrb hadd hrelay =>
    rcases BlockChain.Has.of_addBlock hadd hb with rfl | hb
    · exact .inl ⟨m, r, rfl, hm, hr, hrb, _, hadd, hrelay.imp_right .inl⟩
    · exact absurd hb hnew
  | relayed m r b₀ bc bc'' couts hm hr hrb hadd hrelay =>
    obtain ⟨pool, -, -, rfl, -⟩ := RawRelay.relayBlock_eq_some hrelay
    rcases BlockChain.Has.of_addBlock hadd hb with rfl | hb
    · exact .inl ⟨m, r, rfl, hm, hr, hrb, bc, hadd, .inr (.inr ⟨_, couts, hrelay, rfl⟩)⟩
    · exact absurd hb hnew
  | old m ok bc _ hres =>
    have hall : bc'.Has b → p.curChain.Has b ∨ ∃ r ∈ m.oldRequest, requestBlock r = some b := by
      refine RawRelay.handleforSequentialRequest_induction
        (fun bc => bc.Has b → p.curChain.Has b ∨ ∃ r ∈ m.oldRequest, requestBlock r = some b)
        hres .inl fun r hr b₀ hrb bc₁ bc₂ hold hadd hb => ?_
      rcases BlockChain.Has.of_addBlock hadd hb with rfl | hb
      · exact .inr ⟨r, hr, hrb⟩
      · exact hold hb
    rcases hall hb with hb | ⟨r, hr, hrb⟩
    · exact absurd hb hnew
    · exact .inr ⟨m, r, rfl, hr, hrb⟩
  | outside m bc _ hres =>
    obtain ⟨pool, pm, rfl⟩ := RawRelay.handleMessageOutsidePBFT_eq_some hres
    exact absurd hb hnew

end

/-! ## The property and the condition -/

/-- Whether all nodes of a shard have stored a block. -/
def InstalledByAll (nodeNums : ℕ) (b : Block H) (s : RelayState H D) : Prop :=
  ∀ i < nodeNums, (s.nodes i).curChain.Has b

instance (nodeNums : ℕ) (b : Block H) (s : RelayState H D) :
    Decidable (InstalledByAll nodeNums b s) :=
  inferInstanceAs (Decidable (∀ i < nodeNums, (s.nodes i).curChain.Has b))

/-- In one step a node installs a block and sends, for each first-phase transaction of
it whose recipient is in another shard, its second phase to that shard. -/
def RelayedIn (cc : ChainConfig H) (u v : RelayState H D) (j : ℕ) (b : Block H) : Prop :=
  ¬ (u.nodes j).curChain.Has b ∧ (v.nodes j).curChain.Has b ∧
    ∃ outs : List (RelayOutput H D), v.history = outs.map (j, ·) ++ u.history ∧
      ∀ tx, some tx ∈ b.body → tx.relayed = false →
        (u.nodes j).curChain.getPartitionMap cc tx.recipient ≠ cc.shardID →
        ∃ m, .relay (.relay ((u.nodes j).curChain.getPartitionMap cc tx.recipient) m) ∈ outs ∧
          { tx with relayed := true } ∈ m.txs

variable [DecidableEq D]

/-- Whether, on the way from one state to another, a node has relayed a block. -/
def Relayed (cc : ChainConfig H) (cfg : RelayPbft H D)
    (start s : RelayState H D) (b : Block H) : Prop :=
  ∃ j < cfg.nodeNums, ∃ u a v, Reaches (ShardState.step cfg ∅) (fun _ _ => True) start u ∧
    u.step cfg ∅ a = some v ∧ Reaches (ShardState.step cfg ∅) (fun _ _ => True) v s ∧
      RelayedIn cc u v j b

/-- No second phase is lost in the shard: a block that all its nodes have installed
since the start is relayed. -/
def NoLostSecondPhase (cc : ChainConfig H) (cfg : RelayPbft H D)
    (start s : RelayState H D) : Prop :=
  0 < cfg.nodeNums → ∀ b, (∀ i < cfg.nodeNums, ¬ (start.nodes i).curChain.Has b) →
    InstalledByAll cfg.nodeNums b s → Relayed cc cfg start s b

/-- The condition on a step. A node that installs a block of its own proposal with the
last of the commit votes leads, and the transactions of the block are in the shards
where `HandleinCommit` expects them, with recipients in existing shards; a node does not
install a block of its own proposal with old requests. -/
def ProposerRelays (cc : ChainConfig H) (cfg : RelayPbft H D) (p : RelayNode H D) :
    RelayInput H D → Prop
  | .receive (.commit m) => completesCommit cfg p m →
      ∀ b ∈ (p.requestPool m.digest).bind requestBlock, b.header.miner = cfg.nodeID →
        p.curChain.isValidBlock cc (some b) = some (.ok ()) → p.isMain cfg = true ∧
          ∀ q ∈ b.body, ∀ tx ∈ q, tx.Placed (p.curChain.getPartitionMap cc) cc.shardID ∧
            p.curChain.getPartitionMap cc tx.recipient < cc.shardNums
  | .receive (.sendOld m) => ∀ r ∈ m.oldRequest, ∀ b ∈ requestBlock r,
      b.header.miner = cfg.nodeID → p.curChain.Has b
  | _ => True

/-- The condition on a step of a shard. -/
def ProposersRelay (cc : ChainConfig H) (cfg : RelayPbft H D)
    (s : RelayState H D) : RelayAction H D → Prop
  | .node i input => ProposerRelays cc (cfg.at i) (s.nodes i) input
  | .forge _ _ => True

instance (cc : ChainConfig H) (cfg : RelayPbft H D) (p : RelayNode H D) :
    ∀ input, Decidable (ProposerRelays cc cfg p input)
  | .receive (.commit m) => inferInstanceAs (Decidable (completesCommit cfg p m →
      ∀ b ∈ (p.requestPool m.digest).bind requestBlock, b.header.miner = cfg.nodeID →
        p.curChain.isValidBlock cc (some b) = some (.ok ()) → p.isMain cfg = true ∧
          ∀ q ∈ b.body, ∀ tx ∈ q, tx.Placed (p.curChain.getPartitionMap cc) cc.shardID ∧
            p.curChain.getPartitionMap cc tx.recipient < cc.shardNums))
  | .receive (.sendOld m) => inferInstanceAs (Decidable (∀ r ∈ m.oldRequest,
      ∀ b ∈ requestBlock r, b.header.miner = cfg.nodeID → p.curChain.Has b))
  | .receive (.prePrepare _) | .receive (.prepare _) | .receive (.requestOld _)
  | .receive (.viewChange _) | .receive (.newView _) | .nextRound | .proposeCheck
  | .proposeLock | .proposeBroadcast _ | .proposeStage | .viewChangePropose
  | .askForRequests | .outside _ => .isTrue trivial

instance (cc : ChainConfig H) (cfg : RelayPbft H D)
    (s : RelayState H D) : ∀ a : RelayAction H D, Decidable (ProposersRelay cc cfg s a)
  | .node i input => inferInstanceAs (Decidable (ProposerRelays cc (cfg.at i) (s.nodes i) input))
  | .forge _ _ => .isTrue trivial

/-! ## Every block is relayed by its proposer -/

variable {cc : ChainConfig H} {nodeNums : ℕ} {ipNodeTable : ℕ → ℕ → Option String}
  {getDigest : Option (Request H) → D} {start s t : RelayState H D} {a : RelayAction H D}

omit [DecidableEq D] in
/-- A leader that commits a block with its transactions in their shards relays it. -/
theorem relayedIn_of_relayBlock {i : ℕ} {p : RelayNode H D}
    {outs : List (RelayOutput H D)} {bc bc' : BlockChain H}
    {b : Block H} {seqID : ℕ} {couts : List Outgoing} {o : RelayOutput H D}
    (hold : ¬ (s.nodes i).curChain.Has b) (hnew : p.curChain.Has b)
    (hadd : (s.nodes i).curChain.addBlock cc (some b) = some (.ok bc))
    (hrelay : RawRelay.relayBlock cc seqID bc b = some (bc', couts))
    (houts : outs = o :: couts.map .relay)
    (hshards : ∀ q ∈ b.body, ∀ tx ∈ q,
      (s.nodes i).curChain.getPartitionMap cc tx.recipient < cc.shardNums) :
    RelayedIn cc s ⟨Function.update s.nodes i p, outs.map (i, ·) ++ s.history⟩ i b := by
  obtain ⟨txs, info, hbody, -, -, rfl⟩ := RawRelay.relayBlock_spec hrelay
  obtain ⟨b', storage, hb', -, -, rfl⟩ := BlockChain.addBlock_eq_ok hadd
  obtain rfl := Option.some.inj hb'
  refine ⟨hold, by simpa using hnew, outs, rfl, fun tx htx _ hne => ?_⟩
  have hmem : tx ∈ txs := by simpa [hbody] using htx
  refine ⟨⟨secondPhase ((s.nodes i).curChain.getPartitionMap cc) _ txs, cc.shardID, seqID⟩,
    ?_, mem_secondPhase hmem rfl⟩
  rw [houts]
  refine List.mem_cons_of_mem _ (List.mem_map.mpr ⟨_, List.mem_append_left _ ?_, rfl⟩)
  exact List.mem_map.mpr ⟨_, List.mem_filter.mpr
    ⟨List.mem_range.mpr (hshards (some tx) htx tx rfl), decide_eq_true hne⟩, rfl⟩

theorem Relayed.mono {cfg : RelayPbft H D} {b : Block H} (hb : Relayed cc cfg start s b)
    (h : s.step cfg ∅ a = some t) : Relayed cc cfg start t b := by
  obtain ⟨j, hj, u, a', v, hu, huv, hv, hin⟩ := hb
  exact ⟨j, hj, u, a', v, hu, huv, .tail hv trivial h, hin⟩

/-- What is known of the blocks of a shard whose proposers relay them. -/
structure ProposersServed (cc : ChainConfig H) (cfg : RelayPbft H D)
    (start s : RelayState H D) : Prop where
  /-- every block on its way was proposed by a node of the shard -/
  requests : AllRequests (fun r => ∀ b ∈ requestBlock r, b.header.miner < cfg.nodeNums) s
  /-- so was every block installed since the start -/
  miner : ∀ i b, ¬ (start.nodes i).curChain.Has b → (s.nodes i).curChain.Has b →
    b.header.miner < cfg.nodeNums
  /-- what its proposer has installed is relayed -/
  relayed : ∀ b, ¬ (start.nodes b.header.miner).curChain.Has b →
    (s.nodes b.header.miner).curChain.Has b → Relayed cc cfg start s b

namespace ProposersServed

theorem new {cfg : RelayPbft H D} (chains : ℕ → BlockChain H) :
    ProposersServed cc cfg (ShardState.new cfg.ihm.height chains)
      (ShardState.new cfg.ihm.height chains) where
  requests := AllRequests.new _ _
  miner _ _ hold hnew := absurd hnew hold
  relayed _ hold hnew := absurd hnew hold

/-- **Every step that meets the condition keeps the proposers' duty.** -/
theorem step (hreach : Reaches (ShardState.step (relayConfig cc nodeNums ipNodeTable getDigest) ∅)
      (fun _ _ => True) start s)
    (hs : ProposersServed cc (relayConfig cc nodeNums ipNodeTable getDigest) start s)
    (hok : ProposersRelay cc (relayConfig cc nodeNums ipNodeTable getDigest) s a)
    (h : s.step (relayConfig cc nodeNums ipNodeTable getDigest) ∅ a = some t) :
    ProposersServed cc (relayConfig cc nodeNums ipNodeTable getDigest) start t := by
  have hrequests : AllRequests (fun r => ∀ b ∈ requestBlock r, b.header.miner < nodeNums) t := by
    refine hs.requests.step (fun i hi now r bc hr b hb => ?_) h
    obtain ⟨⟨b₀, bc₀⟩, hgen, heq⟩ := Option.map_eq_some_iff.mp hr
    obtain ⟨rfl, rfl⟩ := Prod.mk.inj heq
    obtain rfl : b₀ = b := Option.some.inj hb
    obtain ⟨-, -, -, hminer, -⟩ := BlockChain.generateBlock_eq_some hgen
    rw [hminer]
    exact hi
  have hall := h
  rcases a with ⟨i, input⟩ | ⟨b, m⟩
  · obtain ⟨hi, -, harr, -, p, outs, htr, rfl⟩ := ShardState.step_node h
    have hnode : ∀ j b, ¬ (s.nodes j).curChain.Has b →
        (Function.update s.nodes i p j).curChain.Has b → j = i ∧ p.curChain.Has b := by
      intro j b hold hnew
      rw [Function.update_apply] at hnew
      split at hnew
      · rename_i hj
        exact ⟨hj, hnew⟩
      · exact absurd hnew hold
    refine ⟨hrequests, fun j b hstart hnew => ?_, fun b hstart hnew => ?_⟩
    · by_cases hold : (s.nodes j).curChain.Has b
      · exact hs.miner j b hstart hold
      obtain ⟨rfl, hp⟩ := hnode j b hold hnew
      rcases htr.stores hp hold with ⟨m, r, -, -, hr, hrb, -⟩ | ⟨m, r, rfl, hr, hrb⟩
      · exact hs.requests.stored j m.digest r hr b hrb
      · obtain ⟨k, dest, hsent⟩ := ShardState.arrives_receive harr
        exact hs.requests.sent k dest m hsent r hr b hrb
    · by_cases hold : (s.nodes b.header.miner).curChain.Has b
      · exact (hs.relayed b hstart hold).mono hall
      obtain ⟨hmi, hp⟩ := hnode _ b hold hnew
      rw [hmi] at hold
      rcases htr.stores hp hold with ⟨m, r, rfl, hcomp, hr, hrb, bc, hadd, hres⟩ |
        ⟨m, r, rfl, hr, hrb⟩
      · -- by a Commit: the proposer leads, and nothing stops it from relaying
        obtain ⟨b', storage, hb', hv, -, hbc⟩ := BlockChain.addBlock_eq_ok hadd
        obtain rfl := Option.some.inj hb'
        obtain ⟨hmain, hplaced⟩ := hok hcomp b (by rw [hr]; exact hrb) hmi hv
        have hsome : (RawRelay.relayBlock cc (s.nodes i).sequenceID bc b).isSome = true := by
          subst hbc
          obtain ⟨-, -, -, -, hbody, -⟩ := BlockChain.isValidBlock_eq_ok.mp hv
          obtain ⟨txs, hbody, -⟩ := BlockChain.checkBody_eq_ok.mp hbody
          refine RawRelay.relayBlock_isSome hbody fun tx htx => ?_
          exact (hplaced (some tx) (by rw [hbody]; exact List.mem_map_of_mem htx) tx rfl).1
        rcases hres with hres | hres | ⟨bc', couts, hrelay, houts⟩
        · rw [hmain] at hres
          cases hres
        · rw [hres] at hsome
          cases hsome
        · exact ⟨i, hi, s, _, _, hreach, hall, .refl,
            relayedIn_of_relayBlock hold hp hadd hrelay houts
              fun q hq tx htx => (hplaced q hq tx htx).2⟩
      · exact absurd (hok r hr b hrb hmi) hold
  · obtain ⟨hb, -, -⟩ := ShardState.step_forge h
    exact absurd hb (Finset.notMem_empty b)

end ProposersServed

/-- **No second phase is lost in the source shard** where proposers install their
blocks as leaders: in every run of a relay shard without Byzantine nodes, from any
chains, whose steps meet the condition, every block that all nodes have installed is
relayed. -/
theorem second_phase_sent (cc : ChainConfig H) (nodeNums : ℕ)
    (ipNodeTable : ℕ → ℕ → Option String) (getDigest : Option (Request H) → D)
    (chains : ℕ → BlockChain H) {s : RelayState H D}
    (hr : Reaches (ShardState.step (relayConfig cc nodeNums ipNodeTable getDigest) ∅)
      (ProposersRelay cc (relayConfig cc nodeNums ipNodeTable getDigest))
      (ShardState.new (RawRelay.ihm cc).height chains) s) :
    NoLostSecondPhase cc (relayConfig cc nodeNums ipNodeTable getDigest)
      (ShardState.new (RawRelay.ihm cc).height chains) s := by
  obtain ⟨-, hserved⟩ := hr.invariant
    (fun s => Reaches (ShardState.step (relayConfig cc nodeNums ipNodeTable getDigest) ∅)
        (fun _ _ => True) (ShardState.new (RawRelay.ihm cc).height chains) s ∧
      ProposersServed cc (relayConfig cc nodeNums ipNodeTable getDigest)
        (ShardState.new (RawRelay.ihm cc).height chains) s)
    ⟨.refl, .new chains⟩
    fun s a t hs hok h => ⟨.tail hs.1 trivial h, hs.2.step hs.1 hok h⟩
  intro hpos b hstart hall
  have hminer := hserved.miner 0 b (hstart 0 hpos) (hall 0 hpos)
  exact hserved.relayed b (hstart _ hminer) (hall _ hminer)

/-! ## Four nodes -/

/-- The transaction reaches node 0, which proposes it; three nodes prepare it. -/
def crossPrepared : List FreeAction :=
  .node 0 (.outside (.inject [some crossTransaction] [])) :: propose 0 7 ++
    deliverPrePrepare [0, 1, 2, 3] crossRequest 1 ++
    deliverPrepare [0, 1, 2, 3] [0, 1, 2] crossRequest 1


theorem genesisChain_crossBlock : ¬ (genesisChain fourNodesChain).Has crossBlock := by
  decide +kernel

/-- All nodes commit the block in view 0. -/
theorem second_phase_sent_commit :
    ∃ s, InstalledByAll 4 crossBlock s ∧
      Relayed fourNodesChain fourNodes fourNodesStart s crossBlock := by
  have hend : ((runWith (ShardState.step fourNodes ∅) (ProposersRelay fourNodesChain fourNodes)
      fourNodesStart (crossPrepared ++ deliverCommit [0, 1, 2, 3] [0, 1, 2] crossRequest 1)).any
      fun s => decide (InstalledByAll 4 crossBlock s)) = true := by
    decide +kernel
  obtain ⟨s, hr, hall⟩ := Reaches.exists_of_runWith hend
  exact ⟨s, hall, second_phase_sent fourNodesChain 4 fourNodesIP id
    (fun _ => genesisChain fourNodesChain) hr (by decide) crossBlock
    (fun _ _ => genesisChain_crossBlock) hall⟩

/-- Whether an output is a message to another shard with relayed transactions. -/
def Output.isRelay {R : Type} : Output R D Outgoing → Bool
  | .relay (.relay _ _) => true
  | _ => false

/-- Nothing has been relayed, and no message has placed an address. -/
def NothingRelayed (nodeNums : ℕ) (x : Address) (s : RelayState H D) : Prop :=
  (∀ i < nodeNums, (s.nodes i).curChain.partitionMap x = none) ∧
    ∀ e ∈ s.history, e.2.isRelay = false

instance (nodeNums : ℕ) (x : Address) (s : RelayState H D) :
    Decidable (NothingRelayed nodeNums x s) :=
  inferInstanceAs (Decidable ((∀ i < nodeNums, (s.nodes i).curChain.partitionMap x = none) ∧
    ∀ e ∈ s.history, e.2.isRelay = false))

/-- Nodes 1 to 3 time out and then commit the block in view 0, which they do not lead;
their announcements move node 0 to view 1, and then it commits the block. -/
def orphanRun : List FreeAction :=
  crossPrepared ++ timeOut [1, 2, 3] 1 ++ deliverCommit [1, 2, 3] [0, 1, 2] crossRequest 1 ++
    deliverNewView [0] [1, 2, 3] 1 ++ .node 0 .viewChangePropose ::
    deliverCommit [0] [0, 1, 2] crossRequest 1

/-- **A block that nobody relays**: all nodes install it, none while it leads. -/
theorem second_phase_lost :
    ¬ ∀ s, Reaches (ShardState.step fourNodes ∅) (fun _ _ => True) fourNodesStart s →
      NoLostSecondPhase fourNodesChain fourNodes fourNodesStart s := by
  intro h
  have hend : ((runWith (ShardState.step fourNodes ∅) (fun _ _ => True) fourNodesStart
      orphanRun).any fun s =>
        decide (InstalledByAll 4 crossBlock s ∧ NothingRelayed 4 "b" s)) = true := by
    decide +kernel
  obtain ⟨t, hr, hall, hmaps, hno⟩ := Reaches.exists_of_runWith hend
  obtain ⟨j, hj, u, a, v, -, huv, hv, -, -, outs, hout, hsent⟩ := h t hr (by decide) crossBlock
    (fun _ _ => genesisChain_crossBlock) hall
  have hut : Reaches (ShardState.step fourNodes ∅) (fun _ _ => True) u t :=
    (Reaches.tail .refl trivial huv).trans hv
  -- the recipient was at its default placement, shard 1, all the time
  have hplace : (u.nodes j).curChain.getPartitionMap fourNodesChain "b" = 1 := by
    have hnone : (u.nodes j).curChain.partitionMap "b" = none := by
      by_contra hne
      exact placed_of_reaches hut hne (hmaps j hj)
    rw [BlockChain.getPartitionMap, hnone]
    decide +kernel
  obtain ⟨m, hm, -⟩ := hsent crossTransaction List.mem_cons_self rfl
    (by rw [show crossTransaction.recipient = "b" from rfl, hplace]; decide)
  have hmem := ShardState.history_subset_of_reaches hv
    (hout ▸ List.mem_append_left _ (List.mem_map_of_mem hm))
  have := hno _ hmem
  cases this

end BlockEmulator
