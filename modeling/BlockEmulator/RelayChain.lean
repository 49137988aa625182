import BlockEmulator.RelayShard

/-!
# What a step does to the chain of a relay node

`Transition.chainMove` is `nodeStep_transition` seen from the chain: proposing takes
transactions out of the pool, a Commit adds a block and lets the leader relay it, old
requests add blocks, messages from outside fill the pool. Everything else leaves the
chain alone.
-/

namespace BlockEmulator

open PbftNode

variable {H D : Type}

/-- The configuration of a relay node. -/
abbrev RelayPbft (H D : Type) : Type :=
  PbftConfig (BlockChain H) (Option (Request H)) D OutsideMessage Outgoing

/-- A relay node. -/
abbrev RelayNode (H D : Type) : Type := PbftNode (BlockChain H) (Option (Request H)) D

/-- What can happen at a relay node. -/
abbrev RelayInput (H D : Type) : Type := NodeInput (Option (Request H)) D OutsideMessage

/-- What a relay node gives to the world. -/
abbrev RelayOutput (H D : Type) : Type := Output (Option (Request H)) D Outgoing

/-- The state of a relay shard. -/
abbrev RelayState (H D : Type) : Type :=
  ShardState (BlockChain H) (Option (Request H)) D Outgoing

/-- What happens in a relay shard. -/
abbrev RelayAction (H D : Type) : Type := ShardAction (Option (Request H)) D OutsideMessage

/-- The block in a request. -/
def requestBlock (r : Option (Request H)) : Option (Block H) :=
  (r.bind Request.content).bind id

theorem requestBlock_eq_some {r : Option (Request H)} {b : Block H} :
    requestBlock r = some b ↔ r.bind Request.content = some (some b) := by
  rw [requestBlock, Option.bind_eq_some_iff]
  constructor
  · rintro ⟨c, hc, rfl⟩
    exact hc
  · intro h
    exact ⟨some b, h, rfl⟩

variable [DecidableEq H]

/-- Whether a chain has stored a block. -/
def BlockChain.Has (bc : BlockChain H) (b : Block H) : Prop :=
  bc.storage.getBlock b.hash = some b

instance (bc : BlockChain H) (b : Block H) : Decidable (bc.Has b) :=
  inferInstanceAs (Decidable (_ = _))

/-- Only the block that is stored is new in the storage. -/
theorem BlockChain.Has.of_addBlock {cc : ChainConfig H} {bc bc' : BlockChain H}
    {b b' : Block H} (h : bc.addBlock cc (some b) = some (.ok bc')) (hb : bc'.Has b') :
    b' = b ∨ bc.Has b' := by
  obtain ⟨b₀, storage, hb₀, -, hs, rfl⟩ := BlockChain.addBlock_eq_ok h
  obtain rfl := Option.some.inj hb₀
  have hget := Storage.getBlock_insert hs b'.hash
  split at hget
  · exact .inl (Option.some.inj (hb.symm.trans hget))
  · exact .inr (hget.symm.trans hb)

/-! ## Which steps install a block -/

/-- Whether a Commit completes the quorum of its request at a node that has not
committed it. -/
def completesCommit {App R In Out : Type} [DecidableEq D] (cfg : PbftConfig App R D In Out)
    (p : PbftNode App R D) (m : Commit D) : Prop :=
  p.sequenceID ≤ m.seqID ∧ p.isReply m.digest = false ∧
    ((set2DMap cfg p.cntCommitConfirm m.digest m.senderNode).any fun confirm =>
      decide (cfg.quorum ≤ (confirm m.digest).card)) = true

instance {App R In Out : Type} [DecidableEq D] (cfg : PbftConfig App R D In Out)
    (p : PbftNode App R D) (m : Commit D) : Decidable (completesCommit cfg p m) :=
  inferInstanceAs (Decidable (_ ∧ _))

/-- The checks of `handleCommit`, passed one by one. -/
theorem completesCommit_of_confirm {App R In Out : Type} [DecidableEq D]
    {cfg : PbftConfig App R D In Out} {p : PbftNode App R D} {m : Commit D}
    {confirm : D → Finset ℕ} (hseq : p.sequenceID ≤ m.seqID)
    (hconfirm : set2DMap cfg p.cntCommitConfirm m.digest m.senderNode = some confirm)
    (hquorum : cfg.quorum ≤ (confirm m.digest).card) (hreply : p.isReply m.digest = false) :
    completesCommit cfg p m := by
  refine ⟨hseq, hreply, ?_⟩
  rw [hconfirm]
  exact decide_eq_true hquorum

namespace RawRelay

variable {cc : ChainConfig H}

/-- A panic of `HandleinCommit` leaves the chain alone, or comes after the block. -/
theorem handleinCommit_eq_panic {main : Bool} {seqID : ℕ} {bc bc' : BlockChain H}
    {r : Option (Request H)} (h : handleinCommit cc main seqID bc r = .panic bc') :
    bc' = bc ∨ ∃ b, requestBlock r = some b ∧ bc.addBlock cc (some b) = some (.ok bc') ∧
      main = true ∧ relayBlock cc seqID bc' b = none := by
  rw [handleinCommit] at h
  split at h
  · cases h
    exact .inl rfl
  · cases h
    exact .inl rfl
  rename_i b hb
  split at h
  · cases h
    exact .inl rfl
  · cases h
  rename_i bc₁ hadd
  split at h
  · rename_i hm
    split at h
    · rename_i hr
      cases h
      exact .inr ⟨b, requestBlock_eq_some.mpr hb, hadd, hm, hr⟩
    · cases h
  · cases h

/-- **The induction over old requests**: what adding the block of a request keeps,
installing old requests keeps. -/
theorem installOld_induction (P : BlockChain H → Prop) {rs : List (Option (Request H))}
    {bc bc' : BlockChain H} {ok : Bool} (h : installOld cc rs bc = some (ok, bc')) (hbc : P bc)
    (hadd : ∀ r ∈ rs, ∀ b ∈ requestBlock r, ∀ bc bc', P bc →
      bc.addBlock cc (some b) = some (.ok bc') → P bc') : P bc' := by
  induction rs generalizing bc with
  | nil =>
    cases h
    exact hbc
  | cons r rs ih =>
    rcases r with _ | r
    · cases h
      exact hbc
    rw [installOld] at h
    split at h
    · cases h
      exact hbc
    obtain ⟨b, hb, hbind⟩ := Option.bind_eq_some_iff.mp h
    obtain ⟨res, hres, hrest⟩ := Option.bind_eq_some_iff.mp hbind
    rcases res with e | bc₁
    · cases hrest
      exact hbc
    obtain ⟨b, rfl, -, -⟩ := addBlock_number hres
    have hrb : requestBlock (some r) = some b :=
      requestBlock_eq_some.mpr (show (some r).bind Request.content = _ from hb)
    exact ih hrest (hadd (some r) List.mem_cons_self b hrb bc bc₁ hbc hres)
      fun s hs => hadd s (List.mem_cons_of_mem _ hs)

/-- What a handled answer with old requests keeps. -/
theorem handleforSequentialRequest_induction (P : BlockChain H → Prop)
    {som : SendOldMessage (Option (Request H))} {bc bc' : BlockChain H} {ok : Bool}
    (h : handleforSequentialRequest cc bc som = some (ok, bc')) (hbc : P bc)
    (hadd : ∀ r ∈ som.oldRequest, ∀ b ∈ requestBlock r, ∀ bc bc', P bc →
      bc.addBlock cc (some b) = some (.ok bc') → P bc') : P bc' := by
  rw [handleforSequentialRequest] at h
  split at h
  · cases h
    exact hbc
  · exact installOld_induction P h hbc hadd

end RawRelay

/-- What a step can do to the chain of a relay node. -/
inductive ChainMove [DecidableEq D] (cc : ChainConfig H) (cfg : RelayPbft H D)
    (p : RelayNode H D) :
    RelayInput H D → BlockChain H →
      List (RelayOutput H D) → Prop where
  /-- nothing -/
  | same (input : RelayInput H D)
      (outs : List (RelayOutput H D)) :
      ChainMove cc cfg p input p.curChain outs
  /-- a block is proposed -/
  | proposed (now : Time) (b : Block H) (bc : BlockChain H)
      (outs : List (RelayOutput H D))
      (h : p.curChain.generateBlock cc cfg.nodeID now = some (b, bc)) :
      ChainMove cc cfg p (.proposeBroadcast now) bc outs
  /-- a Commit adds its block, and nothing is relayed: the node does not lead, or it
  panics -/
  | added (m : Commit D) (r : Option (Request H)) (b : Block H) (bc : BlockChain H)
      (outs : List (RelayOutput H D)) (hm : completesCommit cfg p m)
      (hr : p.requestPool m.digest = some r) (hb : requestBlock r = some b)
      (hadd : p.curChain.addBlock cc (some b) = some (.ok bc))
      (hrelay : p.isMain cfg = false ∨ RawRelay.relayBlock cc p.sequenceID bc b = none) :
      ChainMove cc cfg p (.receive (.commit m)) bc outs
  /-- a Commit adds its block, and the leader relays it -/
  | relayed (m : Commit D) (r : Option (Request H)) (b : Block H) (bc bc' : BlockChain H)
      (outs : List Outgoing) (hm : completesCommit cfg p m)
      (hr : p.requestPool m.digest = some r) (hb : requestBlock r = some b)
      (hadd : p.curChain.addBlock cc (some b) = some (.ok bc))
      (hrelay : RawRelay.relayBlock cc p.sequenceID bc b = some (bc', outs)) :
      ChainMove cc cfg p (.receive (.commit m)) bc'
        (.committed p.sequenceID m.digest :: outs.map .relay)
  /-- old requests are installed, all or some -/
  | old (m : SendOldMessage (Option (Request H))) (ok : Bool) (bc : BlockChain H)
      (outs : List (RelayOutput H D))
      (h : RawRelay.handleforSequentialRequest cc p.curChain m = some (ok, bc)) :
      ChainMove cc cfg p (.receive (.sendOld m)) bc outs
  /-- a message from outside is handled -/
  | outside (m : OutsideMessage) (bc : BlockChain H)
      (outs : List (RelayOutput H D))
      (h : RawRelay.handleMessageOutsidePBFT p.curChain m = some bc) :
      ChainMove cc cfg p (.outside m) bc outs

variable [DecidableEq D] {cc : ChainConfig H} {nodeNums i : ℕ}
  {ipNodeTable : ℕ → ℕ → Option String} {getDigest : Option (Request H) → D}
  {p p' : RelayNode H D}
  {input : RelayInput H D}
  {outs : List (RelayOutput H D)}

/-- **What a step does to the chain** of a relay node. -/
theorem PbftNode.Transition.chainMove
    (h : Transition ((relayConfig cc nodeNums ipNodeTable getDigest).at i) p input p' outs) :
    ChainMove cc ((relayConfig cc nodeNums ipNodeTable getDigest).at i) p input p'.curChain
      outs := by
  cases h with
  | broadcast now r bc hk hr =>
    obtain ⟨⟨b, bc₀⟩, hgen, heq⟩ := Option.map_eq_some_iff.mp hr
    obtain ⟨rfl, rfl⟩ := Prod.mk.inj heq
    exact .proposed now b bc₀ _ hgen
  | asked m confirm =>
    simp only [askForRequests, endRound_eq, countCommit]
    exact .same _ _
  | resumed seqID =>
    simp only [askForRequests, endRound_eq]
    exact .same _ _
  | commitPanicked m confirm r bc ha hs hc hq hn hr hcm =>
    rcases RawRelay.handleinCommit_eq_panic hcm with rfl | ⟨b, hrb, hadd, hm, hnone⟩
    · exact .same _ _
    · exact .added m r b bc _ (completesCommit_of_confirm hs hc hq hn) hr hrb hadd (.inr hnone)
  | committed m confirm r bc couts ha hst hs hc hq hn hr hcm =>
    rw [endRound_eq]
    obtain ⟨b, bc₁, hrb, hadd, ⟨-, hrelay⟩ | ⟨hm, rfl, rfl⟩⟩ :=
      RawRelay.handleinCommit_eq_done hcm
    · exact .relayed m r b bc₁ bc couts (completesCommit_of_confirm hs hc hq hn) hr
        (requestBlock_eq_some.mpr hrb) hadd hrelay
    · exact .added m r b bc _ (completesCommit_of_confirm hs hc hq hn) hr
        (requestBlock_eq_some.mpr hrb) hadd (.inl hm)
  | oldFailed m bc hres =>
    rw [unlockAskFor_eq]
    exact .old m false bc _ hres
  | oldInstalled m bc hres =>
    rw [unlockAskFor_eq, installed_eq]
    exact .old m true bc _ hres
  | oldPrepared m bc r hres =>
    rw [unlockAskFor_eq, installed_eq]
    exact .old m true bc _ hres
  | oldPanicked m bc hres =>
    rw [installed_eq]
    exact .old m true bc _ hres
  | outside m bc hres => exact .outside m bc _ hres
  | _ => exact .same _ _

/-- An address that is placed stays placed. -/
theorem PbftNode.Transition.partitionMap
    (h : Transition ((relayConfig cc nodeNums ipNodeTable getDigest).at i) p input p' outs)
    {x : Address} (hx : p.curChain.partitionMap x ≠ none) : p'.curChain.partitionMap x ≠ none := by
  have hadd : ∀ {bc bc' : BlockChain H} {b}, bc.addBlock cc (some b) = some (.ok bc') →
      bc'.partitionMap = bc.partitionMap := by
    intro bc bc' b hadd
    obtain ⟨-, storage, -, -, -, rfl⟩ := BlockChain.addBlock_eq_ok hadd
    rfl
  have hmove := h.chainMove
  generalize p'.curChain = bc' at hmove
  cases hmove with
  | same => exact hx
  | proposed now b bc _ hgen =>
    obtain ⟨-, -, -, -, -, -, -, -, rfl⟩ := BlockChain.generateBlock_eq_some hgen
    exact hx
  | added m r b bc _ hm hr hb hbc =>
    rw [hadd hbc]
    exact hx
  | relayed m r b bc bc'' couts hm hr hb hbc hrelay =>
    obtain ⟨pool, -, -, rfl, -⟩ := RawRelay.relayBlock_eq_some hrelay
    dsimp only
    rw [hadd hbc]
    exact hx
  | old m ok bc _ hres =>
    refine RawRelay.handleforSequentialRequest_induction (fun bc => bc.partitionMap x ≠ none)
      hres hx fun r _ b _ bc bc' hbc hb => ?_
    rw [hadd hb]
    exact hbc
  | outside m bc _ hres =>
    cases m with
    | relay txs shard seq =>
      obtain ⟨pool, -, rfl⟩ := Option.map_eq_some_iff.mp hres
      exact hx
    | inject txs placements =>
      rw [RawRelay.handleMessageOutsidePBFT, BlockChain.foldl_updatePartitionMap] at hres
      obtain ⟨pool, -, rfl⟩ := Option.map_eq_some_iff.mp hres
      exact placeAll_ne_none hx

theorem placed_of_reaches
    {ok : RelayState H D → RelayAction H D → Prop} {byz : Finset ℕ} {s t : RelayState H D}
    {j : ℕ} {x : Address}
    (h : StepSystem.Reaches
      (ShardState.step (relayConfig cc nodeNums ipNodeTable getDigest) byz) ok s t)
    (hx : (s.nodes j).curChain.partitionMap x ≠ none) :
    (t.nodes j).curChain.partitionMap x ≠ none := by
  refine h.invariant (fun t => (t.nodes j).curChain.partitionMap x ≠ none) hx
    fun s a t hs _ h => ?_
  rcases a with ⟨i, input⟩ | ⟨b, m⟩
  · obtain ⟨-, -, -, -, p, outs, htr, rfl⟩ := ShardState.step_node h
    dsimp only
    rw [Function.update_apply]
    split
    · rename_i hj
      subst hj
      exact htr.partitionMap hs
    · exact hs
  · obtain ⟨-, -, rfl⟩ := ShardState.step_forge h
    exact hs

end BlockEmulator
