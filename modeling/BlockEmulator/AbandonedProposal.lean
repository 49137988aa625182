import BlockEmulator.RelayChain
import BlockEmulator.Replay
import BlockEmulator.Requests
import BlockEmulator.Routing

/-!
# Transactions of an abandoned proposal

`GenerateBlock` takes transactions out of the pool of the leader before consensus
starts; the other nodes drop them when the block is added. `AddTxs2Pool_Head`, which
would put them back, is called by nobody. So a transaction that a node has received is
in its chain or in its pool as long as its own proposal is, and when the proposal is
given up it is in neither.

* `liveProposal` — the block that a node has proposed and leads to commitment.
* `PoolKept` — what a node has received is committed, pooled or in the live proposal.
* `ProposalKept` — the condition on a step: it does not give a live proposal up.
* `no_transaction_lost` — in every run that meets the condition, nothing is lost.
-/

namespace BlockEmulator

open StepSystem PbftNode

variable {H D : Type} [DecidableEq H]

/-! ## The live proposal of a node -/

/-- The block that a node has proposed, in the view that it leads, and that can still
be committed: the round holds `sequenceLock`, and the block is next to the chain. -/
def liveProposal (cfg : RelayPbft H D) (p : RelayNode H D) : Option (Block H) :=
  if p.isMain cfg then
    ((p.sequenceLock.filter fun l => decide (l.view = p.view)).bind Round.digest).bind fun d =>
      ((p.requestPool d).bind requestBlock).filter fun b =>
        decide (b.header.number = p.curChain.currentBlock.header.number + 1 ∧
          b.header.parentBlockHash = p.curChain.currentBlock.hash)
  else none

theorem liveProposal_eq_some {cfg : RelayPbft H D} {p : RelayNode H D} {b : Block H} :
    liveProposal cfg p = some b ↔ p.isMain cfg = true ∧
      ∃ d r, p.sequenceLock = some ⟨p.view, some d⟩ ∧ p.requestPool d = some r ∧
        requestBlock r = some b ∧
        b.header.number = p.curChain.currentBlock.header.number + 1 ∧
        b.header.parentBlockHash = p.curChain.currentBlock.hash := by
  rw [liveProposal]
  constructor
  · intro h
    split at h
    · rename_i hm
      obtain ⟨d, hd, h⟩ := Option.bind_eq_some_iff.mp h
      obtain ⟨l, hl, hld⟩ := Option.bind_eq_some_iff.mp hd
      obtain ⟨hlock, hview⟩ := Option.filter_eq_some_iff.mp hl
      obtain ⟨hb, hnext⟩ := Option.filter_eq_some_iff.mp h
      obtain ⟨r, hr, hrb⟩ := Option.bind_eq_some_iff.mp hb
      obtain ⟨hnum, hpar⟩ := of_decide_eq_true hnext
      refine ⟨hm, d, r, ?_, hr, hrb, hnum, hpar⟩
      rw [hlock, ← of_decide_eq_true hview, ← hld]
    · cases h
  · rintro ⟨hm, d, r, hlock, hr, hrb, hnum, hpar⟩
    simp [hm, hlock, hr, hrb, hnum, hpar, Option.filter_some]

/-- A live proposal stays live while lock, view and chain stay, and the request too. -/
theorem liveProposal_mono {cfg : RelayPbft H D} {p p' : RelayNode H D} {b : Block H}
    (hl : p'.sequenceLock = p.sequenceLock) (hv : p'.view = p.view)
    (hc : p'.curChain.currentBlock = p.curChain.currentBlock)
    (hr : ∀ d r, p.requestPool d = some r → p'.requestPool d = some r)
    (h : liveProposal cfg p = some b) : liveProposal cfg p' = some b := by
  obtain ⟨hm, d, r, hlock, hrd, hrb, hnum, hpar⟩ := liveProposal_eq_some.mp h
  refine liveProposal_eq_some.mpr ⟨?_, d, r, ?_, hr d r hrd, hrb, ?_, ?_⟩
  · rw [isMain, mainNode, hv]
    exact hm
  · rw [hl, hv, hlock]
  · rw [hc, hnum]
  · rw [hc, hpar]

/-- A node whose lock is free, or held by a round without a request, has no live
proposal. -/
theorem liveProposal_eq_none {cfg : RelayPbft H D} {p : RelayNode H D}
    (h : ∀ l ∈ p.sequenceLock, l.digest = none) : liveProposal cfg p = none := by
  rcases hb : liveProposal cfg p with _ | b
  · rfl
  · obtain ⟨-, d, r, hlock, -⟩ := liveProposal_eq_some.mp hb
    cases h _ hlock

/-! ## Property and condition -/

/-- The transactions in a message from outside. -/
def OutsideMessage.transactions : OutsideMessage → List Transaction
  | .relay txs _ _ | .inject txs _ => txs.filterMap id

/-- Whether a transaction is committed or pooled. -/
def BlockChain.Keeps (bc : BlockChain H) (t : Transaction) : Prop :=
  t.txHash ∈ bc.storage.executedTransaction ∨ some t ∈ bc.txpool.txQueue

/-- What a node has received is committed, pooled or in its live proposal. -/
def PoolKept (cfg : RelayPbft H D) (p : RelayNode H D) (received : List Transaction) : Prop :=
  ∀ t ∈ received, t.txHash ≠ [] ∧
    (p.curChain.Keeps t ∨ ∃ b ∈ liveProposal cfg p, t.txHash ∈ txHashes b.body)

variable [DecidableEq D]

/-- The condition on a step.

* A node builds a proposal only while it leads and holds `sequenceLock` for the view.
* A Commit that takes effect while the node has a live proposal is for this proposal,
  and the node does not ask for old requests then.
* Old requests that come then start with it.
* A new view that takes effect then is the one the node is in.
* What is received has a hash. -/
def ProposalKept (cc : ChainConfig H) (cfg : RelayPbft H D) (p : RelayNode H D) :
    RelayInput H D → Prop
  | .proposeBroadcast _ => p.isMain cfg = true ∧ p.sequenceLock = some ⟨p.view, none⟩
  | .receive (.commit m) => completesCommit cfg p m →
      (p.requestPool m.digest = none → p.askForLock = false) →
      (∀ b ∈ (p.requestPool m.digest).bind requestBlock,
        p.curChain.isValidBlock cc (some b) = some (.ok ())) →
      ∀ b ∈ liveProposal cfg p, (p.requestPool m.digest).bind requestBlock = some b
  | .askForRequests => p.askForLock = false → liveProposal cfg p = none
  | .receive (.sendOld m) => ∀ b ∈ liveProposal cfg p, ∀ r ∈ m.oldRequest.head?,
      requestBlock r = some b
  | .receive (.newView m) => p.completesView cfg m →
      liveProposal cfg p = none ∨ Int.bmod m.nextView (2 ^ 32) = p.view
  | .outside m => ∀ t ∈ m.transactions, t.txHash ≠ []
  | _ => True

/-- What a node has received after an input. -/
def receivedAfter (received : List Transaction) : RelayInput H D → List Transaction
  | .outside m => m.transactions ++ received
  | _ => received

/-! ## Chains keep what is committed or pooled -/

variable {cc : ChainConfig H}

omit [DecidableEq D] in
/-- The hashes of an added block are committed. -/
theorem executed_of_addBlock {bc bc' : BlockChain H} {b : Block H}
    (h : bc.addBlock cc (some b) = some (.ok bc')) {t : Bytes} (ht : t ∈ txHashes b.body) :
    t ∈ bc'.storage.executedTransaction := by
  obtain ⟨b', storage, hb, hv, hs, rfl⟩ := BlockChain.addBlock_eq_ok h
  obtain rfl := Option.some.inj hb
  obtain ⟨-, -, -, -, hbody, -⟩ := BlockChain.isValidBlock_eq_ok.mp hv
  obtain ⟨txs, hbody, -, hall⟩ := BlockChain.checkBody_eq_ok.mp hbody
  rw [Storage.addBlock_eq_some hs]
  refine Finset.mem_union_right _ (List.mem_toFinset.mpr (mem_bodyHashes_iff.mpr ⟨?_, ht⟩))
  rw [hbody, txHashes_map_some] at ht
  obtain ⟨tx, htx, rfl⟩ := List.mem_map.mp ht
  exact (hall tx htx).1

omit [DecidableEq D] in
/-- Adding a block keeps every transaction that has a hash. -/
theorem BlockChain.Keeps.addBlock {bc bc' : BlockChain H} {b : Block H} {t : Transaction}
    (ht : bc.Keeps t) (h : bc.addBlock cc (some b) = some (.ok bc')) : bc'.Keeps t := by
  by_cases hin : t.txHash ∈ txHashes b.body
  · exact .inl (executed_of_addBlock h hin)
  obtain ⟨b', storage, hb, -, hs, rfl⟩ := BlockChain.addBlock_eq_ok h
  obtain rfl := Option.some.inj hb
  rcases ht with ht | ht
  · refine .inl ?_
    dsimp only
    rw [Storage.addBlock_eq_some hs]
    exact Finset.mem_union_left _ ht
  · refine .inr (TxPool.mem_removeTxs.mpr ⟨ht, fun t' ht' heq => hin ?_⟩)
    exact mem_txHashes.mpr ⟨t', ht', heq⟩

namespace RawRelay

omit [DecidableEq D] in
/-- Old requests leave the chain alone, or the block of the first is added. -/
theorem installOld_head {rs : List (Option (Request H))} {bc bc' : BlockChain H} {ok : Bool}
    (h : installOld cc rs bc = some (ok, bc')) :
    bc' = bc ∨ ∃ r rest b bc₁, rs = r :: rest ∧ requestBlock r = some b ∧
      bc.addBlock cc (some b) = some (.ok bc₁) ∧ installOld cc rest bc₁ = some (ok, bc') := by
  rcases rs with _ | ⟨_ | r, rest⟩
  · cases h
    exact .inl rfl
  · cases h
    exact .inl rfl
  rw [installOld] at h
  split at h
  · cases h
    exact .inl rfl
  obtain ⟨b, hb, hbind⟩ := Option.bind_eq_some_iff.mp h
  obtain ⟨res, hres, hrest⟩ := Option.bind_eq_some_iff.mp hbind
  rcases res with e | bc₁
  · cases hrest
    exact .inl rfl
  obtain ⟨b, rfl, -, -⟩ := addBlock_number hres
  exact .inr ⟨some r, rest, b, bc₁, rfl,
    requestBlock_eq_some.mpr (show (some r).bind Request.content = _ from hb), hres, hrest⟩

omit [DecidableEq H] [DecidableEq D] in
/-- A message from outside is appended to the pool. -/
theorem handleMessageOutsidePBFT_keeps {bc bc' : BlockChain H} {m : OutsideMessage}
    (h : handleMessageOutsidePBFT bc m = some bc') :
    ∃ pool pm, bc' = { bc with txpool := pool, partitionMap := pm } ∧
      (∀ t ∈ m.transactions, some t ∈ pool.txQueue) ∧
      ∀ t, some t ∈ bc.txpool.txQueue → some t ∈ pool.txQueue := by
  have hadd : ∀ {txs : List (Option Transaction)} {pool : TxPool},
      bc.txpool.addTxs2Pool txs = some pool →
      (∀ t ∈ txs.filterMap id, some t ∈ pool.txQueue) ∧
        ∀ t, some t ∈ bc.txpool.txQueue → some t ∈ pool.txQueue := by
    intro txs pool hadd
    obtain ⟨ts, hts, rfl⟩ := Option.map_eq_some_iff.mp hadd
    obtain rfl := derefAll_eq_some hts
    refine ⟨fun t ht => List.mem_append_right _ ?_, fun t ht => List.mem_append_left _ ht⟩
    simpa using ht
  cases m with
  | relay txs shard seq =>
    obtain ⟨pool, hpool, rfl⟩ := Option.map_eq_some_iff.mp h
    exact ⟨pool, bc.partitionMap, rfl, hadd hpool⟩
  | inject txs placements =>
    rw [handleMessageOutsidePBFT, BlockChain.foldl_updatePartitionMap] at h
    obtain ⟨pool, hpool, rfl⟩ := Option.map_eq_some_iff.mp h
    exact ⟨pool, _, rfl, hadd hpool⟩

end RawRelay

/-! ## Steps -/

section

variable {cfg : RelayPbft H D} {p p' : RelayNode H D} {received : List Transaction}

omit [DecidableEq D] in
/-- What matters to the property is in chain, lock, view and requests. -/
theorem PoolKept.frame (hp : PoolKept cfg p received) (hc : p'.curChain = p.curChain)
    (hl : p'.sequenceLock = p.sequenceLock) (hv : p'.view = p.view)
    (hr : ∀ d r, p.requestPool d = some r → p'.requestPool d = some r) :
    PoolKept cfg p' received := by
  intro t ht
  obtain ⟨hne, hkept⟩ := hp t ht
  refine ⟨hne, hkept.imp (fun h => hc ▸ h) ?_⟩
  rintro ⟨b, hb, htb⟩
  exact ⟨b, liveProposal_mono hl hv (by rw [hc]) hr hb, htb⟩

omit [DecidableEq D] in
/-- Without a live proposal only the chain matters. -/
theorem PoolKept.of_none (hp : PoolKept cfg p received) (hnone : liveProposal cfg p = none)
    (hc : p'.curChain = p.curChain) : PoolKept cfg p' received := by
  intro t ht
  obtain ⟨hne, hkept | ⟨b, hb, -⟩⟩ := hp t ht
  · exact ⟨hne, .inl (hc ▸ hkept)⟩
  · rw [hnone] at hb
    cases hb

omit [DecidableEq D] in
/-- A block is added that is the live proposal, if there is one. -/
theorem PoolKept.addBlock (hp : PoolKept cfg p received) {b : Block H} {bc : BlockChain H}
    (hadd : p.curChain.addBlock cc (some b) = some (.ok bc))
    (hlive : ∀ b' ∈ liveProposal cfg p, b' = b) : ∀ t ∈ received, t.txHash ≠ [] ∧ bc.Keeps t := by
  intro t ht
  obtain ⟨hne, hkept | ⟨b', hb', htb⟩⟩ := hp t ht
  · exact ⟨hne, hkept.addBlock hadd⟩
  · exact ⟨hne, .inl (executed_of_addBlock hadd (hlive b' hb' ▸ htb))⟩

omit [DecidableEq D] in
/-- Old requests are installed that start with the live proposal, if there is one:
nothing changes, or the chain keeps everything. -/
theorem PoolKept.installOld (hp : PoolKept cfg p received)
    {m : SendOldMessage (Option (Request H))} {bc : BlockChain H} {ok : Bool}
    (h : RawRelay.handleforSequentialRequest cc p.curChain m = some (ok, bc))
    (hlive : ∀ b ∈ liveProposal cfg p, ∀ r ∈ m.oldRequest.head?, requestBlock r = some b) :
    bc = p.curChain ∨ ∀ t ∈ received, t.txHash ≠ [] ∧ bc.Keeps t := by
  rw [RawRelay.handleforSequentialRequest] at h
  split at h
  · cases h
    exact .inl rfl
  rcases RawRelay.installOld_head h with rfl | ⟨r, rest, b, bc₁, hrs, hrb, hadd, hrest⟩
  · exact .inl rfl
  refine .inr fun t ht => ?_
  obtain ⟨hne, hkept⟩ := hp.addBlock hadd (fun b' hb' => by
    have := hlive b' hb' r (by rw [hrs]; rfl)
    exact Option.some.inj (this.symm.trans hrb)) t ht
  exact ⟨hne, RawRelay.installOld_induction (fun bc => bc.Keeps t) hrest hkept
    fun _ _ _ _ _ _ hbc hadd => hbc.addBlock hadd⟩

omit [DecidableEq D] in
/-- What comes from outside is pooled. -/
theorem PoolKept.outside (hp : PoolKept cfg p received) {m : OutsideMessage} {bc : BlockChain H}
    (hres : RawRelay.handleMessageOutsidePBFT p.curChain m = some bc)
    (hok : ∀ t ∈ m.transactions, t.txHash ≠ []) :
    PoolKept cfg { p with curChain := bc } (m.transactions ++ received) := by
  obtain ⟨pool, pm, rfl, hall, hold⟩ := RawRelay.handleMessageOutsidePBFT_keeps hres
  intro t ht
  rcases List.mem_append.mp ht with ht | ht
  · exact ⟨hok t ht, .inl (.inr (hall t ht))⟩
  · obtain ⟨hne, (hex | hqueue) | ⟨b, hb, htb⟩⟩ := hp t ht
    · exact ⟨hne, .inl (.inl hex)⟩
    · exact ⟨hne, .inl (.inr (hold t hqueue))⟩
    · exact ⟨hne, .inr ⟨b, liveProposal_mono rfl rfl rfl (fun _ _ h => h) hb, htb⟩⟩

omit [DecidableEq D] in
theorem PoolKept.of_keeps {bc : BlockChain H} (hc : p'.curChain = bc)
    (h : ∀ t ∈ received, t.txHash ≠ [] ∧ bc.Keeps t) : PoolKept cfg p' received :=
  fun t ht => ⟨(h t ht).1, .inl (hc ▸ (h t ht).2)⟩

end

section

variable {nodeNums i : ℕ} {ipNodeTable : ℕ → ℕ → Option String}
  {getDigest : Option (Request H) → D} {p p' : RelayNode H D} {input : RelayInput H D}
  {outs : List (RelayOutput H D)} {received : List Transaction}

omit [DecidableEq H] [DecidableEq D] in
/-- The transactions that a proposal takes out of the pool are committed, or in it. -/
theorem keeps_generateBlock {bc bc' : BlockChain H} {miner : ℕ} {now : Time} {b : Block H}
    (h : bc.generateBlock cc miner now = some (b, bc')) {t : Transaction}
    (hne : t.txHash ≠ []) (ht : bc.Keeps t) : bc'.Keeps t ∨ t.txHash ∈ txHashes b.body := by
  obtain ⟨hbody, -, -, -, -, -, -, -, rfl⟩ := BlockChain.generateBlock_eq_some h
  by_cases hex : t.txHash ∈ bc.storage.executedTransaction
  · exact .inl (.inl hex)
  have hqueue : some t ∈ bc.txpool.txQueue := ht.resolve_left hex
  rw [← BlockChain.packForBlock_append cc] at hqueue
  rcases List.mem_append.mp hqueue with hpacked | hrest
  · -- packed: the filter keeps one of its hash
    obtain ⟨t', ht', heq⟩ := BlockChain.mem_filterFresh_of bc.storage hne hex hpacked
      (Finset.notMem_empty _)
    refine .inr ?_
    rw [hbody, txHashes_map_some, ← heq]
    exact List.mem_map_of_mem ht'
  · exact .inl (.inr hrest)

/-- A Commit that adds a block adds the live proposal, if there is one. -/
theorem PoolKept.completed {cfg : RelayPbft H D} (hp : PoolKept cfg p received) {m : Commit D}
    {r : Option (Request H)} {b : Block H} {bc : BlockChain H}
    (hok : ProposalKept cc cfg p (.receive (.commit m))) (hcomp : completesCommit cfg p m)
    (hr : p.requestPool m.digest = some r) (hrb : requestBlock r = some b)
    (hadd : p.curChain.addBlock cc (some b) = some (.ok bc)) :
    ∀ t ∈ received, t.txHash ≠ [] ∧ bc.Keeps t := by
  refine hp.addBlock hadd fun b' hb' => ?_
  obtain ⟨b₀, storage, hb₀, hv, -, -⟩ := BlockChain.addBlock_eq_ok hadd
  obtain rfl := Option.some.inj hb₀
  have hbind : (p.requestPool m.digest).bind requestBlock = some b := by
    rw [hr]
    exact hrb
  have hlive := hok hcomp (fun hnone => by rw [hr] at hnone; cases hnone)
    (fun b₁ hb₁ => by rw [hbind] at hb₁; cases hb₁; exact hv) b' hb'
  exact Option.some.inj (hlive.symm.trans hbind)

omit [DecidableEq D] in
/-- The leader takes a proposal out of the pool, which is live from then on. -/
theorem PoolKept.propose {cfg : RelayPbft H D} (hp : PoolKept cfg p received) {miner : ℕ}
    {now : Time} {b : Block H} {bc : BlockChain H} {d : D} {r : Option (Request H)}
    (hgen : p.curChain.generateBlock cc miner now = some (b, bc))
    (hmain : p'.isMain cfg = true) (hlock : p.sequenceLock = some ⟨p.view, none⟩)
    (hc : p'.curChain = bc) (hl : p'.sequenceLock = some ⟨p'.view, some d⟩)
    (hr : p'.requestPool d = some r) (hrb : requestBlock r = some b) :
    PoolKept cfg p' received := by
  have hnone : liveProposal cfg p = none := by
    refine liveProposal_eq_none ?_
    rw [hlock]
    rintro l ⟨⟩
    rfl
  subst hc
  intro t ht
  obtain ⟨hne, hkept | ⟨b', hb', -⟩⟩ := hp t ht
  · refine ⟨hne, (keeps_generateBlock hgen hne hkept).imp_right fun htb => ⟨b, ?_, htb⟩⟩
    obtain ⟨-, hnum, hpar, -, -, -, -, -, hc⟩ := BlockChain.generateBlock_eq_some hgen
    refine liveProposal_eq_some.mpr ⟨hmain, d, r, hl, hr, hrb, ?_, ?_⟩
    · rw [hc, hnum]
    · rw [hc, hpar]
  · rw [hnone] at hb'
    cases hb'

/-- **Every step that meets the condition loses nothing.** -/
theorem PoolKept.step (hdig : Function.Injective getDigest)
    (hfile : ∀ d r, p.requestPool d = some r → getDigest r = d)
    (hp : PoolKept ((relayConfig cc nodeNums ipNodeTable getDigest).at i) p received)
    (hok : ProposalKept cc ((relayConfig cc nodeNums ipNodeTable getDigest).at i) p input)
    (h : Transition ((relayConfig cc nodeNums ipNodeTable getDigest).at i) p input p' outs)
    (hf : p'.fault = none) :
    PoolKept ((relayConfig cc nodeNums ipNodeTable getDigest).at i) p'
      (receivedAfter received input) := by
  have hmono : ∀ d r, p.requestPool d = some r → p'.requestPool d = some r :=
    fun d r hr => h.requestPool_mono hdig hfile hr
  have hold : ∀ m ok bc, input = .receive (.sendOld m) →
      RawRelay.handleforSequentialRequest cc p.curChain m = some (ok, bc) →
      p'.curChain = bc → p'.sequenceLock = p.sequenceLock → p'.view = p.view →
      PoolKept ((relayConfig cc nodeNums ipNodeTable getDigest).at i) p' received := by
    rintro m ok bc rfl hres hc hl hv
    rcases hp.installOld hres hok with rfl | hkept
    · exact hp.frame hc hl hv hmono
    · exact .of_keeps hc hkept
  cases h with
  | panicked => cases hf
  | moved input proposers hin =>
    rcases hin with ⟨rfl, -⟩ | rfl
    · exact hp.frame rfl rfl rfl hmono
    · exact hp.frame rfl rfl rfl hmono
  | locked hw hl =>
    refine hp.of_none (liveProposal_eq_none ?_) rfl
    rw [hl]
    exact nofun
  | broadcast now r bc hk hr =>
    obtain ⟨⟨b, bc₀⟩, hgen, heq⟩ := Option.map_eq_some_iff.mp hr
    obtain ⟨rfl, rfl⟩ := Prod.mk.inj heq
    obtain ⟨hmain, hlock⟩ := hok
    refine hp.propose hgen hmain hlock rfl ?_ (Function.update_self _ _ _) rfl
    dsimp only
    rw [hlock]
    rfl
  | asked m confirm ha hst hs hc hq hn hr hl =>
    refine hp.of_none ?_ (by simp [askForRequests, endRound_eq, countCommit])
    rcases hb : liveProposal ((relayConfig cc nodeNums ipNodeTable getDigest).at i) p with _ | b
    · rfl
    · have hlive := hok (completesCommit_of_confirm hs hc hq hn) (fun _ => hl)
        (fun b₁ hb₁ => by rw [hr] at hb₁; cases hb₁) b hb
      rw [hr] at hlive
      cases hlive
  | resumed seqID ha hl => exact hp.of_none (hok hl) (by simp [askForRequests, endRound_eq])
  | commitPanicked => cases hf
  | committed m confirm r bc couts ha hst hs hc hq hn hr hcm =>
    obtain ⟨b, bc₁, hrb, hadd, hrest⟩ := RawRelay.handleinCommit_eq_done hcm
    have hkept := hp.completed hok (completesCommit_of_confirm hs hc hq hn) hr
      (requestBlock_eq_some.mpr hrb) hadd
    have hbc : ∀ t ∈ received, t.txHash ≠ [] ∧ bc.Keeps t := by
      rcases hrest with ⟨-, hrelay⟩ | ⟨-, rfl, -⟩
      · obtain ⟨txs, info, -, -, rfl, -⟩ := RawRelay.relayBlock_spec hrelay
        exact hkept
      · exact hkept
    rw [endRound_eq]
    exact .of_keeps rfl hbc
  | oldFailed m bc hres =>
    rw [unlockAskFor_eq] at hold ⊢
    exact hold m false bc rfl hres rfl rfl rfl
  | oldInstalled m bc hres =>
    rw [unlockAskFor_eq, installed_eq] at hold ⊢
    exact hold m true bc rfl hres rfl rfl rfl
  | oldPrepared m bc r hres =>
    rw [unlockAskFor_eq, installed_eq] at hold ⊢
    exact hold m true bc rfl hres rfl rfl rfl
  | oldPanicked => cases hf
  | viewEntered m hq =>
    rcases hok hq with hnone | hview
    · exact hp.of_none hnone rfl
    · exact hp.frame rfl rfl hview hmono
  | outside m bc hres => exact hp.outside hres hok
  | _ => exact hp.frame rfl rfl rfl hmono

end

/-! ## Runs of a shard -/

/-- A relay shard with what each node has received. -/
structure PoolState (H D : Type) where
  /-- the shard -/
  shard : RelayState H D
  /-- what each node has received with Inject and Relay messages -/
  received : ℕ → List Transaction

namespace PoolState

/-- A shard just started, over the chains of its nodes. -/
def new (chains : ℕ → BlockChain H) : PoolState H D :=
  ⟨ShardState.new (fun bc => bc.currentBlock.header.number) chains, fun _ => []⟩

/-- What the nodes have received after an action. -/
def receive (received : ℕ → List Transaction) : RelayAction H D → ℕ → List Transaction
  | .node i input => Function.update received i (receivedAfter (received i) input)
  | .forge _ _ => received

/-- One step of a shard. -/
def step (cfg : RelayPbft H D) (s : PoolState H D) (a : RelayAction H D) :
    Option (PoolState H D) :=
  (s.shard.step cfg ∅ a).map fun t => ⟨t, receive s.received a⟩

end PoolState

/-- No transaction is lost: what a running node has received is in the body of a block
that its chain has stored, in its pool, or in the proposal that it leads and that can
still be committed. -/
def NoTransactionLost (cfg : RelayPbft H D) (s : PoolState H D) : Prop :=
  ∀ i < cfg.nodeNums, (s.shard.nodes i).fault = none → ∀ t ∈ s.received i,
    (∃ bh b, (s.shard.nodes i).curChain.storage.getBlock bh = some b ∧
      t.txHash ∈ txHashes b.body) ∨
    some t ∈ (s.shard.nodes i).curChain.txpool.txQueue ∨
    ∃ b ∈ liveProposal (cfg.at i) (s.shard.nodes i), t.txHash ∈ txHashes b.body

/-- The condition on a step of a shard. -/
def ProposalsKept (cc : ChainConfig H) (cfg : RelayPbft H D) (s : PoolState H D) :
    RelayAction H D → Prop
  | .node i input => ProposalKept cc (cfg.at i) (s.shard.nodes i) input
  | .forge _ _ => True

/-- What is known of a shard that gives no live proposal up. -/
structure PoolsKept (cc : ChainConfig H) (cfg : RelayPbft H D) (s : PoolState H D) : Prop where
  /-- requests are stored under their digests -/
  filed : ∀ i d r, (s.shard.nodes i).requestPool d = some r → cfg.getDigest r = d
  /-- the index of each node is that of its chain -/
  guarded : ∀ i, Guarded cc (.up (s.shard.nodes i).curChain)
  /-- nothing that a running node has received is lost -/
  kept : ∀ i, (s.shard.nodes i).fault = none →
    PoolKept (cfg.at i) (s.shard.nodes i) (s.received i)

instance (cc : ChainConfig H) (cfg : RelayPbft H D) (p : RelayNode H D) :
    ∀ input, Decidable (ProposalKept cc cfg p input)
  | .proposeBroadcast _ => inferInstanceAs (Decidable (_ ∧ _))
  | .receive (.commit m) => inferInstanceAs (Decidable (completesCommit cfg p m →
      (p.requestPool m.digest = none → p.askForLock = false) →
      (∀ b ∈ (p.requestPool m.digest).bind requestBlock,
        p.curChain.isValidBlock cc (some b) = some (.ok ())) →
      ∀ b ∈ liveProposal cfg p, (p.requestPool m.digest).bind requestBlock = some b))
  | .askForRequests =>
    inferInstanceAs (Decidable (p.askForLock = false → liveProposal cfg p = none))
  | .receive (.sendOld m) => inferInstanceAs (Decidable (∀ b ∈ liveProposal cfg p,
      ∀ r ∈ m.oldRequest.head?, requestBlock r = some b))
  | .receive (.newView m) => inferInstanceAs (Decidable (p.completesView cfg m →
      liveProposal cfg p = none ∨ Int.bmod m.nextView (2 ^ 32) = p.view))
  | .outside m => inferInstanceAs (Decidable (∀ t ∈ m.transactions, t.txHash ≠ []))
  | .receive (.prePrepare _) | .receive (.prepare _) | .receive (.requestOld _)
  | .receive (.viewChange _) | .nextRound | .proposeCheck | .proposeLock | .proposeStage
  | .viewChangePropose => .isTrue trivial

instance (cc : ChainConfig H) (cfg : RelayPbft H D) (s : PoolState H D) :
    ∀ a : RelayAction H D, Decidable (ProposalsKept cc cfg s a)
  | .node i input =>
    inferInstanceAs (Decidable (ProposalKept cc (cfg.at i) (s.shard.nodes i) input))
  | .forge _ _ => .isTrue trivial

section

variable {nodeNums : ℕ} {ipNodeTable : ℕ → ℕ → Option String}
  {getDigest : Option (Request H) → D} {s t : PoolState H D} {a : RelayAction H D}

/-- A step of a node leaves its chain guarded against replays. -/
theorem PbftNode.Transition.guarded (hinj : Function.Injective cc.hash.headerHash) {i : ℕ}
    {p p' : RelayNode H D} {input : RelayInput H D} {outs : List (RelayOutput H D)}
    (h : Transition ((relayConfig cc nodeNums ipNodeTable getDigest).at i) p input p' outs)
    (hp : Guarded cc (.up p.curChain)) : Guarded cc (.up p'.curChain) := by
  have hadd : ∀ {bc bc' : BlockChain H} {b}, Guarded cc (.up bc) →
      bc.addBlock cc (some b) = some (.ok bc') → Guarded cc (.up bc') := by
    rintro bc bc' b ⟨bs, hst, hc⟩ hadd
    exact ⟨_, hst.addBlock hinj hc hadd⟩
  have hmove := h.chainMove
  generalize p'.curChain = bc' at hmove
  cases hmove with
  | same => exact hp
  | proposed now b bc _ hgen =>
    obtain ⟨-, -, -, -, -, -, -, -, rfl⟩ := BlockChain.generateBlock_eq_some hgen
    exact hp.frame rfl rfl
  | added m r b bc _ hm hr hb hbc => exact hadd hp hbc
  | relayed m r b bc bc'' couts hm hr hb hbc hrelay =>
    obtain ⟨txs, info, -, -, rfl, -⟩ := RawRelay.relayBlock_spec hrelay
    exact (hadd hp hbc).frame rfl rfl
  | old m ok bc _ hres =>
    exact RawRelay.handleforSequentialRequest_induction (fun bc => Guarded cc (.up bc)) hres hp
      fun _ _ _ _ _ _ hbc h => hadd hbc h
  | outside m bc _ hres =>
    obtain ⟨pool, pm, rfl⟩ := RawRelay.handleMessageOutsidePBFT_eq_some hres
    exact hp.frame rfl rfl

namespace PoolsKept

/-- **Every step that meets the condition keeps all pools.** -/
theorem step (hinj : Function.Injective cc.hash.headerHash)
    (hdig : Function.Injective getDigest)
    (hs : PoolsKept cc (relayConfig cc nodeNums ipNodeTable getDigest) s)
    (hok : ProposalsKept cc (relayConfig cc nodeNums ipNodeTable getDigest) s a)
    (h : s.step (relayConfig cc nodeNums ipNodeTable getDigest) a = some t) :
    PoolsKept cc (relayConfig cc nodeNums ipNodeTable getDigest) t := by
  obtain ⟨u, hu, rfl⟩ := Option.map_eq_some_iff.mp h
  rcases a with ⟨i, input⟩ | ⟨b, m⟩
  · obtain ⟨-, -, -, hf, p, outs, htr, rfl⟩ := ShardState.step_node hu
    refine ⟨fun j d r hr => ?_, fun j => ?_, fun j hfj => ?_⟩
    · dsimp only at hr
      rw [Function.update_apply] at hr
      split at hr
      · rcases htr.requestPool hr with hr | ⟨hd, -⟩
        · exact hs.filed i d r hr
        · exact hd
      · exact hs.filed j d r hr
    · dsimp only
      rw [Function.update_apply]
      split
      · exact htr.guarded hinj (hs.guarded i)
      · exact hs.guarded j
    · dsimp only [PoolState.receive] at hfj ⊢
      by_cases hj : j = i
      · subst hj
        rw [Function.update_self] at hfj ⊢
        rw [Function.update_self]
        exact (hs.kept j hf).step hdig (hs.filed j) hok htr hfj
      · rw [Function.update_of_ne hj] at hfj ⊢
        rw [Function.update_of_ne hj]
        exact hs.kept j hfj
  · obtain ⟨hb, -, -⟩ := ShardState.step_forge hu
    exact absurd hb (Finset.notMem_empty b)

end PoolsKept

/-- **A proposal that is not given up loses nothing**: in every run of a relay shard
without Byzantine nodes whose steps meet the condition, over chains that the program
has made, what a running node has received is committed, pooled or in its live
proposal. -/
theorem no_transaction_lost (hinj : Function.Injective cc.hash.headerHash)
    (hdig : Function.Injective getDigest) {chains : ℕ → BlockChain H}
    (hchains : ∀ i, Reaches (Process.step cc) (fun _ _ => True) Process.fresh (.up (chains i)))
    (hr : Reaches (PoolState.step (relayConfig cc nodeNums ipNodeTable getDigest))
      (ProposalsKept cc (relayConfig cc nodeNums ipNodeTable getDigest))
      (PoolState.new chains) s) :
    NoTransactionLost (relayConfig cc nodeNums ipNodeTable getDigest) s := by
  have hstart : PoolsKept cc (relayConfig cc nodeNums ipNodeTable getDigest)
      (PoolState.new chains) :=
    ⟨fun i d r h => (by cases h), fun i => guarded_reachable hinj (hchains i),
      fun i _ t ht => absurd ht List.not_mem_nil⟩
  have hs := hr.invariant (PoolsKept cc (relayConfig cc nodeNums ipNodeTable getDigest)) hstart
    fun _ _ _ hs hok h => hs.step hinj hdig hok h
  intro i _ hf t ht
  obtain ⟨-, (hex | hqueue) | hlive⟩ := hs.kept i hf t ht
  · obtain ⟨bs, hst, hc⟩ := hs.guarded i
    exact .inl ((hst.mem_executed_iff hc).mp hex)
  · exact .inr (.inl hqueue)
  · exact .inr (.inr hlive)

end

/-! ## Four nodes -/

/-- A transaction reaches some nodes. -/
def inject (is : List ℕ) (t : Transaction) : List FreeAction :=
  is.map fun i => .node i (.outside (.inject [some t] []))

/-- A concrete shard, started on empty disks. -/
def fourPools : PoolState FreeHash FreeRequest :=
  PoolState.new fun _ => genesisChain fourNodesChain

theorem genesisChain_reaches :
    Reaches (Process.step fourNodesChain) (fun _ _ => True) Process.fresh
      (.up (genesisChain fourNodesChain)) := by
  refine .tail (a := .restart ∅) .refl trivial ?_
  rw [Process.fresh, Process.step, if_pos (Finset.empty_subset _)]
  have hnew := newBlockChain_empty fourNodesChain
  rw [show ({ Storage.empty with executedTransaction := ∅ } : Storage FreeHash) =
    Storage.empty from rfl, hnew]

/-- Whether a node runs at a height, in a view, and has received a transaction. -/
def ReceivedAt (i height : ℕ) (view : ℤ) (t : Transaction) (s : PoolState FreeHash FreeRequest) :
    Prop :=
  (s.shard.nodes i).fault = none ∧ (s.shard.nodes i).view = view ∧
    (s.shard.nodes i).curChain.currentBlock.header.number = height ∧ t ∈ s.received i

instance (i height : ℕ) (view : ℤ) (t : Transaction) (s : PoolState FreeHash FreeRequest) :
    Decidable (ReceivedAt i height view t s) :=
  inferInstanceAs (Decidable (_ ∧ _ ∧ _ ∧ _))

/-- The transaction reaches all nodes, node 0 proposes it, all commit it, and then the
view changes. -/
theorem no_transaction_lost_commit :
    ∃ s, ReceivedAt 0 1 1 crossTransaction s ∧ NoTransactionLost fourNodes s := by
  have hend : ((runWith (PoolState.step fourNodes) (ProposalsKept fourNodesChain fourNodes)
      fourPools (inject [0, 1, 2, 3] crossTransaction ++ propose 0 7 ++
        deliverPrePrepare [0, 1, 2, 3] crossRequest 1 ++
        deliverPrepare [0, 1, 2, 3] [0, 1, 2] crossRequest 1 ++
        deliverCommit [0, 1, 2, 3] [0, 1, 2] crossRequest 1 ++
        timeOut [1, 2, 3] 2 ++ deliverNewView [0, 1, 2, 3] [1, 2, 3] 2)).any
      fun s => decide (ReceivedAt 0 1 1 crossTransaction s)) = true := by
    decide +kernel
  obtain ⟨s, hr, hs⟩ := Reaches.exists_of_runWith hend
  exact ⟨s, hs, no_transaction_lost freeHash_injective Function.injective_id
    (fun _ => genesisChain_reaches) hr⟩

/-- Whether a node has neither the hash of a transaction in its chain, nor anything in
its pool, nor a live proposal. -/
def LostAt (i : ℕ) (t : Transaction) (s : PoolState FreeHash FreeRequest) : Prop :=
  t.txHash ∉ (s.shard.nodes i).curChain.storage.backfill ∧
    (s.shard.nodes i).curChain.txpool.txQueue = [] ∧
    liveProposal (fourNodes.at i) (s.shard.nodes i) = none

instance (i : ℕ) (t : Transaction) (s : PoolState FreeHash FreeRequest) :
    Decidable (LostAt i t s) :=
  inferInstanceAs (Decidable (_ ∧ _ ∧ _))

/-- Whether all nodes have received the same. -/
def ReachedAll (nodeNums : ℕ) (s : PoolState H D) : Prop :=
  ∀ i < nodeNums, s.received i = s.received 0

instance (nodeNums : ℕ) (s : PoolState H D) : Decidable (ReachedAll nodeNums s) :=
  inferInstanceAs (Decidable (∀ i < nodeNums, s.received i = s.received 0))

/-- Node 0 proposes the transaction; the others change the view before it is prepared,
and node 1, which has not received the transaction yet, proposes an empty block, which
all commit. -/
def abandonRun : List FreeAction :=
  inject [0] crossTransaction ++ propose 0 7 ++ timeOut [1, 2, 3] 1 ++
    deliverNewView [0, 1, 2, 3] [1, 2, 3] 1 ++ propose 1 9 ++
    deliverPrePrepare [0, 1, 2, 3] (emptyRequest 1 9) 1 ++
    deliverPrepare [0, 1, 2, 3] [1, 2, 3] (emptyRequest 1 9) 1 ++
    deliverCommit [0, 1, 2, 3] [1, 2, 3] (emptyRequest 1 9) 1 ++
    inject [1, 2, 3] crossTransaction

/-- **An abandoned proposal loses its transactions**: node 0 has the transaction neither
in its chain nor in its pool, and its proposal is for a height that is taken. -/
theorem transaction_lost :
    ¬ ∀ s, Reaches (PoolState.step fourNodes) (fun _ _ => True) fourPools s →
      ReachedAll 4 s → NoTransactionLost fourNodes s := by
  intro h
  have hend : ((runWith (PoolState.step fourNodes) (fun _ _ => True) fourPools abandonRun).any
      fun s => decide (ReachedAll 4 s ∧ ReceivedAt 0 1 1 crossTransaction s ∧
        LostAt 0 crossTransaction s)) = true := by
    decide +kernel
  obtain ⟨s, hr, hall, ⟨hf, -, -, hrec⟩, hchain, hqueue, hnone⟩ := Reaches.exists_of_runWith hend
  rcases h s hr hall 0 (by decide) hf crossTransaction hrec with ⟨bh, b, hget, hb⟩ | hin | hlive
  · exact hchain (Storage.mem_backfill.mpr ⟨bh, b, hget, mem_bodyHashes_iff.mpr ⟨by decide, hb⟩⟩)
  · rw [hqueue] at hin
    cases hin
  · obtain ⟨b, hb, -⟩ := hlive
    rw [hnone] at hb
    cases hb

end BlockEmulator
