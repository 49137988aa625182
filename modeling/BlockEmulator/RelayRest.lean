import BlockEmulator.BlockVerdict
import BlockEmulator.Proposal
import BlockEmulator.RelaySettled

/-!
# Relay shards come to rest

Once nothing more is injected, leaders that only propose when their pools hold something,
and messages that arrive, in any order, bring the system to rest.

* `NetSound.commit_isSome` — a leader is never stopped: its proposal is valid, is stored
  and is relayed.
* `NetSound.work_lt` — each step leaves less work.
* `comes_to_rest` — **every schedule ends**, after no more steps than there is work, and
  where it ends each transaction is executed exactly at the homes of its sender and its
  recipient.
-/

namespace BlockEmulator

open StepSystem

variable {H : Type} [DecidableEq H]

/-! ## A leader is never stopped -/

/-- Whether a block takes one transaction at least. -/
def ChainConfig.Packs (cc : ChainConfig H) : Prop :=
  if cc.useBlocksizeInBytes then TxPool.sizeofTransaction ≤ cc.blocksizeInBytes
  else 0 < cc.blockSize

instance (cc : ChainConfig H) : Decidable cc.Packs := inferInstanceAs (Decidable (ite ..))

section

variable {cc : ChainConfig H} {bc bc' : BlockChain H} {txs : List Transaction}

omit [DecidableEq H] in
theorem packForBlock_eq (hpacks : cc.Packs) (h : bc.txpool.txQueue ≠ []) :
    ∃ n, 0 < n ∧ bc.packForBlock cc = bc.txpool.packTxs n := by
  rw [ChainConfig.Packs] at hpacks
  rw [BlockChain.packForBlock]
  by_cases hbytes : cc.useBlocksizeInBytes = true
  · rw [if_pos hbytes] at hpacks ⊢
    refine ⟨_, ?_, rfl⟩
    obtain ⟨p, ps, hq⟩ := List.exists_cons_of_ne_nil h
    rw [hq, TxPool.countWithinBytes, if_neg (by omega)]
    exact Nat.succ_pos _
  · rw [if_neg hbytes] at hpacks ⊢
    exact ⟨_, hpacks, rfl⟩

omit [DecidableEq H] in
/-- Where something is pooled, something is proposed. -/
theorem FreshPool.filterFresh_ne_nil (h : FreshPool bc txs) (hpacks : cc.Packs) (hne : txs ≠ []) :
    bc.filterFreshTransactions (bc.packForBlock cc).1 ≠ [] := by
  have hq : bc.txpool.txQueue ≠ [] := by
    rw [h.queue]
    simpa using hne
  obtain ⟨n, hn, hpack⟩ := packForBlock_eq hpacks hq
  have hall : bc.filterFreshTransactions (bc.packForBlock cc).1 = txs.take n := by
    rw [hpack, TxPool.packTxs, h.queue, ← List.map_take]
    refine BlockChain.filterFresh_eq_self bc.storage ?_ fun tx htx => ?_
    · exact h.nodup.sublist ((List.take_sublist n txs).map _)
    · obtain ⟨hne, hex⟩ := h.fresh tx (List.mem_of_mem_take htx)
      exact ⟨hne, Finset.notMem_empty _, hex⟩
  rw [hall]
  intro hnil
  rcases List.take_eq_nil_iff.mp hnil with hz | hz
  · exact absurd hz hn.ne'
  · exact hne hz

/-- **A round goes through** where the pool is of this shard and the database is
writable. -/
theorem FreshPool.leaderRound_isSome (h : FreshPool bc txs) (hw : bc.storage.writable = true)
    (hvalue : ∀ tx ∈ txs, tx.value ≠ none)
    (hplaced : ∀ tx ∈ txs, tx.Placed (bc.getPartitionMap cc) cc.shardID) (miner seqID : ℕ)
    (now : Time) : (leaderRound cc miner seqID now bc).isSome = true := by
  have hpool : ∀ tx, some tx ∈ bc.txpool.txQueue → tx ∈ txs := fun tx htx => by
    rw [h.queue] at htx
    simpa using htx
  obtain ⟨b, bc₁, hgen, hsame, hall⟩ := bc.proposal_valid cc miner now fun tx htx =>
    hvalue tx (hpool tx htx)
  obtain ⟨-, hadd⟩ := hall bc₁ hsame
  obtain ⟨storage, hstorage⟩ : ∃ storage, bc.storage.addBlock b = some storage := by
    rw [Storage.addBlock, if_pos hw]
    exact ⟨_, rfl⟩
  rw [hstorage] at hadd
  obtain ⟨hbody, -⟩ := BlockChain.generateBlock_eq_some hgen
  have hmap : bc₁.getPartitionMap cc = bc.getPartitionMap cc := by
    funext a
    rw [BlockChain.getPartitionMap, BlockChain.getPartitionMap, hsame.partitionMap]
  obtain ⟨bc₂, outs, hdone⟩ := (handleinCommit_done_iff cc bc₁ _ seqID
    ⟨.block, some (some b), now⟩ b rfl hadd).mpr fun tx htx => by
      rw [hbody] at htx
      obtain ⟨tx', htx', heq⟩ := List.mem_map.mp htx
      cases heq
      rw [hmap]
      exact hplaced tx (hpool tx (BlockChain.mem_filterFreshTransactions htx'))
  rw [leaderRound, RawRelay.handleinPropose, hgen, Option.map_some, Option.bind_some]
  dsimp only
  rw [hdone]
  rfl

/-- A round leaves the database writable. -/
theorem leaderRound_writable {miner seqID : ℕ} {now : Time} {relays : List (ℕ × Relay)}
    (h : leaderRound cc miner seqID now bc = some (bc', relays)) (hw : bc.storage.writable = true) :
    bc'.storage.writable = true := by
  rw [leaderRound] at h
  obtain ⟨⟨r, bc₁⟩, hprop, h⟩ := Option.bind_eq_some_iff.mp h
  obtain ⟨⟨b, bc₂⟩, hgen, heq⟩ := Option.map_eq_some_iff.mp hprop
  obtain ⟨rfl, rfl⟩ := Prod.mk.inj heq
  obtain ⟨-, -, -, -, -, -, -, -, hbc⟩ := BlockChain.generateBlock_eq_some hgen
  dsimp only at h hbc
  split at h
  · rename_i bc₃ outs hcm
    obtain ⟨rfl, rfl⟩ := Prod.mk.inj (Option.some.inj h)
    obtain ⟨b', bc₄, -, hadd, ⟨-, hrelay⟩ | ⟨hm, -, -⟩⟩ := RawRelay.handleinCommit_eq_done hcm
    · obtain ⟨_, _, -, -, rfl, -⟩ := RawRelay.relayBlock_spec hrelay
      obtain ⟨_, storage, -, -, hs, rfl⟩ := BlockChain.addBlock_eq_ok hadd
      rw [hbc, Storage.addBlock, if_pos hw] at hs
      obtain rfl := Option.some.inj hs
      exact hw
    · cases hm
  · cases h

end

/-! ## Steps without injections -/

/-- Whether an action takes the system on: a leader proposes something, or a message
arrives. -/
def NetAction.Productive (s : NetState H) : NetAction → Prop
  | .inject .. => False
  | .commit sid _ _ _ => (s.chains sid).pooled ≠ []
  | .deliver _ => True

instance (s : NetState H) (a : NetAction) : Decidable (a.Productive s) :=
  match a with
  | .inject .. => inferInstanceAs (Decidable False)
  | .commit .. => inferInstanceAs (Decidable (_ ≠ _))
  | .deliver _ => inferInstanceAs (Decidable True)

/-- The weight of the phases that a transaction has before it. -/
def phaseSteps (c : ℕ) (tx : Transaction) : ℕ := if tx.relayed then c else 2 * c

/-- Each transaction of a block weighs more than what it makes due, by one phase. -/
theorem sum_due_le (c : ℕ) {place : Address → ℕ} {sid : ℕ} {packed : List Transaction}
    (h : ∀ tx ∈ packed, tx.Placed place sid) :
    (packed.map (dueElsewhere place sid (phaseSteps c))).sum + c * packed.length ≤
      (packed.map (phaseSteps c)).sum := by
  induction packed with
  | nil => simp
  | cons tx packed ih =>
    have ih := ih fun tx' htx' => h tx' (List.mem_cons_of_mem _ htx')
    have htx := (h tx List.mem_cons_self).2
    simp only [List.map_cons, List.sum_cons, List.length_cons, dueElsewhere, phaseSteps,
      Transaction.second_relayed, if_true, Nat.mul_add, Nat.mul_one] at ih ⊢
    cases hrel : tx.relayed with
    | true =>
      rw [if_neg (not_not.mpr (htx hrel)), if_pos rfl]
      omega
    | false =>
      rw [if_neg Bool.false_ne_true]
      split <;> omega

namespace NetState

variable (sys : RelaySystem H) (s : NetState H)

/-- Whether all databases can be written. -/
def Writable : Prop := ∀ k, (s.chains k).storage.writable = true

/-- Whether nothing is pooled and nothing is under way. -/
def AtRest : Prop := s.flight = [] ∧ ∀ k < sys.shardNums, (s.chains k).pooled = []

instance : Decidable (s.AtRest sys) :=
  inferInstanceAs (Decidable (_ ∧ ∀ k < sys.shardNums, _))

/-- The work that is left: each phase takes a commit, which sends to all other shards. -/
def work : ℕ :=
  s.pending sys (phaseSteps sys.shardNums) + s.flight.length

end NetState

variable {sys : RelaySystem H} {s t : NetState H} {a : NetAction}

omit [DecidableEq H] in
theorem NetState.Writable.start : (NetState.start sys).Writable := fun _ => rfl

theorem NetState.Writable.step (hw : s.Writable) (h : s.step sys a = some t) : t.Writable := by
  have hupdate : ∀ (k : ℕ) (bc : BlockChain H), bc.storage.writable = true →
      ∀ i, (Function.update s.chains k bc i).storage.writable = true := by
    intro k bc hbc i
    rw [Function.update_apply]
    split
    · exact hbc
    · exact hw i
  cases a with
  | inject sid txs =>
    obtain ⟨-, rfl⟩ := NetState.step_inject h
    exact hupdate _ _ (hw sid)
  | deliver k =>
    obtain ⟨e, -, rfl⟩ := NetState.step_deliver h
    exact hupdate _ _ (hw e.1)
  | commit sid miner seqID now =>
    rw [NetState.step] at h
    split at h
    · obtain ⟨⟨bc, relays⟩, hround, rfl⟩ := Option.map_eq_some_iff.mp h
      exact hupdate _ _ (leaderRound_writable hround (hw sid))
    · cases h

namespace NetSound

/-- **A leader is never stopped.** -/
theorem commit_isSome (hs : NetSound sys s) (hw : s.Writable) {sid : ℕ}
    (hk : sid < sys.shardNums) (miner seqID : ℕ) (now : Time) :
    (s.step sys (.commit sid miner seqID now)).isSome = true := by
  rw [NetState.step, if_pos hk, Option.isSome_map]
  refine (hs.freshPool hk).leaderRound_isSome (hw sid) (fun tx htx => ?_) (fun tx htx => ?_) _ _ _
  · obtain ⟨v, hv, -⟩ := (hs.pooled sid hk tx htx).1.value
    exact hv ▸ Option.some_ne_none v
  · rw [sys.getPartitionMap_eq (hs.placed sid)]
    exact (hs.pooled sid hk tx htx).2

/-- A message that is under way can arrive. -/
theorem deliver_isSome (sys : RelaySystem H) {k : ℕ} (hk : k < s.flight.length) :
    (s.step sys (.deliver k)).isSome = true := by
  rw [NetState.step, List.getElem?_eq_getElem hk, Option.bind_some,
    handleMessageOutsidePBFT_relay]
  rfl

/-- Only a system at rest has nothing to do. -/
theorem atRest_iff (hs : NetSound sys s) (hw : s.Writable) :
    s.AtRest sys ↔ ∀ a : NetAction, a.Productive s → s.step sys a = none := by
  constructor
  · rintro ⟨hflight, hpools⟩ a ha
    cases a with
    | inject sid txs => exact ha.elim
    | commit sid miner seqID now =>
      rw [NetState.step]
      split
      · rename_i hk
        exact absurd (hpools sid hk) ha
      · rfl
    | deliver k =>
      rw [NetState.step, hflight]
      rfl
  · intro hall
    constructor
    · by_contra hne
      have hsome := deliver_isSome sys (List.length_pos_iff.mpr hne)
      rw [hall (.deliver 0) trivial] at hsome
      cases hsome
    · intro k hk
      by_contra hne
      have hsome := hs.commit_isSome hw hk 0 0 0
      rw [hall (.commit k 0 0 0) hne] at hsome
      cases hsome

/-- **Each step leaves less work.** -/
theorem work_lt (hs : NetSound sys s) (hpacks : sys.chainConfig.Packs) (ha : a.Productive s)
    (h : s.step sys a = some t) : t.work sys < s.work sys := by
  cases a with
  | inject sid txs => exact ha.elim
  | deliver k =>
    have hpend := hs.pending_deliver (phaseSteps sys.shardNums) h
    obtain ⟨e, he, rfl⟩ := NetState.step_deliver h
    obtain ⟨hk, -⟩ := List.getElem?_eq_some_iff.mp he
    rw [NetState.work, NetState.work, hpend]
    dsimp only
    rw [List.length_eraseIdx_of_lt hk]
    omega
  | commit sid miner seqID now =>
    obtain ⟨hk, bc, packed, rest, ht, htxs, hqueue, -, -, hfilter, -⟩ := hs.step_commit h
    have hpend := hs.pending_commit (phaseSteps sys.shardNums) hk ht htxs hqueue
    have hne : packed ≠ [] := hfilter ▸ (hs.freshPool hk).filterFresh_ne_nil hpacks ha
    have hweight := sum_due_le sys.shardNums fun tx htx =>
      (hs.pooled sid hk tx (htxs ▸ List.mem_append_left _ htx)).2
    have hlen : ((List.range sys.shardNums).filter (· ≠ sid)).length < sys.shardNums := by
      have hlt := List.length_filter_lt_length_iff_exists (p := (· ≠ sid)) (l := List.range sys.shardNums)
      rw [List.length_range] at hlt
      exact hlt.mpr ⟨sid, List.mem_range.mpr hk, by simp⟩
    have hone : sys.shardNums ≤ sys.shardNums * packed.length :=
      Nat.le_mul_of_pos_right _ (List.length_pos_iff.mpr hne)
    have hflight : t.flight.length = s.flight.length +
        ((List.range sys.shardNums).filter (· ≠ sid)).length := by
      rw [ht]
      simp
    rw [NetState.work, NetState.work, hflight]
    omega

end NetSound

omit [DecidableEq H] in
/-- Where nothing is pooled and no transaction is under way, everything is done: every other
stage is in a pool or under way. -/
theorem Settling.done_of_idle {txs : List Transaction} (h : Settling sys s txs)
    (hsent : s.sent = []) (hpools : ∀ k < sys.shardNums, (s.chains k).pooled = [])
    {tx : Transaction} (htx : tx ∈ txs) : s.At sys tx .done := by
  obtain ⟨hreg, -, hsender⟩ := h.injected tx htx
  obtain ⟨st, hst⟩ := h.stage tx htx
  cases st with
  | waiting =>
    have hpool := hst.1
    rw [hpools _ hsender] at hpool
    cases hpool
  | underWay =>
    obtain ⟨-, ⟨e, he, -, hmem⟩, -⟩ := hst
    have hin : tx.second ∈ s.sent := List.mem_flatMap.mpr ⟨e, he, hmem⟩
    rw [hsent] at hin
    cases hin
  | arrived =>
    have hpool := hst.2.1
    rw [hpools _ hreg.home] at hpool
    cases hpool
  | done => exact hst

omit [DecidableEq H] in
/-- At rest everything is done. -/
theorem Settling.done_of_atRest {txs : List Transaction} (h : Settling sys s txs)
    (hrest : s.AtRest sys) {tx : Transaction} (htx : tx ∈ txs) : s.At sys tx .done :=
  h.done_of_idle (by rw [NetState.sent, hrest.1]; rfl) hrest.2 htx

/-- **Relay shards come to rest**: from every state that a run reaches, every schedule of
proposals out of non-empty pools and of arrivals ends after no more steps than there is
work; it is stuck only at rest; at rest each transaction that was injected is executed at
the homes of its sender and its recipient and nowhere else; and some schedule gets there. -/
theorem comes_to_rest (sys : RelaySystem H) (hpacks : sys.chainConfig.Packs)
    (as : List NetAction) (s : NetState H)
    (hrun : runWith (NetState.step sys) (fun _ _ => True) (NetState.start sys) as = some s) :
    (∀ bs t, runWith (NetState.step sys) (fun s a => a.Productive s) s bs = some t →
      bs.length ≤ s.work sys ∧
        (t.AtRest sys ↔ ∀ a : NetAction, a.Productive t → t.step sys a = none) ∧
        (t.AtRest sys → ∀ tx ∈ as.flatMap NetAction.injected, t.At sys tx .done)) ∧
      ∃ bs t, runWith (NetState.step sys) (fun s a => a.Productive s) s bs = some t ∧
        t.AtRest sys := by
  have hinv : NetSound sys s ∧ s.Writable :=
    runWith_invariant (fun s => NetSound sys s ∧ s.Writable)
      (fun _ _ _ h _ hstep => ⟨h.1.step hstep, h.2.step hstep⟩) ⟨.start, .start⟩ hrun
  have hstep : ∀ s (a : NetAction) t, NetSound sys s ∧ s.Writable → a.Productive s →
      s.step sys a = some t → (NetSound sys t ∧ t.Writable) ∧ t.work sys < s.work sys :=
    fun _ _ _ h ha hst => ⟨⟨h.1.step hst, h.2.step hst⟩, h.1.work_lt hpacks ha hst⟩
  have hsettling := Settling.start.run hrun
  rw [List.nil_append] at hsettling
  constructor
  · intro bs t hbs
    have ht := runWith_invariant _ (fun s a t h ha hst => (hstep s a t h ha hst).1) hinv hbs
    refine ⟨(Nat.le_add_right _ _).trans (runWith_length_le _ _ hstep hinv hbs),
      ht.1.atRest_iff ht.2, fun hrest tx htx => ?_⟩
    have hend := hsettling.run hbs
    exact hend.done_of_atRest hrest (List.mem_append_left _ htx)
  · obtain ⟨bs, t, hbs, hstuck⟩ := exists_runWith_stuck _ _ hstep hinv
    have ht := runWith_invariant _ (fun s a t h ha hst => (hstep s a t h ha hst).1) hinv hbs
    exact ⟨bs, t, hbs, (ht.1.atRest_iff ht.2).mpr hstuck⟩

/-- A payment from shard to shard that was only injected. -/
theorem comes_to_rest_cross :
    ∃ s, runWith (NetState.step twoShards) (fun _ _ => True) (NetState.start twoShards)
        [.inject 0 [crossTransaction]] = some s ∧
      ∃ bs t, runWith (NetState.step twoShards) (fun s a => a.Productive s) s bs = some t ∧
        t.AtRest twoShards ∧ t.At twoShards crossTransaction .done := by
  obtain ⟨s, hs⟩ := Option.isSome_iff_exists.mp
    (show (runWith (NetState.step twoShards) (fun _ _ => True) (NetState.start twoShards)
      [.inject 0 [crossTransaction]]).isSome = true by decide +kernel)
  obtain ⟨hall, bs, t, hbs, hrest⟩ := comes_to_rest twoShards (by decide) _ s hs
  exact ⟨s, hs, bs, t, hbs, hrest, (hall bs t hbs).2.2 hrest crossTransaction (by decide)⟩

end BlockEmulator
