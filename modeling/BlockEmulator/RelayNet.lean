import BlockEmulator.Accounting
import BlockEmulator.LeaderRound
import BlockEmulator.RelayShard

/-!
# Relay shards under a fixed partition map

Any number of shards, each with the chain of its leader, and the Relay messages under
way between them. The supervisor injects transactions at the home of their senders, a
leader commits a block and relays it, a Relay message arrives; in any order.

A transaction that is not done is in one place: in the pool of the home of its sender,
on the way to the home of its recipient, or in the pool there. `NetSound` is this
invariant; every step keeps it (`NetSound.step`).
-/

namespace BlockEmulator

open Accounting

variable {H : Type} [DecidableEq H]

/-- A system of relay shards. -/
structure RelaySystem (H : Type) where
  /-- the configuration of a shard, but for its number -/
  chainConfig : ChainConfig H
  /-- the explicit placements -/
  placement : Address → Option ℕ
  /-- the addresses that are used -/
  addresses : Finset Address

namespace RelaySystem

variable (sys : RelaySystem H)

/-- The configuration of one shard. -/
def cc (k : ℕ) : ChainConfig H := { sys.chainConfig with shardID := k }

/-- The number of shards. -/
abbrev shardNums : ℕ := sys.chainConfig.shardNums

/-- The home of an address. -/
def place (a : Address) : ℕ :=
  match sys.placement a with
  | none => addr2ShardWithShardNum sys.chainConfig.hash a sys.chainConfig.shardNum
  | some k => k

omit [DecidableEq H] in
@[simp] theorem cc_shardID (k : ℕ) : (sys.cc k).shardID = k := rfl

omit [DecidableEq H] in
theorem getPartitionMap_eq {bc : BlockChain H} (h : bc.partitionMap = sys.placement) (k : ℕ) :
    bc.getPartitionMap (sys.cc k) = sys.place := by
  funext a
  rw [BlockChain.getPartitionMap, place, h]
  rfl

end RelaySystem

/-- The state of a system of relay shards. -/
structure NetState (H : Type) where
  /-- the chain of each shard -/
  chains : ℕ → BlockChain H
  /-- the Relay messages under way, with their destinations -/
  flight : List (ℕ × Relay)
  /-- the hashes that were injected -/
  used : Finset Bytes

/-- What can happen in a system of relay shards. -/
inductive NetAction where
  /-- the supervisor injects transactions at a shard -/
  | inject (sid : ℕ) (txs : List Transaction)
  /-- the leader of a shard commits a block and relays it -/
  | commit (sid miner seqID : ℕ) (now : Time)
  /-- a Relay message arrives -/
  | deliver (k : ℕ)
  deriving DecidableEq

/-- What is true of a transaction in both phases. -/
structure Transaction.Regular (sys : RelaySystem H) (tx : Transaction) : Prop where
  /-- it is not a broker transaction -/
  hasBroker : tx.hasBroker = false
  /-- the amount is not negative -/
  value : ∃ v, tx.value = some v ∧ 0 ≤ v
  /-- the paying account is one of those that are used -/
  sender : tx.sender ∈ sys.addresses
  /-- so is the receiving account -/
  recipient : tx.recipient ∈ sys.addresses
  /-- there is a hash -/
  txHash : tx.txHash ≠ []
  /-- the receiving account has a home -/
  home : sys.place tx.recipient < sys.shardNums

instance (sys : RelaySystem H) (tx : Transaction) : Decidable (tx.Regular sys) :=
  decidable_of_iff (tx.hasBroker = false ∧ (∃ v ∈ tx.value, 0 ≤ v) ∧ tx.sender ∈ sys.addresses ∧
      tx.recipient ∈ sys.addresses ∧ tx.txHash ≠ [] ∧ sys.place tx.recipient < sys.shardNums)
    ⟨fun ⟨h₁, h₂, h₃, h₄, h₅, h₆⟩ => ⟨h₁, h₂, h₃, h₄, h₅, h₆⟩,
      fun h => ⟨h.1, h.2, h.3, h.4, h.5, h.6⟩⟩

namespace NetState

variable (sys : RelaySystem H)

/-- The system just started. -/
def start : NetState H where
  chains k := { genesisChain (sys.cc k) with partitionMap := sys.placement }
  flight := []
  used := ∅

/-- What the supervisor may inject at a shard: first-phase transactions of accounts
that are at home there, with new, distinct hashes. -/
def Injectable (s : NetState H) (sid : ℕ) (txs : List Transaction) : Prop :=
  sid < sys.shardNums ∧ (txs.map (·.txHash)).Nodup ∧
    ∀ tx ∈ txs, tx.Regular sys ∧ tx.relayed = false ∧ sys.place tx.sender = sid ∧
      tx.txHash ∉ s.used

instance (s : NetState H) (sid : ℕ) (txs : List Transaction) :
    Decidable (s.Injectable sys sid txs) :=
  inferInstanceAs (Decidable (_ ∧ _ ∧ _))

/-- One step of the system. -/
def step (s : NetState H) : NetAction → Option (NetState H)
  | .inject sid txs =>
    if s.Injectable sys sid txs then
      (RawRelay.handleMessageOutsidePBFT (s.chains sid) (.inject (txs.map some) [])).map
        fun bc =>
          { s with
            chains := Function.update s.chains sid bc
            used := s.used ∪ (txs.map (·.txHash)).toFinset }
    else none
  | .commit sid miner seqID now =>
    if sid < sys.shardNums then
      (leaderRound (sys.cc sid) miner seqID now (s.chains sid)).map fun r =>
        { s with
          chains := Function.update s.chains sid r.1
          flight := s.flight ++ r.2 }
    else none
  | .deliver k =>
    s.flight[k]?.bind fun e =>
      (RawRelay.handleMessageOutsidePBFT (s.chains e.1)
        (.relay (e.2.txs.map some) e.2.senderShardID e.2.senderSeq)).map fun bc =>
          { s with
            chains := Function.update s.chains e.1 bc
            flight := s.flight.eraseIdx k }

end NetState

/-! ## Where transactions are -/

/-- The hashes of some transactions, as tokens. -/
def hashTokens (txs : List Transaction) : Multiset Bytes := (txs.map (·.txHash) : List Bytes)

theorem hashTokens_append (txs txs' : List Transaction) :
    hashTokens (txs ++ txs') = hashTokens txs + hashTokens txs' := by
  rw [hashTokens, List.map_append]
  rfl

theorem mem_hashTokens {txs : List Transaction} {h : Bytes} :
    h ∈ hashTokens txs ↔ ∃ tx ∈ txs, tx.txHash = h := by
  simp [hashTokens]

namespace NetState

/-- The transactions that are under way. -/
def sent (s : NetState H) : List Transaction := s.flight.flatMap fun e => e.2.txs

/-- The hashes of all transactions that are not done. -/
def live (sys : RelaySystem H) (s : NetState H) : Multiset Bytes :=
  total sys.shardNums (fun _ bc => hashTokens bc.pooled) s.chains + hashTokens s.sent

end NetState

/-- Every transaction that is not done is in one place, where it belongs. -/
structure NetSound (sys : RelaySystem H) (s : NetState H) : Prop where
  /-- placements do not change -/
  placed : ∀ k, (s.chains k).partitionMap = sys.placement
  /-- pools hold no nil pointers -/
  queue : ∀ k, (s.chains k).txpool.txQueue = (s.chains k).pooled.map some
  /-- what is pooled is in the shard of its phase -/
  pooled : ∀ k < sys.shardNums, ∀ tx ∈ (s.chains k).pooled,
    tx.Regular sys ∧ tx.Placed sys.place k
  /-- what is sent is in its second phase, on the way to its recipient -/
  sent : ∀ e ∈ s.flight, ∀ tx ∈ e.2.txs,
    tx.Regular sys ∧ tx.relayed = true ∧ sys.place tx.recipient = e.1
  /-- messages go to shards -/
  dest : ∀ e ∈ s.flight, e.1 < sys.shardNums
  /-- nothing is in two places -/
  nodup : (s.live sys).Nodup
  /-- all hashes were injected -/
  used : ∀ h ∈ s.live sys, h ∈ s.used
  /-- what was executed was injected -/
  executed : ∀ k, (s.chains k).storage.executedTransaction ⊆ s.used
  /-- what is pooled was executed, if at all, elsewhere in its first phase -/
  fresh : ∀ k < sys.shardNums, ∀ tx ∈ (s.chains k).pooled, ∀ k',
    tx.txHash ∈ (s.chains k').storage.executedTransaction → tx.relayed = true ∧ k' ≠ k
  /-- what is sent was not executed where it goes -/
  freshSent : ∀ e ∈ s.flight, ∀ tx ∈ e.2.txs,
    tx.txHash ∉ (s.chains e.1).storage.executedTransaction

/-! ## Every step keeps transactions where they belong -/

variable {sys : RelaySystem H} {s t : NetState H} {a : NetAction}

omit [DecidableEq H] in
/-- Transactions of a Relay message are pooled. -/
theorem handleMessageOutsidePBFT_relay (bc : BlockChain H) (txs : List Transaction)
    (sid seqID : ℕ) :
    RawRelay.handleMessageOutsidePBFT bc (.relay (txs.map some) sid seqID) =
      some (bc.received txs) := by
  rw [RawRelay.handleMessageOutsidePBFT, TxPool.addTxs2Pool_some, Option.map_some,
    BlockChain.received]

omit [DecidableEq H] in
/-- Injected transactions are pooled. -/
theorem handleMessageOutsidePBFT_inject (bc : BlockChain H) (txs : List Transaction) :
    RawRelay.handleMessageOutsidePBFT bc (.inject (txs.map some) []) =
      some (bc.received txs) := by
  rw [RawRelay.handleMessageOutsidePBFT, List.foldl_nil, TxPool.addTxs2Pool_some,
    Option.map_some, BlockChain.received]

/-- What an injection does. -/
theorem NetState.step_inject {sid : ℕ} {txs : List Transaction}
    (h : s.step sys (.inject sid txs) = some t) :
    s.Injectable sys sid txs ∧
      t = { chains := Function.update s.chains sid ((s.chains sid).received txs),
            flight := s.flight, used := s.used ∪ (txs.map (·.txHash)).toFinset } := by
  rw [NetState.step] at h
  split at h
  case isFalse => cases h
  rename_i hin
  rw [handleMessageOutsidePBFT_inject] at h
  exact ⟨hin, (Option.some.inj h).symm⟩

/-- What the arrival of a message does. -/
theorem NetState.step_deliver {k : ℕ} (h : s.step sys (.deliver k) = some t) :
    ∃ e, s.flight[k]? = some e ∧
      t = { chains := Function.update s.chains e.1 ((s.chains e.1).received e.2.txs),
            flight := s.flight.eraseIdx k, used := s.used } := by
  rw [NetState.step] at h
  obtain ⟨e, he, h⟩ := Option.bind_eq_some_iff.mp h
  rw [handleMessageOutsidePBFT_relay] at h
  exact ⟨e, he, (Option.some.inj h).symm⟩

omit [DecidableEq H] in
/-- How the tokens change where one chain changes. -/
theorem NetState.live_update (s : NetState H) {k : ℕ} (hk : k < sys.shardNums)
    (bc : BlockChain H) (fl : List (ℕ × Relay)) (u : Finset Bytes) :
    ({ chains := Function.update s.chains k bc, flight := fl, used := u } : NetState H).live sys +
        hashTokens (s.chains k).pooled + hashTokens s.sent =
      s.live sys + hashTokens bc.pooled + hashTokens (fl.flatMap fun e => e.2.txs) := by
  have h := total_update (fun _ bc => hashTokens bc.pooled) s.chains hk bc
  rw [NetState.live, NetState.live, NetState.sent, add_right_comm (total _ _ _) _
    (hashTokens (s.chains k).pooled), h]
  abel

/-- A block makes each of its transactions due in one other shard at most. -/
theorem hashTokens_relayed_le (place : Address → ℕ) (packed : List Transaction)
    (sid seqID : ℕ) {sids : List ℕ} (h : sids.Nodup) :
    hashTokens ((sids.map fun i => (i, (⟨secondPhase place i packed, sid, seqID⟩ : Relay))).flatMap
      fun e => e.2.txs) ≤ hashTokens packed := by
  rw [List.flatMap_map]
  exact Multiset.coe_le.mpr (secondPhase_subperm place packed h)

omit [DecidableEq H] in
/-- A commit makes no tokens: what is due elsewhere was in the block. -/
theorem NetState.live_commit_le {sid seqID : ℕ} (hk : sid < sys.shardNums) {bc : BlockChain H}
    {packed rest : List Transaction} (htxs : (s.chains sid).pooled = packed ++ rest)
    (hpool : bc.pooled = rest) :
    ({ chains := Function.update s.chains sid bc,
       flight := s.flight ++
         ((List.range sys.shardNums).filter (· ≠ sid)).map fun i =>
           (i, ⟨secondPhase sys.place i packed, sid, seqID⟩),
       used := s.used } : NetState H).live sys ≤ s.live sys := by
  have hup := s.live_update hk bc (s.flight ++
    ((List.range sys.shardNums).filter (· ≠ sid)).map fun i =>
      (i, ⟨secondPhase sys.place i packed, sid, seqID⟩)) s.used
  have hle := hashTokens_relayed_le sys.place packed sid seqID
    (List.nodup_range (n := sys.shardNums) |>.filter (· ≠ sid))
  rw [hpool, htxs, hashTokens_append, List.flatMap_append, hashTokens_append,
    ← NetState.sent] at hup
  refine le_of_add_le_add_right
    (a := hashTokens packed + hashTokens rest + hashTokens s.sent) ?_
  refine (le_of_eq ((add_assoc _ _ _).symm.trans hup)).trans ?_
  calc s.live sys + hashTokens rest + (hashTokens s.sent + _)
      ≤ s.live sys + hashTokens rest + (hashTokens s.sent + hashTokens packed) :=
        add_le_add_right (add_le_add_right hle _) _
    _ = s.live sys + (hashTokens packed + hashTokens rest + hashTokens s.sent) := by abel

omit [DecidableEq H] in
/-- A message out of those under way. -/
theorem NetState.sent_perm {k : ℕ} {e : ℕ × Relay} (h : s.flight[k]? = some e) :
    s.sent.Perm (e.2.txs ++ (s.flight.eraseIdx k).flatMap fun e => e.2.txs) := by
  obtain ⟨hk, rfl⟩ := List.getElem?_eq_some_iff.mp h
  exact (List.getElem_cons_eraseIdx_perm hk).symm.flatMap_right fun e => e.2.txs

namespace NetSound

omit [DecidableEq H] in
/-- The pool of a shard is fresh to its chain. -/
theorem freshPool (hs : NetSound sys s) {k : ℕ} (hk : k < sys.shardNums) :
    FreshPool (s.chains k) (s.chains k).pooled where
  queue := hs.queue k
  nodup := by
    have hle : hashTokens (s.chains k).pooled ≤ s.live sys := by
      rw [NetState.live, total_eq hk]
      exact (Multiset.le_add_right _ _).trans (Multiset.le_add_right _ _)
    exact Multiset.coe_nodup.mp (Multiset.nodup_of_le hle hs.nodup)
  fresh tx htx := by
    refine ⟨(hs.pooled k hk tx htx).1.txHash, fun hex => ?_⟩
    exact (hs.fresh k hk tx htx k hex).2 rfl

omit [DecidableEq H] in
/-- No hash is in two pools. -/
theorem hash_ne_pooled (hs : NetSound sys s) {k k' : ℕ} (hk : k < sys.shardNums)
    (hk' : k' < sys.shardNums) (hne : k ≠ k') {tx tx' : Transaction}
    (h : tx ∈ (s.chains k).pooled) (h' : tx' ∈ (s.chains k').pooled) : tx.txHash ≠ tx'.txHash := by
  intro heq
  have hnd := (Multiset.nodup_add.mp hs.nodup).1
  refine Multiset.disjoint_left.mp (disjoint_of_nodup_total hnd hk hk' hne)
    (mem_hashTokens.mpr ⟨tx, h, rfl⟩) (mem_hashTokens.mpr ⟨tx', h', heq.symm⟩)

omit [DecidableEq H] in
/-- No hash is in a pool and under way. -/
theorem hash_ne_sent (hs : NetSound sys s) {k : ℕ} (hk : k < sys.shardNums)
    {tx tx' : Transaction} (h : tx ∈ (s.chains k).pooled) (h' : tx' ∈ s.sent) :
    tx.txHash ≠ tx'.txHash := by
  intro heq
  refine Multiset.disjoint_left.mp (Multiset.nodup_add.mp hs.nodup).2.2
    (mem_total.mpr ⟨k, hk, mem_hashTokens.mpr ⟨tx, h, rfl⟩⟩)
    (mem_hashTokens.mpr ⟨tx', h', heq.symm⟩)

omit [DecidableEq H] in
theorem start : NetSound sys (NetState.start sys) where
  placed k := rfl
  queue k := rfl
  pooled k hk tx htx := absurd htx List.not_mem_nil
  sent e he := absurd he List.not_mem_nil
  dest e he := absurd he List.not_mem_nil
  nodup := by simp [NetState.live, NetState.start, NetState.sent, total, hashTokens,
    BlockChain.pooled, genesisChain, TxPool.new]
  used h hh := by simp [NetState.live, NetState.start, NetState.sent, total, hashTokens,
    BlockChain.pooled, genesisChain, TxPool.new] at hh
  executed k := Finset.empty_subset _
  fresh k hk tx htx := absurd htx List.not_mem_nil
  freshSent e he := absurd he List.not_mem_nil

omit [DecidableEq H] in
/-- Transactions arrive in a pool, out of messages or anew. -/
theorem receive (hs : NetSound sys s) {k : ℕ} {txs : List Transaction}
    {fl : List (ℕ × Relay)} {u : Finset Bytes} (hk : k < sys.shardNums)
    (hplaced : ∀ tx ∈ txs, tx.Regular sys ∧ tx.Placed sys.place k)
    (hfresh : ∀ tx ∈ txs, ∀ k', tx.txHash ∈ (s.chains k').storage.executedTransaction →
      tx.relayed = true ∧ k' ≠ k)
    (hfl : ∀ e ∈ fl, e ∈ s.flight)
    (ht : t = { chains := Function.update s.chains k ((s.chains k).received txs),
                flight := fl, used := u })
    (hnd : (t.live sys).Nodup) (hused : ∀ h ∈ t.live sys, h ∈ u) (hu : s.used ⊆ u) :
    NetSound sys t := by
  have hsame : ∀ i, (t.chains i).storage = (s.chains i).storage ∧
      (t.chains i).partitionMap = (s.chains i).partitionMap := by
    intro i
    subst ht
    rcases eq_or_ne i k with rfl | hi
    · simp
    · simp [hi]
  have hpooled : ∀ i, i ≠ k → t.chains i = s.chains i := by
    intro i hi
    subst ht
    exact Function.update_of_ne hi _ _
  have hpool : (t.chains k).pooled = (s.chains k).pooled ++ txs := by
    subst ht
    dsimp only
    rw [Function.update_self]
    exact BlockChain.received_pooled (hs.queue k) txs
  have hmem : ∀ i, ∀ tx ∈ (t.chains i).pooled,
      tx ∈ (s.chains i).pooled ∨ (i = k ∧ tx ∈ txs) := by
    intro i tx htx
    rcases eq_or_ne i k with rfl | hi
    · rw [hpool] at htx
      exact (List.mem_append.mp htx).imp_right fun h => ⟨rfl, h⟩
    · rw [hpooled i hi] at htx
      exact .inl htx
  refine ⟨fun i => ?_, fun i => ?_, fun i hi tx htx => ?_, ?_, ?_, hnd, ?_, fun i => ?_,
    fun i hi tx htx i' hex => ?_, fun e he tx htx => ?_⟩
  · rw [(hsame i).2, hs.placed i]
  · rcases eq_or_ne i k with rfl | hi
    · rw [hpool, List.map_append, ← hs.queue i, ht]
      dsimp only
      rw [Function.update_self]
      rfl
    · rw [hpooled i hi, hs.queue i]
  · rcases hmem i tx htx with h | ⟨rfl, h⟩
    · exact hs.pooled i hi tx h
    · exact hplaced tx h
  · intro e he
    exact hs.sent e (hfl e (by rwa [ht] at he))
  · intro e he
    exact hs.dest e (hfl e (by rwa [ht] at he))
  · rw [ht] at hused ⊢
    exact hused
  · rw [(hsame i).1, ht]
    exact (hs.executed i).trans hu
  · rw [(hsame i').1] at hex
    rcases hmem i tx htx with h | ⟨rfl, h⟩
    · exact hs.fresh i hi tx h i' hex
    · exact hfresh tx h i' hex
  · rw [(hsame e.1).1]
    exact hs.freshSent e (hfl e (by rwa [ht] at he)) tx htx

/-- What a commit does: a prefix of the pool is executed, its second phases are sent. -/
theorem step_commit (hs : NetSound sys s) {sid miner seqID : ℕ} {now : Time}
    (h : s.step sys (.commit sid miner seqID now) = some t) :
    sid < sys.shardNums ∧ ∃ bc packed rest,
      t = { chains := Function.update s.chains sid bc,
            flight := s.flight ++
              ((List.range sys.shardNums).filter (· ≠ sid)).map fun i =>
                (i, ⟨secondPhase sys.place i packed, sid, seqID⟩),
            used := s.used } ∧
      (s.chains sid).pooled = packed ++ rest ∧
      bc.txpool.txQueue = rest.map some ∧
      bc.storage.executedTransaction =
        (s.chains sid).storage.executedTransaction ∪ (packed.map (·.txHash)).toFinset ∧
      bc.partitionMap = sys.placement ∧
      BlockChain.filterFreshTransactions (s.chains sid)
        (BlockChain.packForBlock (sys.cc sid) (s.chains sid)).1 = packed ∧
      BlockChain.getUpdateStatusTrie (sys.cc sid) (s.chains sid) (packed.map some) =
        some bc.currentBlock.header.stateRoot := by
  rw [NetState.step] at h
  split at h
  case isFalse => cases h
  rename_i hk
  obtain ⟨⟨bc, relays⟩, hround, rfl⟩ := Option.map_eq_some_iff.mp h
  obtain ⟨packed, rest, htxs, -, hqueue, hexec, hmap, hfilter, hst, rfl⟩ :=
    leaderRound_spec (hs.freshPool hk) hround
  rw [sys.getPartitionMap_eq (hs.placed sid)]
  exact ⟨hk, bc, packed, rest, rfl, htxs, hqueue, hexec, hmap.trans (hs.placed sid), hfilter, hst⟩

/-- Injected transactions are new everywhere. -/
theorem inject (hs : NetSound sys s) {sid : ℕ} {txs : List Transaction}
    (h : s.step sys (.inject sid txs) = some t) : NetSound sys t := by
  obtain ⟨⟨hk, hnd, hall⟩, rfl⟩ := NetState.step_inject h
  have hlive := s.live_update hk ((s.chains sid).received txs) s.flight
    (s.used ∪ (txs.map (·.txHash)).toFinset)
  rw [BlockChain.received_pooled (hs.queue sid), hashTokens_append, ← add_assoc,
    add_right_comm (s.live sys)] at hlive
  have hlive := add_right_cancel (add_right_cancel hlive)
  refine hs.receive hk (fun tx htx => ?_) (fun tx htx k' hex => ?_) (fun e he => he) rfl ?_ ?_
    Finset.subset_union_left
  · obtain ⟨hreg, hrel, hplace, -⟩ := hall tx htx
    exact ⟨hreg, fun _ => hplace, fun h => by rw [hrel] at h; cases h⟩
  · exact absurd (hs.executed k' hex) (hall tx htx).2.2.2
  · rw [hlive]
    refine Multiset.nodup_add.mpr ⟨hs.nodup, Multiset.coe_nodup.mpr hnd, ?_⟩
    refine Multiset.disjoint_left.mpr fun hh hh' => ?_
    obtain ⟨tx, htx, rfl⟩ := mem_hashTokens.mp hh'
    exact (hall tx htx).2.2.2 (hs.used _ hh)
  · intro b hb
    rw [hlive] at hb
    rcases Multiset.mem_add.mp hb with hb | hb
    · exact Finset.mem_union_left _ (hs.used b hb)
    · obtain ⟨tx, htx, rfl⟩ := mem_hashTokens.mp hb
      exact Finset.mem_union_right _ (List.mem_toFinset.mpr (List.mem_map_of_mem htx))

/-- What arrives was on the way to the home of its recipient. -/
theorem deliver (hs : NetSound sys s) {k : ℕ} (h : s.step sys (.deliver k) = some t) :
    NetSound sys t := by
  obtain ⟨e, he, rfl⟩ := NetState.step_deliver h
  have hmem : e ∈ s.flight := List.mem_of_getElem? he
  have hsent : hashTokens s.sent = hashTokens (e.2.txs ++ _) :=
    Multiset.coe_eq_coe.mpr ((NetState.sent_perm he).map _)
  have hlive := s.live_update (hs.dest e hmem) ((s.chains e.1).received e.2.txs)
    (s.flight.eraseIdx k) s.used
  rw [BlockChain.received_pooled (hs.queue e.1), hashTokens_append, hsent, hashTokens_append,
    add_assoc, add_assoc, add_assoc] at hlive
  have hlive := add_right_cancel hlive
  have hfl : ∀ e' ∈ s.flight.eraseIdx k, e' ∈ s.flight :=
    fun e' he' => (List.eraseIdx_sublist _ _).subset he'
  refine hs.receive (hs.dest e hmem) (fun tx htx => ?_) (fun tx htx k' hex => ?_) hfl rfl ?_ ?_
    (Finset.Subset.refl _)
  · obtain ⟨hreg, hrel, hplace⟩ := hs.sent e hmem tx htx
    exact ⟨hreg, fun h => absurd (hrel.symm.trans h) (by decide), fun _ => hplace⟩
  · refine ⟨(hs.sent e hmem tx htx).2.1, ?_⟩
    rintro rfl
    exact hs.freshSent e hmem tx htx hex
  · rw [hlive]
    exact hs.nodup
  · intro b hb
    rw [hlive] at hb
    exact hs.used b hb

/-- A leader executes a prefix of its pool and sends what is due elsewhere. -/
theorem commit (hs : NetSound sys s) {sid miner seqID : ℕ} {now : Time}
    (h : s.step sys (.commit sid miner seqID now) = some t) : NetSound sys t := by
  obtain ⟨hk, bc, packed, rest, ht, htxs, hqueue, hexec, hmap, -, -⟩ := hs.step_commit h
  have hpacked : ∀ tx ∈ packed, tx ∈ (s.chains sid).pooled :=
    fun tx htx => htxs ▸ List.mem_append_left _ htx
  have hpool : bc.pooled = rest := BlockChain.pooled_eq hqueue
  have hchain : t.chains sid = bc := by rw [ht]; exact Function.update_self ..
  have hother : ∀ i, i ≠ sid → t.chains i = s.chains i := by
    intro i hi
    rw [ht]
    exact Function.update_of_ne hi _ _
  have hmem : ∀ i, ∀ tx ∈ (t.chains i).pooled, tx ∈ (s.chains i).pooled := by
    intro i tx htx
    rcases eq_or_ne i sid with rfl | hi
    · rw [hchain, hpool] at htx
      exact htxs ▸ List.mem_append_right _ htx
    · rwa [hother i hi] at htx
  -- a hash is executed where it was, or in the block
  have hexecuted : ∀ i b, b ∈ (t.chains i).storage.executedTransaction →
      b ∈ (s.chains i).storage.executedTransaction ∨
        (i = sid ∧ ∃ tx ∈ packed, tx.txHash = b) := by
    intro i b hb
    rcases eq_or_ne i sid with rfl | hi
    · rw [hchain, hexec] at hb
      refine (Finset.mem_union.mp hb).imp_right fun hb => ⟨rfl, ?_⟩
      simpa using hb
    · exact .inl (by rwa [hother i hi] at hb)
  have hflight : ∀ e ∈ t.flight, e ∈ s.flight ∨
      (e.1 ≠ sid ∧ e.1 < sys.shardNums ∧ e.2.txs = secondPhase sys.place e.1 packed) := by
    intro e he
    rw [ht] at he
    refine (List.mem_append.mp he).imp_right fun he => ?_
    obtain ⟨i, hi, rfl⟩ := List.mem_map.mp he
    obtain ⟨hi, hne⟩ := List.mem_filter.mp hi
    exact ⟨by simpa using hne, List.mem_range.mp hi, rfl⟩
  have hlive : t.live sys ≤ s.live sys := by
    rw [ht]
    exact NetState.live_commit_le hk htxs hpool
  refine ⟨fun i => ?_, fun i => ?_, fun i hi tx htx => hs.pooled i hi tx (hmem i tx htx),
    fun e he tx htx => ?_, fun e he => ?_, Multiset.nodup_of_le hlive hs.nodup,
    fun b hb => ?_, fun i b hb => ?_, fun i hi tx htx i' hex => ?_, fun e he tx htx hex => ?_⟩
  · rcases eq_or_ne i sid with rfl | hi
    · rw [hchain, hmap]
    · rw [hother i hi, hs.placed i]
  · rcases eq_or_ne i sid with rfl | hi
    · rw [hchain, hpool, hqueue]
    · rw [hother i hi, hs.queue i]
  · rcases hflight e he with he | ⟨-, -, heq⟩
    · exact hs.sent e he tx htx
    · rw [heq] at htx
      obtain ⟨tx', htx', rfl⟩ := List.mem_map.mp htx
      obtain ⟨htx', hto⟩ := List.mem_filter.mp htx'
      obtain ⟨hreg, -⟩ := hs.pooled sid hk tx' (hpacked tx' htx')
      exact ⟨⟨hreg.1, hreg.2, hreg.3, hreg.4, hreg.5, hreg.6⟩, rfl, of_decide_eq_true hto⟩
  · rcases hflight e he with he | ⟨-, hlt, -⟩
    · exact hs.dest e he
    · exact hlt
  · rw [ht]
    exact hs.used b (Multiset.mem_of_le hlive hb)
  · rw [ht]
    rcases hexecuted i b hb with hb | ⟨rfl, tx, htx, rfl⟩
    · exact hs.executed i hb
    · refine hs.used _ (Multiset.mem_add.mpr (.inl (mem_total.mpr ⟨i, hk, ?_⟩)))
      exact mem_hashTokens.mpr ⟨tx, hpacked tx htx, rfl⟩
  · rcases hexecuted i' tx.txHash hex with hex | ⟨rfl, tx', htx', heq⟩
    · exact hs.fresh i hi tx (hmem i tx htx) i' hex
    · -- the block has it already: it is pooled only once
      exfalso
      rcases eq_or_ne i i' with rfl | hne
      · rw [hchain, hpool] at htx
        have hnd := (hs.freshPool hk).nodup
        rw [htxs, List.map_append] at hnd
        exact (List.nodup_append.mp hnd).2.2 _ (List.mem_map_of_mem htx') _
          (List.mem_map_of_mem htx) heq
      · exact hs.hash_ne_pooled hk hi hne.symm (hpacked tx' htx') (hmem i tx htx) heq
  · rcases hflight e he with he | ⟨hne, hlt, heq⟩
    · rcases hexecuted e.1 tx.txHash hex with hex | ⟨hsid, tx', htx', heq⟩
      · exact hs.freshSent e he tx htx hex
      · exact hs.hash_ne_sent hk (hpacked tx' htx') (List.mem_flatMap.mpr ⟨e, he, htx⟩) heq
    · rw [heq] at htx
      rw [hother e.1 hne] at hex
      obtain ⟨tx', htx', rfl⟩ := List.mem_map.mp htx
      obtain ⟨htx', hto⟩ := List.mem_filter.mp htx'
      -- executed elsewhere, so at home here: but it is due elsewhere
      obtain ⟨-, hpl⟩ := hs.pooled sid hk tx' (hpacked tx' htx')
      obtain ⟨hrel, -⟩ := hs.fresh sid hk tx' (hpacked tx' htx') e.1 hex
      exact hne ((of_decide_eq_true hto).symm.trans (hpl.2 hrel))

/-- **Every step keeps transactions where they belong.** -/
theorem step (hs : NetSound sys s) (h : s.step sys a = some t) : NetSound sys t := by
  cases a with
  | inject sid txs => exact hs.inject h
  | commit sid miner seqID now => exact hs.commit h
  | deliver k => exact hs.deliver h

end NetSound

end BlockEmulator
