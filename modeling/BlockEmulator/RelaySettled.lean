import BlockEmulator.RelayPending
import BlockEmulator.RelayValue

/-!
# Where a transaction is among relay shards

A transaction that the supervisor has injected is in one of four stages: it waits in the
pool of the home of its sender, its second phase is under way, or arrived at the home of
its recipient, or it is done: executed at these two homes and nowhere else.

* `Settling.step` — every step keeps each transaction in some stage.
* `one_stage` — **nothing is lost and nothing is done twice**: in every run, each injected
  transaction is in exactly one stage.
-/

namespace BlockEmulator

open StepSystem

variable {H : Type} [DecidableEq H]

/-- The stages of a transaction. -/
inductive Stage where
  /-- its first phase is pooled at the home of its sender -/
  | waiting
  /-- its second phase is on the way -/
  | underWay
  /-- its second phase is pooled at the home of its recipient -/
  | arrived
  /-- it is executed at the homes of both -/
  | done
  deriving DecidableEq

/-- What an action injects. -/
def NetAction.injected : NetAction → List Transaction
  | .inject _ txs => txs
  | _ => []

namespace NetState

variable (sys : RelaySystem H) (s : NetState H)

/-- The shards that have executed a transaction. -/
def Executed (tx : Transaction) (k : ℕ) : Prop :=
  tx.txHash ∈ (s.chains k).storage.executedTransaction

/-- Whether a transaction is in a stage. -/
def At (tx : Transaction) : Stage → Prop
  | .waiting =>
    tx ∈ (s.chains (sys.place tx.sender)).pooled ∧ ∀ k, ¬ s.Executed tx k
  | .underWay =>
    sys.place tx.recipient ≠ sys.place tx.sender ∧
      (∃ e ∈ s.flight, e.1 = sys.place tx.recipient ∧ tx.second ∈ e.2.txs) ∧
      ∀ k, s.Executed tx k ↔ k = sys.place tx.sender
  | .arrived =>
    sys.place tx.recipient ≠ sys.place tx.sender ∧
      tx.second ∈ (s.chains (sys.place tx.recipient)).pooled ∧
      ∀ k, s.Executed tx k ↔ k = sys.place tx.sender
  | .done => ∀ k, s.Executed tx k ↔ k = sys.place tx.sender ∨ k = sys.place tx.recipient

end NetState

/-- The system after some transactions were injected. -/
structure Settling (sys : RelaySystem H) (s : NetState H) (txs : List Transaction) : Prop where
  /-- transactions are where they belong -/
  sound : NetSound sys s
  /-- their hashes are all that were used -/
  used : s.used = (txs.map (·.txHash)).toFinset
  /-- they are first phases, between accounts with homes -/
  injected : ∀ tx ∈ txs, tx.Regular sys ∧ tx.relayed = false ∧ sys.place tx.sender < sys.shardNums
  /-- their hashes are distinct -/
  distinct : (txs.map (·.txHash)).Nodup
  /-- what is pooled is one of them, or its second phase -/
  pooled : ∀ k < sys.shardNums, ∀ tx ∈ (s.chains k).pooled, ∃ t ∈ txs, tx = t ∨ tx = t.second
  /-- what is under way is the second phase of one of them -/
  sent : ∀ tx ∈ s.sent, ∃ t ∈ txs, tx = t.second
  /-- each of them is in some stage -/
  stage : ∀ tx ∈ txs, ∃ st, s.At sys tx st

variable {sys : RelaySystem H} {s t : NetState H} {txs : List Transaction}

omit [DecidableEq H] in
theorem Settling.start : Settling sys (NetState.start sys) [] where
  sound := .start
  used := rfl
  injected := nofun
  distinct := List.nodup_nil
  pooled _ _ _ htx := absurd htx List.not_mem_nil
  sent _ htx := absurd htx List.not_mem_nil
  stage := nofun

namespace Settling

omit [DecidableEq H] in
/-- Injected transactions with one hash are one. -/
theorem eq_of_txHash (h : Settling sys s txs) {tx tx' : Transaction} (htx : tx ∈ txs)
    (htx' : tx' ∈ txs) (heq : tx.txHash = tx'.txHash) : tx = tx' :=
  List.inj_on_of_nodup_map h.distinct htx htx' heq

omit [DecidableEq H] in
/-- What is under way is not pooled. -/
theorem not_arrived_of_underWay (h : Settling sys s txs) {tx : Transaction} (htx : tx ∈ txs)
    (hst : s.At sys tx .underWay) : ¬ s.At sys tx .arrived := by
  rintro ⟨-, hpool, -⟩
  obtain ⟨-, ⟨e, he, -, hmem⟩, -⟩ := hst
  exact h.sound.hash_ne_sent (h.injected tx htx).1.home hpool
    (List.mem_flatMap.mpr ⟨e, he, hmem⟩) rfl

omit [DecidableEq H] in
/-- No stage is another one: what waits is executed nowhere, and only what is done at
the home of its recipient. -/
theorem stage_unique (h : Settling sys s txs) {tx : Transaction} (htx : tx ∈ txs)
    {st st' : Stage} (hst : s.At sys tx st) (hst' : s.At sys tx st') : st = st' := by
  cases st with
  | waiting =>
    cases st' with
    | waiting => rfl
    | underWay => exact absurd ((hst'.2.2 _).mpr rfl) (hst.2 _)
    | arrived => exact absurd ((hst'.2.2 _).mpr rfl) (hst.2 _)
    | done => exact absurd ((hst' _).mpr (.inl rfl)) (hst.2 _)
  | underWay =>
    cases st' with
    | waiting => exact absurd ((hst.2.2 _).mpr rfl) (hst'.2 _)
    | underWay => rfl
    | arrived => exact absurd hst' (h.not_arrived_of_underWay htx hst)
    | done => exact absurd ((hst.2.2 _).mp ((hst' _).mpr (.inr rfl))) hst.1
  | arrived =>
    cases st' with
    | waiting => exact absurd ((hst.2.2 _).mpr rfl) (hst'.2 _)
    | underWay => exact absurd hst (h.not_arrived_of_underWay htx hst')
    | arrived => rfl
    | done => exact absurd ((hst.2.2 _).mp ((hst' _).mpr (.inr rfl))) hst.1
  | done =>
    cases st' with
    | waiting => exact absurd ((hst _).mpr (.inl rfl)) (hst'.2 _)
    | underWay => exact absurd ((hst'.2.2 _).mp ((hst _).mpr (.inr rfl))) hst'.1
    | arrived => exact absurd ((hst'.2.2 _).mp ((hst _).mpr (.inr rfl))) hst'.1
    | done => rfl

end Settling

/-! ## Transactions that come into a pool -/

section Received

variable {k : ℕ} {new : List Transaction} {fl : List (ℕ × Relay)} {u : Finset Bytes}

omit [DecidableEq H] in
/-- Nothing is executed when transactions arrive. -/
theorem executed_received (s : NetState H) (tx : Transaction) (i : ℕ) :
    (⟨Function.update s.chains k ((s.chains k).received new), fl, u⟩ : NetState H).Executed tx i ↔
      s.Executed tx i := by
  rcases eq_or_ne i k with rfl | hi
  · rw [NetState.Executed]
    dsimp only
    rw [Function.update_self, BlockChain.received_storage]
    rfl
  · rw [NetState.Executed]
    dsimp only
    rw [Function.update_of_ne hi]
    rfl

omit [DecidableEq H] in
/-- What a pool holds after transactions arrived in one of them. -/
theorem NetSound.mem_received (hs : NetSound sys s) {tx : Transaction} {i : ℕ} :
    tx ∈ (Function.update s.chains k ((s.chains k).received new) i).pooled ↔
      tx ∈ (s.chains i).pooled ∨ (i = k ∧ tx ∈ new) := by
  rcases eq_or_ne i k with rfl | hi
  · rw [Function.update_self, BlockChain.received_pooled (hs.queue i), List.mem_append]
    simp
  · rw [Function.update_of_ne hi]
    simp [hi]

end Received

namespace Settling

/-- What is injected waits; everything else stays as it is. -/
theorem inject (h : Settling sys s txs) {sid : ℕ} {new : List Transaction}
    (hstep : s.step sys (.inject sid new) = some t) : Settling sys t (txs ++ new) := by
  have hsound := h.sound.step hstep
  obtain ⟨⟨hk, hnd, hnew⟩, rfl⟩ := NetState.step_inject hstep
  refine ⟨hsound, ?_, fun tx htx => ?_, ?_, fun k hk' tx htx => ?_, fun tx htx => ?_,
    fun tx htx => ?_⟩
  · rw [h.used, List.map_append, List.toFinset_append]
  · rcases List.mem_append.mp htx with htx | htx
    · exact h.injected tx htx
    · obtain ⟨hreg, hrel, hplace, -⟩ := hnew tx htx
      exact ⟨hreg, hrel, hplace ▸ hk⟩
  · -- new hashes are not among those used
    rw [List.map_append, List.nodup_append]
    refine ⟨h.distinct, hnd, fun a ha b hb hab => ?_⟩
    obtain ⟨tx, htx, rfl⟩ := List.mem_map.mp hb
    refine (hnew tx htx).2.2.2 ?_
    rw [h.used, List.mem_toFinset]
    exact hab ▸ ha
  · rcases h.sound.mem_received.mp htx with htx | ⟨-, htx⟩
    · obtain ⟨t, ht, heq⟩ := h.pooled k hk' tx htx
      exact ⟨t, List.mem_append_left _ ht, heq⟩
    · exact ⟨tx, List.mem_append_right _ htx, .inl rfl⟩
  · obtain ⟨t, ht, heq⟩ := h.sent tx htx
    exact ⟨t, List.mem_append_left _ ht, heq⟩
  · rcases List.mem_append.mp htx with htx | htx
    · obtain ⟨st, hst⟩ := h.stage tx htx
      refine ⟨st, ?_⟩
      cases st with
      | waiting => exact ⟨h.sound.mem_received.mpr (.inl hst.1),
          fun k => (executed_received s tx k).not.mpr (hst.2 k)⟩
      | underWay => exact ⟨hst.1, hst.2.1, fun k => (executed_received s tx k).trans (hst.2.2 k)⟩
      | arrived => exact ⟨hst.1, h.sound.mem_received.mpr (.inl hst.2.1),
          fun k => (executed_received s tx k).trans (hst.2.2 k)⟩
      | done => exact fun k => (executed_received s tx k).trans (hst k)
    · obtain ⟨-, -, hplace, hunused⟩ := hnew tx htx
      refine ⟨.waiting, h.sound.mem_received.mpr (.inr ⟨hplace, htx⟩), fun k hex => ?_⟩
      exact hunused (h.sound.executed k ((executed_received s tx k).mp hex))

/-- What a message brings has arrived; everything else stays as it is. -/
theorem deliver (h : Settling sys s txs) {k : ℕ} (hstep : s.step sys (.deliver k) = some t) :
    Settling sys t txs := by
  have hsound := h.sound.step hstep
  obtain ⟨e, he, rfl⟩ := NetState.step_deliver hstep
  have hmem : e ∈ s.flight := List.mem_of_getElem? he
  refine ⟨hsound, h.used, h.injected, h.distinct, fun i hi tx htx => ?_, fun tx htx => ?_,
    fun tx htx => ?_⟩
  · rcases h.sound.mem_received.mp htx with htx | ⟨-, htx⟩
    · exact h.pooled i hi tx htx
    · obtain ⟨t, ht, heq⟩ := h.sent tx (List.mem_flatMap.mpr ⟨e, hmem, htx⟩)
      exact ⟨t, ht, .inr heq⟩
  · obtain ⟨e', he', htx⟩ := List.mem_flatMap.mp htx
    exact h.sent tx (List.mem_flatMap.mpr ⟨e', (List.eraseIdx_sublist _ _).subset he', htx⟩)
  · obtain ⟨st, hst⟩ := h.stage tx htx
    cases st with
    | waiting => exact ⟨.waiting, h.sound.mem_received.mpr (.inl hst.1),
        fun i => (executed_received s tx i).not.mpr (hst.2 i)⟩
    | underWay =>
      obtain ⟨hcross, ⟨e', he', hto, htx'⟩, hex⟩ := hst
      obtain ⟨j, hj⟩ := List.mem_iff_getElem?.mp he'
      by_cases hjk : j = k
      · -- this message has it
        obtain rfl : e' = e := Option.some.inj ((hjk ▸ hj).symm.trans he)
        exact ⟨.arrived, hcross, h.sound.mem_received.mpr (.inr ⟨hto.symm, htx'⟩),
          fun i => (executed_received s tx i).trans (hex i)⟩
      · refine ⟨.underWay, hcross, ⟨e', ?_, hto, htx'⟩,
          fun i => (executed_received s tx i).trans (hex i)⟩
        exact List.mem_eraseIdx_iff_getElem?.mpr ⟨j, hjk, hj⟩
    | arrived => exact ⟨.arrived, hst.1, h.sound.mem_received.mpr (.inl hst.2.1),
        fun i => (executed_received s tx i).trans (hst.2.2 i)⟩
    | done => exact ⟨.done, fun i => (executed_received s tx i).trans (hst i)⟩

end Settling

/-! ## Blocks -/

/-- What a commit does to where transactions are. -/
structure Committed (sys : RelaySystem H) (s t : NetState H) (sid seqID : ℕ)
    (packed rest : List Transaction) : Prop where
  /-- the shard is one of the system -/
  shard : sid < sys.shardNums
  /-- the block is the front of the pool -/
  front : (s.chains sid).pooled = packed ++ rest
  /-- the rest stays there -/
  rest : (t.chains sid).pooled = rest
  /-- other shards do nothing -/
  other : ∀ i, i ≠ sid → t.chains i = s.chains i
  /-- the block is executed -/
  executed : ∀ tx i, t.Executed tx i ↔
    s.Executed tx i ∨ (i = sid ∧ ∃ tx' ∈ packed, tx'.txHash = tx.txHash)
  /-- the other shards are sent what is due there -/
  flight : t.flight = s.flight ++ ((List.range sys.shardNums).filter (· ≠ sid)).map fun i =>
    (i, ⟨secondPhase sys.place i packed, sid, seqID⟩)
  /-- nothing is injected -/
  used : t.used = s.used
  /-- the block is what was packed and filtered -/
  filtered : BlockChain.filterFreshTransactions (s.chains sid)
    (BlockChain.packForBlock (sys.cc sid) (s.chains sid)).1 = packed
  /-- the accounts are those after the block -/
  root : BlockChain.getUpdateStatusTrie (sys.cc sid) (s.chains sid) (packed.map some) =
    some (t.chains sid).currentBlock.header.stateRoot

theorem NetSound.committed (hs : NetSound sys s) {sid miner seqID : ℕ} {now : Time}
    (h : s.step sys (.commit sid miner seqID now) = some t) :
    ∃ packed rest, Committed sys s t sid seqID packed rest := by
  obtain ⟨hk, bc, packed, rest, rfl, htxs, hqueue, hexec, -, hfilter, hroot⟩ := hs.step_commit h
  refine ⟨packed, rest, hk, htxs, ?_, fun i hi => Function.update_of_ne hi _ _,
    fun tx i => ?_, rfl, rfl, hfilter, ?_⟩
  · dsimp only
    rw [Function.update_self, BlockChain.pooled_eq hqueue]
  · rw [NetState.Executed, NetState.Executed]
    dsimp only
    rcases eq_or_ne i sid with rfl | hi
    · rw [Function.update_self, hexec]
      simp
    · rw [Function.update_of_ne hi]
      simp [hi]
  · dsimp only
    rw [Function.update_self, hroot]

namespace Committed

variable {sid seqID : ℕ} {packed rest : List Transaction}

omit [DecidableEq H] in
theorem mem_pooled_of_mem_packed (hc : Committed sys s t sid seqID packed rest) {tx : Transaction}
    (h : tx ∈ packed) : tx ∈ (s.chains sid).pooled :=
  hc.front ▸ List.mem_append_left _ h

omit [DecidableEq H] in
/-- Pools only shrink. -/
theorem pooled_subset (hc : Committed sys s t sid seqID packed rest) {i : ℕ} {tx : Transaction}
    (h : tx ∈ (t.chains i).pooled) : tx ∈ (s.chains i).pooled := by
  rcases eq_or_ne i sid with rfl | hi
  · rw [hc.rest] at h
    exact hc.front ▸ List.mem_append_right _ h
  · exact hc.other i hi ▸ h

omit [DecidableEq H] in
/-- What is not in the block stays in its pool. -/
theorem pooled_of_notMem (hc : Committed sys s t sid seqID packed rest) {i : ℕ} {tx : Transaction}
    (h : tx ∈ (s.chains i).pooled) (hnot : tx ∉ packed) : tx ∈ (t.chains i).pooled := by
  rcases eq_or_ne i sid with rfl | hi
  · rw [hc.rest]
    rw [hc.front] at h
    exact (List.mem_append.mp h).resolve_left hnot
  · rwa [hc.other i hi]

omit [DecidableEq H] in
/-- What is under way then: what was, and what the block makes due. -/
theorem mem_sent (hc : Committed sys s t sid seqID packed rest) {tx : Transaction}
    (h : tx ∈ t.sent) : tx ∈ s.sent ∨ ∃ tx' ∈ packed, tx = tx'.second := by
  obtain ⟨e, he, htx⟩ := List.mem_flatMap.mp h
  rw [hc.flight] at he
  rcases List.mem_append.mp he with he | he
  · exact .inl (List.mem_flatMap.mpr ⟨e, he, htx⟩)
  · obtain ⟨i, -, rfl⟩ := List.mem_map.mp he
    obtain ⟨tx', htx', rfl⟩ := List.mem_map.mp htx
    exact .inr ⟨tx', (List.mem_filter.mp htx').1, rfl⟩

omit [DecidableEq H] in
/-- A transaction of the block to another shard is on its way there. -/
theorem due (hc : Committed sys s t sid seqID packed rest) {tx : Transaction} (h : tx ∈ packed)
    (hhome : sys.place tx.recipient < sys.shardNums) (hne : sys.place tx.recipient ≠ sid) :
    ∃ e ∈ t.flight, e.1 = sys.place tx.recipient ∧ tx.second ∈ e.2.txs := by
  refine ⟨(sys.place tx.recipient,
    ⟨secondPhase sys.place (sys.place tx.recipient) packed, sid, seqID⟩), ?_, rfl,
    mem_secondPhase h rfl⟩
  rw [hc.flight]
  refine List.mem_append_right _ (List.mem_map_of_mem (List.mem_filter.mpr ⟨?_, ?_⟩))
  · exact List.mem_range.mpr hhome
  · simpa using hne

end Committed

namespace Settling

variable {sid seqID : ℕ} {packed rest : List Transaction} {tx : Transaction}

omit [DecidableEq H] in
/-- A transaction that has nothing to do with the block stays in its stage. -/
theorem stage_of_notMem (hc : Committed sys s t sid seqID packed rest)
    (hnot : ∀ tx' ∈ packed, tx'.txHash ≠ tx.txHash) {st : Stage} (hst : s.At sys tx st) :
    t.At sys tx st := by
  have hex : ∀ k, t.Executed tx k ↔ s.Executed tx k := fun k => by
    rw [hc.executed]
    exact or_iff_left fun ⟨_, tx', htx', heq⟩ => hnot tx' htx' heq
  cases st with
  | waiting => exact ⟨hc.pooled_of_notMem hst.1 fun htx => hnot tx htx rfl,
      fun k => (hex k).not.mpr (hst.2 k)⟩
  | underWay =>
    obtain ⟨hcross, ⟨e, he, hto⟩, hexs⟩ := hst
    refine ⟨hcross, ⟨e, ?_, hto⟩, fun k => (hex k).trans (hexs k)⟩
    rw [hc.flight]
    exact List.mem_append_left _ he
  | arrived => exact ⟨hst.1, hc.pooled_of_notMem hst.2.1 fun htx => hnot _ htx rfl,
      fun k => (hex k).trans (hst.2.2 k)⟩
  | done => exact fun k => (hex k).trans (hst k)

omit [DecidableEq H] in
/-- A first phase in the block was executed nowhere: it is done, or its second phase is
under way. -/
theorem stage_of_first (h : Settling sys s txs) (hc : Committed sys s t sid seqID packed rest)
    (htx : tx ∈ txs) (hmem : tx ∈ packed) : ∃ st, t.At sys tx st := by
  obtain ⟨hreg, hrel, -⟩ := h.injected tx htx
  have hpool := hc.mem_pooled_of_mem_packed hmem
  have hplace : sys.place tx.sender = sid := (h.sound.pooled sid hc.shard tx hpool).2.1 hrel
  have hnone : ∀ k, ¬ s.Executed tx k := fun k hex => by
    have := (h.sound.fresh sid hc.shard tx hpool k hex).1
    rw [hrel] at this
    cases this
  have hex : ∀ k, t.Executed tx k ↔ k = sys.place tx.sender := fun k => by
    rw [hc.executed, or_iff_right (hnone k), hplace]
    exact and_iff_left ⟨tx, hmem, rfl⟩
  by_cases hcross : sys.place tx.recipient = sys.place tx.sender
  · refine ⟨.done, fun k => ?_⟩
    rw [hex, hcross, or_self]
  · exact ⟨.underWay, hcross, hc.due hmem hreg.home (hplace ▸ hcross), hex⟩

omit [DecidableEq H] in
/-- A second phase that is pooled has arrived. -/
theorem arrived_of_pooled (h : Settling sys s txs) (htx : tx ∈ txs) {k : ℕ}
    (hk : k < sys.shardNums) (hpool : tx.second ∈ (s.chains k).pooled) :
    s.At sys tx .arrived := by
  obtain ⟨-, hrel, hsender⟩ := h.injected tx htx
  have hplace : sys.place tx.recipient = k := (h.sound.pooled k hk _ hpool).2.2 rfl
  obtain ⟨st, hst⟩ := h.stage tx htx
  cases st with
  | waiting =>
    -- a first phase would be pooled under the same hash
    exfalso
    rcases eq_or_ne (sys.place tx.sender) k with heq | hne
    · have hfirst := hst.1
      rw [heq] at hfirst
      have heq := List.inj_on_of_nodup_map (h.sound.freshPool hk).nodup hfirst hpool rfl
      rw [heq] at hrel
      cases hrel
    · exact h.sound.hash_ne_pooled hsender hk hne hst.1 hpool rfl
  | underWay =>
    obtain ⟨-, ⟨e, he, -, hsent⟩, -⟩ := hst
    exact absurd rfl (h.sound.hash_ne_sent hk hpool (List.mem_flatMap.mpr ⟨e, he, hsent⟩))
  | arrived => exact hst
  | done =>
    exact absurd hplace.symm (h.sound.fresh k hk _ hpool _ ((hst _).mpr (.inr rfl))).2.symm

omit [DecidableEq H] in
/-- A second phase in the block is done. -/
theorem stage_of_second (h : Settling sys s txs) (hc : Committed sys s t sid seqID packed rest)
    (htx : tx ∈ txs) (hmem : tx.second ∈ packed) : t.At sys tx .done := by
  have hpool := hc.mem_pooled_of_mem_packed hmem
  have hplace : sys.place tx.recipient = sid := (h.sound.pooled sid hc.shard _ hpool).2.2 rfl
  obtain ⟨-, -, hex⟩ := h.arrived_of_pooled htx hc.shard hpool
  intro k
  rw [hc.executed, hex, hplace]
  exact or_congr_right (and_iff_left ⟨tx.second, hmem, rfl⟩)

/-- Blocks take transactions from stage to stage. -/
theorem commit (h : Settling sys s txs) {miner : ℕ} {now : Time}
    (hstep : s.step sys (.commit sid miner seqID now) = some t) : Settling sys t txs := by
  have hsound := h.sound.step hstep
  obtain ⟨packed, rest, hc⟩ := h.sound.committed hstep
  refine ⟨hsound, hc.used.trans h.used, h.injected, h.distinct,
    fun k hk tx htx => h.pooled k hk tx (hc.pooled_subset htx), fun tx htx => ?_, fun tx htx => ?_⟩
  · rcases hc.mem_sent htx with htx | ⟨tx', htx', rfl⟩
    · exact h.sent tx htx
    · obtain ⟨t, ht, rfl | rfl⟩ := h.pooled sid hc.shard tx' (hc.mem_pooled_of_mem_packed htx')
      · exact ⟨_, ht, rfl⟩
      · exact ⟨t, ht, rfl⟩
  · by_cases hin : ∃ tx' ∈ packed, tx'.txHash = tx.txHash
    · obtain ⟨tx', htx', heq⟩ := hin
      obtain ⟨t, ht, rfl | rfl⟩ := h.pooled sid hc.shard tx' (hc.mem_pooled_of_mem_packed htx')
      · obtain rfl := h.eq_of_txHash ht htx heq
        exact h.stage_of_first hc htx htx'
      · obtain rfl := h.eq_of_txHash ht htx heq
        exact ⟨.done, h.stage_of_second hc htx htx'⟩
    · obtain ⟨st, hst⟩ := h.stage tx htx
      exact ⟨st, stage_of_notMem hc (fun tx' htx' heq => hin ⟨tx', htx', heq⟩) hst⟩

/-- **Every step keeps each transaction in a stage.** -/
theorem step (h : Settling sys s txs) {a : NetAction} (hstep : s.step sys a = some t) :
    Settling sys t (txs ++ a.injected) := by
  cases a with
  | inject sid new => exact h.inject hstep
  | commit sid miner seqID now => exact (List.append_nil txs).symm ▸ h.commit hstep
  | deliver k => exact (List.append_nil txs).symm ▸ h.deliver hstep

/-- **What every step keeps, a run keeps**, stages included. -/
theorem run_keeps {ok : NetState H → NetAction → Prop} [∀ s a, Decidable (ok s a)]
    {P : NetState H → List Transaction → Prop}
    (hP : ∀ s txs a t, Settling sys s txs → P s txs → s.step sys a = some t →
      P t (txs ++ a.injected))
    (h : Settling sys s txs) (h₀ : P s txs) {as : List NetAction}
    (hrun : runWith (NetState.step sys) ok s as = some t) :
    Settling sys t (txs ++ as.flatMap NetAction.injected) ∧
      P t (txs ++ as.flatMap NetAction.injected) := by
  induction as generalizing s txs with
  | nil =>
    obtain rfl := Option.some.inj hrun
    rw [List.flatMap_nil, List.append_nil]
    exact ⟨h, h₀⟩
  | cons a as ih =>
    rw [runWith] at hrun
    split at hrun
    · obtain ⟨u, hu, hrun⟩ := Option.bind_eq_some_iff.mp hrun
      rw [List.flatMap_cons, ← List.append_assoc]
      exact ih (h.step hu) (hP s txs a u h h₀ hu) hrun
    · cases hrun

/-- Every run keeps each transaction in a stage. -/
theorem run {ok : NetState H → NetAction → Prop} [∀ s a, Decidable (ok s a)]
    (h : Settling sys s txs) {as : List NetAction}
    (hrun : runWith (NetState.step sys) ok s as = some t) :
    Settling sys t (txs ++ as.flatMap NetAction.injected) :=
  (h.run_keeps (P := fun _ _ => True) (fun _ _ _ _ _ _ _ => trivial) trivial hrun).1

end Settling

/-- **Nothing is lost and nothing is done twice**: in every run of every system of relay
shards, each injected transaction is in exactly one stage, and whatever is pooled, under
way or executed is an injected transaction or its second phase. -/
theorem one_stage (sys : RelaySystem H) (as : List NetAction) (s : NetState H)
    (hrun : runWith (NetState.step sys) (fun _ _ => True) (NetState.start sys) as = some s) :
    (∀ tx ∈ as.flatMap NetAction.injected, ∃! st, s.At sys tx st) ∧
      (∀ k < sys.shardNums, ∀ tx ∈ (s.chains k).pooled,
        ∃ t ∈ as.flatMap NetAction.injected, tx = t ∨ tx = t.second) ∧
      (∀ tx ∈ s.sent, ∃ t ∈ as.flatMap NetAction.injected, tx = t.second) ∧
      ∀ k, ∀ b ∈ (s.chains k).storage.executedTransaction,
        ∃ t ∈ as.flatMap NetAction.injected, t.txHash = b := by
  have h := Settling.start.run hrun
  rw [List.nil_append] at h
  refine ⟨fun tx htx => ?_, h.pooled, h.sent, fun k b hb => ?_⟩
  · obtain ⟨st, hst⟩ := h.stage tx htx
    exact ⟨st, hst, fun st' hst' => h.stage_unique htx hst' hst⟩
  · have hmem := h.sound.executed k hb
    rw [h.used, List.mem_toFinset] at hmem
    exact List.mem_map.mp hmem

/-- A payment from shard to shard after its whole run. -/
theorem one_stage_cross :
    ∃ s, runWith (NetState.step twoShards) (fun _ _ => True) (NetState.start twoShards)
        (crossRun crossTransaction) = some s ∧ ∃! st, s.At twoShards crossTransaction st := by
  obtain ⟨s, hs⟩ := Option.isSome_iff_exists.mp
    (show (runWith (NetState.step twoShards) (fun _ _ => True) (NetState.start twoShards)
      (crossRun crossTransaction)).isSome = true by decide +kernel)
  exact ⟨s, hs, (one_stage twoShards _ s hs).1 crossTransaction (by decide)⟩

end BlockEmulator
