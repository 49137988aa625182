import BlockEmulator.BlockChain

/-!
# What validation accepts and what a proposal contains

One specification lemma per operation of the chain, so that nothing later
unfolds them:

* `checkBody_eq_ok`, `isValidBlock_eq_ok` — exactly which blocks are accepted;
* `addBlock_eq_ok`, `addAccounts_eq_some` — what an insertion changes;
* `filterFresh_spec`, `mem_filterFresh_of` — what the proposal filter keeps;
* `isValidBlock_generateBlock` — **a proposal is valid**: the block `GenerateBlock`
  returns is accepted by `AddBlock` on the same chain.
-/

namespace BlockEmulator

namespace BlockChain

variable {H : Type} {cc : ChainConfig H}

/-! ## The checks on a body -/

/-- The body check passes exactly on a list of transactions with distinct,
non-empty hashes, none of them seen before or executed. -/
theorem checkBody_eq_ok {s : Storage H} {body : List (Option Transaction)}
    {seen : Finset Bytes} :
    checkBody s body seen = .ok () ↔
      ∃ txs : List Transaction, body = txs.map some ∧ (txs.map (·.txHash)).Nodup ∧
        ∀ tx ∈ txs, tx.txHash ≠ [] ∧ tx.txHash ∉ seen ∧ tx.txHash ∉ s.executedTransaction := by
  induction body generalizing seen with
  | nil =>
    simp only [checkBody, true_iff]
    exact ⟨[], rfl, List.nodup_nil, fun _ h => absurd h List.not_mem_nil⟩
  | cons p body ih =>
    rcases p with _ | tx
    · simp only [checkBody, reduceCtorEq, false_iff]
      rintro ⟨txs, htxs, -, -⟩
      cases txs <;> simp at htxs
    · rw [checkBody]
      by_cases hnil : tx.txHash = []
      · rw [if_pos hnil]
        simp only [reduceCtorEq, false_iff]
        rintro ⟨txs, htxs, -, hall⟩
        obtain ⟨t, ts, rfl⟩ : ∃ t ts, txs = t :: ts := by
          cases txs with
          | nil => simp at htxs
          | cons t ts => exact ⟨t, ts, rfl⟩
        obtain ⟨rfl, -⟩ : tx = t ∧ _ := by simpa using htxs
        exact (hall tx List.mem_cons_self).1 hnil
      · rw [if_neg hnil]
        by_cases hseen : tx.txHash ∈ seen
        · rw [if_pos hseen]
          simp only [reduceCtorEq, false_iff]
          rintro ⟨txs, htxs, -, hall⟩
          have hmem : tx ∈ txs := by
            have : some tx ∈ txs.map some := htxs ▸ List.mem_cons_self
            simpa using this
          exact (hall tx hmem).2.1 hseen
        · rw [if_neg hseen, Storage.hasTransaction, if_neg hnil]
          by_cases hex : tx.txHash ∈ s.executedTransaction
          · simp only [hex, decide_true, reduceCtorEq, false_iff]
            rintro ⟨txs, htxs, -, hall⟩
            have hmem : tx ∈ txs := by
              have : some tx ∈ txs.map some := htxs ▸ List.mem_cons_self
              simpa using this
            exact (hall tx hmem).2.2 hex
          · simp only [hex, decide_false]
            rw [ih]
            constructor
            · rintro ⟨txs, rfl, hnd, hall⟩
              refine ⟨tx :: txs, rfl, ?_, ?_⟩
              · rw [List.map_cons, List.nodup_cons]
                refine ⟨fun hmem => ?_, hnd⟩
                obtain ⟨t, ht, htx⟩ := List.mem_map.mp hmem
                exact (hall t ht).2.1 (htx ▸ Finset.mem_insert_self _ _)
              · intro t ht
                rcases List.mem_cons.mp ht with rfl | ht
                · exact ⟨hnil, hseen, hex⟩
                · obtain ⟨h₁, h₂, h₃⟩ := hall t ht
                  exact ⟨h₁, fun h => h₂ (Finset.mem_insert_of_mem h), h₃⟩
            · rintro ⟨txs, htxs, hnd, hall⟩
              cases txs with
              | nil => simp at htxs
              | cons t ts =>
                obtain ⟨rfl, rfl⟩ : tx = t ∧ body = ts.map some := by simpa using htxs
                rw [List.map_cons, List.nodup_cons] at hnd
                refine ⟨ts, rfl, hnd.2, fun u hu => ?_⟩
                obtain ⟨h₁, h₂, h₃⟩ := hall u (List.mem_cons_of_mem _ hu)
                refine ⟨h₁, fun hins => ?_, h₃⟩
                rcases Finset.mem_insert.mp hins with heq | hs
                · exact hnd.1 (heq ▸ List.mem_map.mpr ⟨u, hu, rfl⟩)
                · exact h₂ hs

/-! ## The proposal filter -/

/-- What the filter keeps: transactions of the list, with distinct, non-empty
hashes, none of them seen before or executed. -/
theorem filterFresh_spec (s : Storage H) :
    ∀ (txs : List (Option Transaction)) (seen : Finset Bytes),
      ((filterFresh s txs seen).map (·.txHash)).Nodup ∧
      ∀ tx ∈ filterFresh s txs seen, some tx ∈ txs ∧ tx.txHash ≠ [] ∧
        tx.txHash ∉ seen ∧ tx.txHash ∉ s.executedTransaction
  | [], seen => ⟨List.nodup_nil, fun _ h => absurd h List.not_mem_nil⟩
  | none :: txs, seen => by
    obtain ⟨hnd, hall⟩ := filterFresh_spec s txs seen
    rw [filterFresh]
    exact ⟨hnd, fun tx h => ⟨List.mem_cons_of_mem _ (hall tx h).1, (hall tx h).2⟩⟩
  | some t :: txs, seen => by
    rw [filterFresh]
    by_cases hnil : t.txHash = []
    · obtain ⟨hnd, hall⟩ := filterFresh_spec s txs seen
      rw [if_pos hnil]
      exact ⟨hnd, fun tx h => ⟨List.mem_cons_of_mem _ (hall tx h).1, (hall tx h).2⟩⟩
    · rw [if_neg hnil]
      by_cases hseen : t.txHash ∈ seen
      · obtain ⟨hnd, hall⟩ := filterFresh_spec s txs seen
        rw [if_pos hseen]
        exact ⟨hnd, fun tx h => ⟨List.mem_cons_of_mem _ (hall tx h).1, (hall tx h).2⟩⟩
      · rw [if_neg hseen, Storage.hasTransaction, if_neg hnil]
        obtain ⟨hnd, hall⟩ := filterFresh_spec s txs (insert t.txHash seen)
        have hrest : ∀ tx ∈ filterFresh s txs (insert t.txHash seen),
            some tx ∈ some t :: txs ∧ tx.txHash ≠ [] ∧ tx.txHash ∉ seen ∧
              tx.txHash ∉ s.executedTransaction := fun tx h =>
          ⟨List.mem_cons_of_mem _ (hall tx h).1, (hall tx h).2.1,
            fun hin => (hall tx h).2.2.1 (Finset.mem_insert_of_mem hin), (hall tx h).2.2.2⟩
        by_cases hex : t.txHash ∈ s.executedTransaction
        · simp only [hex, decide_true, if_true]
          exact ⟨hnd, hrest⟩
        · simp only [hex, decide_false, Option.some.injEq, Bool.false_eq_true, if_false]
          refine ⟨?_, ?_⟩
          · rw [List.map_cons, List.nodup_cons]
            refine ⟨fun hmem => ?_, hnd⟩
            obtain ⟨u, hu, hut⟩ := List.mem_map.mp hmem
            exact (hall u hu).2.2.1 (hut ▸ Finset.mem_insert_self _ _)
          · intro tx h
            rcases List.mem_cons.mp h with rfl | h
            · exact ⟨List.mem_cons_self, hnil, hseen, hex⟩
            · exact hrest tx h

/-- A hash that is in the list, not seen before and not executed, is kept. -/
theorem mem_filterFresh_of (s : Storage H) {tx : Transaction} (hne : tx.txHash ≠ [])
    (hex : tx.txHash ∉ s.executedTransaction) :
    ∀ {txs : List (Option Transaction)} {seen : Finset Bytes}, some tx ∈ txs →
      tx.txHash ∉ seen → ∃ t ∈ filterFresh s txs seen, t.txHash = tx.txHash
  | [], _, h, _ => absurd h List.not_mem_nil
  | none :: txs, seen, h, hseen => by
    rw [filterFresh]
    exact mem_filterFresh_of s hne hex (by simpa using h) hseen
  | some t :: txs, seen, h, hseen => by
    rw [filterFresh]
    -- the head is taken where it has the hash; else the hash is still to come in the tail
    by_cases hsame : t.txHash = tx.txHash
    · have hfresh : ¬ s.hasTransaction t.txHash = some true := by
        rw [hsame, Storage.hasTransaction, if_neg hne]
        simp [hex]
      rw [if_neg (hsame ▸ hne), if_neg (hsame ▸ hseen), if_neg hfresh]
      exact ⟨t, List.mem_cons_self, hsame⟩
    · have hrest : some tx ∈ txs := by
        rcases List.mem_cons.mp h with heq | h
        · exact absurd (congrArg Transaction.txHash (Option.some.inj heq).symm) hsame
        · exact h
      have hins : tx.txHash ∉ insert t.txHash seen := fun hin => by
        rcases Finset.mem_insert.mp hin with heq | hin
        · exact hsame heq.symm
        · exact hseen hin
      by_cases hnil : t.txHash = []
      · rw [if_pos hnil]
        exact mem_filterFresh_of s hne hex hrest hseen
      · rw [if_neg hnil]
        by_cases hts : t.txHash ∈ seen
        · rw [if_pos hts]
          exact mem_filterFresh_of s hne hex hrest hseen
        · rw [if_neg hts]
          by_cases hdone : s.hasTransaction t.txHash = some true
          · rw [if_pos hdone]
            exact mem_filterFresh_of s hne hex hrest hins
          · rw [if_neg hdone]
            obtain ⟨u, hu, hutx⟩ := mem_filterFresh_of s hne hex hrest hins
            exact ⟨u, List.mem_cons_of_mem _ hu, hutx⟩

/-- A list of transactions with distinct, non-empty hashes, none of them seen or
executed, passes the filter unchanged. -/
theorem filterFresh_eq_self (s : Storage H) :
    ∀ {txs : List Transaction} {seen : Finset Bytes}, (txs.map (·.txHash)).Nodup →
      (∀ tx ∈ txs, tx.txHash ≠ [] ∧ tx.txHash ∉ seen ∧ tx.txHash ∉ s.executedTransaction) →
      filterFresh s (txs.map some) seen = txs
  | [], _, _, _ => rfl
  | t :: txs, seen, hnd, hall => by
    obtain ⟨hnil, hseen, hex⟩ := hall t List.mem_cons_self
    rw [List.map_cons, List.nodup_cons] at hnd
    rw [List.map_cons, filterFresh, if_neg hnil, if_neg hseen, Storage.hasTransaction,
      if_neg hnil]
    simp only [hex, decide_false, Option.some.injEq, Bool.false_eq_true, if_false]
    rw [filterFresh_eq_self s hnd.2]
    intro u hu
    obtain ⟨h₁, h₂, h₃⟩ := hall u (List.mem_cons_of_mem _ hu)
    refine ⟨h₁, fun hin => ?_, h₃⟩
    rcases Finset.mem_insert.mp hin with heq | hin
    · exact hnd.1 (heq ▸ List.mem_map.mpr ⟨u, hu, rfl⟩)
    · exact h₂ hin

/-! ## What `GenerateBlock` returns -/

/-- What `GenerateBlock` returns. -/
theorem generateBlock_eq_some {bc bc' : BlockChain H} {miner : ℕ} {now : Time} {b : Block H}
    (h : generateBlock cc bc miner now = some (b, bc')) :
    b.body = (filterFreshTransactions bc (packForBlock cc bc).1).map some ∧
      b.header.number = bc.currentBlock.header.number + 1 ∧
      b.header.parentBlockHash = bc.currentBlock.hash ∧
      b.header.miner = miner ∧ b.header.time = now ∧
      b.hash = cc.hash.headerHash b.header ∧
      getUpdateStatusTrie cc bc b.body = some b.header.stateRoot ∧
      getTxTreeRoot b.body = some b.header.txRoot ∧
      bc' = { bc with txpool := (packForBlock cc bc).2 } := by
  rw [generateBlock] at h
  dsimp only at h
  obtain ⟨b₀, hb, heq⟩ := Option.map_eq_some_iff.mp h
  obtain ⟨rfl, rfl⟩ := Prod.mk.inj heq
  rw [buildBlock] at hb
  obtain ⟨rt, hrt, hb⟩ := Option.bind_eq_some_iff.mp hb
  obtain ⟨root, hroot, hb⟩ := Option.bind_eq_some_iff.mp hb
  obtain ⟨bloom, -, rfl⟩ := Option.map_eq_some_iff.mp hb
  exact ⟨rfl, rfl, rfl, rfl, rfl, rfl, hrt, hroot, rfl⟩

/-- The state root only depends on the current block, the placements and the
transactions, not on the pool. -/
theorem getUpdateStatusTrie_congr {bc bc' : BlockChain H}
    (hb : bc'.currentBlock = bc.currentBlock) (hp : bc'.partitionMap = bc.partitionMap)
    (txs : List (Option Transaction)) :
    getUpdateStatusTrie cc bc' txs = getUpdateStatusTrie cc bc txs := by
  obtain ⟨b, s, pool, pm⟩ := bc
  obtain ⟨b', s', pool', pm'⟩ := bc'
  obtain rfl : b' = b := hb
  obtain rfl : pm' = pm := hp
  have hrun : ∀ txs i st cnt,
      executeTxs cc ⟨b', s', pool', pm'⟩ i txs st cnt =
        executeTxs cc ⟨b', s, pool, pm'⟩ i txs st cnt := by
    intro txs
    induction txs with
    | nil => intro i st cnt; rfl
    | cons p txs ih =>
      intro i st cnt
      rcases p with _ | tx
      · rfl
      · simp only [executeTxs, ih]
        rfl
  simp only [getUpdateStatusTrie, hrun]

/-! ## Acceptance and insertion -/

variable [DecidableEq H]

/-- Exactly the blocks that pass every check of `IsValidBlock`. -/
theorem isValidBlock_eq_ok {bc : BlockChain H} {b : Block H} :
    isValidBlock cc bc (some b) = some (.ok ()) ↔
      b.header.number = bc.currentBlock.header.number + 1 ∧
      b.header.parentBlockHash = bc.currentBlock.hash ∧
      getTxTreeRoot b.body = some b.header.txRoot ∧
      cc.hash.headerHash b.header = b.hash ∧
      checkBody bc.storage b.body ∅ = .ok () ∧
      getUpdateStatusTrie cc bc b.body = some b.header.stateRoot := by
  rw [isValidBlock]
  by_cases hnum : b.header.number = bc.currentBlock.header.number + 1
  · rw [if_neg (not_not.mpr hnum)]
    by_cases hpar : b.header.parentBlockHash = bc.currentBlock.hash
    · rw [if_neg (not_not.mpr hpar)]
      rcases hroot : getTxTreeRoot b.body with _ | txRoot
      · simp
      · rw [Option.bind_some]
        by_cases htx : txRoot = b.header.txRoot
        · rw [if_neg (not_not.mpr htx)]
          by_cases hhash : cc.hash.headerHash b.header = b.hash
          · rw [if_neg (not_not.mpr hhash)]
            rcases hbody : checkBody bc.storage b.body ∅ with e | u
            · simp
            · rcases hst : getUpdateStatusTrie cc bc b.body with _ | expected
              · simp
              · by_cases hroot : expected = b.header.stateRoot
                · simp [hnum, hpar, htx, hhash, hroot]
                · simp [hroot]
          · simp [hhash]
        · simp [htx]
    · simp [hpar]
  · simp [hnum]

/-- What an accepted insertion changes. -/
theorem addBlock_eq_ok {bc bc' : BlockChain H} {b : Option (Block H)}
    (h : addBlock cc bc b = some (.ok bc')) :
    ∃ b' storage, b = some b' ∧ isValidBlock cc bc (some b') = some (.ok ()) ∧
      bc.storage.addBlock b' = some storage ∧
      bc' = { bc with
              currentBlock := b'
              storage := storage
              txpool := bc.txpool.removeTxs b'.body } := by
  rw [addBlock] at h
  obtain ⟨verdict, hv, hres⟩ := Option.map_eq_some_iff.mp h
  rcases verdict with e | u
  · cases hres
  · rcases b with _ | b'
    · cases hres
    · dsimp only at hres
      rcases hs : bc.storage.addBlock b' with _ | storage
      · rw [hs] at hres
        cases hres
      · rw [hs] at hres
        exact ⟨b', storage, rfl, hv, hs, (Except.ok.inj hres).symm⟩

/-- A valid block over a storage that refuses writes is not inserted. -/
theorem addBlock_of_refused {bc : BlockChain H} {b : Block H}
    (hv : isValidBlock cc bc (some b) = some (.ok ())) (hs : bc.storage.addBlock b = none) :
    addBlock cc bc (some b) = some (.error .storeBlock) := by
  rw [addBlock, hv, Option.map_some]
  dsimp only
  rw [hs]

/-- A valid block over a storage that accepts writes is inserted. -/
theorem addBlock_of_valid {bc : BlockChain H} {b : Block H} {storage : Storage H}
    (hv : isValidBlock cc bc (some b) = some (.ok ()))
    (hs : bc.storage.addBlock b = some storage) :
    addBlock cc bc (some b) =
      some (.ok { bc with
                  currentBlock := b
                  storage := storage
                  txpool := bc.txpool.removeTxs b.body }) := by
  rw [addBlock, hv, Option.map_some]
  dsimp only
  rw [hs]

/-- What the installation of accounts changes: a block without transactions on
top of the chain. -/
theorem addAccounts_eq_some {bc bc' : BlockChain H} {ac : List Address}
    {as : List AccountState} (h : addAccounts cc bc ac as = some bc') :
    ∃ b storage, b.body = [] ∧ b.header.number = bc.currentBlock.header.number + 1 ∧
      b.header.parentBlockHash = bc.currentBlock.hash ∧
      b.hash = cc.hash.headerHash b.header ∧ bc.storage.addBlock b = some storage ∧
      installAccounts cc bc ac as bc.currentBlock.header.stateRoot =
        some b.header.stateRoot ∧
      bc' = { bc with currentBlock := b, storage := storage } := by
  rw [addAccounts] at h
  obtain ⟨rt, hrt, h⟩ := Option.bind_eq_some_iff.mp h
  obtain ⟨storage, hs, rfl⟩ := Option.map_eq_some_iff.mp h
  exact ⟨_, storage, rfl, rfl, rfl, rfl, hs, hrt, rfl⟩

omit [DecidableEq H] in
/-- Packing splits the queue. -/
theorem packForBlock_append (cc : ChainConfig H) (bc : BlockChain H) :
    (packForBlock cc bc).1 ++ (packForBlock cc bc).2.txQueue = bc.txpool.txQueue := by
  rw [packForBlock]
  split
  · exact TxPool.packTxs_append _ _
  · exact TxPool.packTxs_append _ _

/-- **A proposal is valid**: what `GenerateBlock` returns passes `IsValidBlock`
on the chain it leaves behind. -/
theorem isValidBlock_generateBlock {bc bc' : BlockChain H} {miner : ℕ} {now : Time}
    {b : Block H} (h : generateBlock cc bc miner now = some (b, bc')) :
    isValidBlock cc bc' (some b) = some (.ok ()) := by
  obtain ⟨hbody, hnum, hpar, -, -, hhash, hst, hroot, rfl⟩ := generateBlock_eq_some h
  obtain ⟨hnd, hall⟩ := filterFresh_spec bc.storage (packForBlock cc bc).1 ∅
  refine isValidBlock_eq_ok.mpr ⟨hnum, hpar, hroot, hhash.symm, ?_, ?_⟩
  · exact checkBody_eq_ok.mpr ⟨_, hbody, hnd, fun tx htx => (hall tx htx).2⟩
  · rw [← hst]
    refine getUpdateStatusTrie_congr ?_ ?_ b.body
    · rfl
    · rfl

end BlockChain

end BlockEmulator
