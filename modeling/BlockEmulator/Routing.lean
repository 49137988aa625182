import BlockEmulator.RelayModule

/-!
# What the leader relays

The loop of `HandleinCommit` sorts the transactions of a block by the placements of
the node that runs it, and `RelayMsgSend` sends one message to every other shard.

* `secondPhase` — what a block makes due at a shard, by a placement of addresses.
* `relayBlock_spec` — **the messages are exactly what is due**: the shard `sid` gets
  `secondPhase` of the block, whatever else happens to its transactions.
* `relayBlock_isSome` — nothing but a transaction in the wrong shard stops it.
-/

namespace BlockEmulator

/-- The second phases of some transactions that are due at a shard. -/
def secondPhase (place : Address → ℕ) (sid : ℕ) (txs : List Transaction) : List Transaction :=
  (txs.filter fun tx => place tx.recipient = sid).map fun tx => { tx with relayed := true }

/-- Whether a transaction is in a shard where its phase belongs. -/
def Transaction.Placed (place : Address → ℕ) (shardID : ℕ) (tx : Transaction) : Prop :=
  (tx.relayed = false → place tx.sender = shardID) ∧
    (tx.relayed = true → place tx.recipient = shardID)

instance (place : Address → ℕ) (shardID : ℕ) (tx : Transaction) :
    Decidable (tx.Placed place shardID) :=
  inferInstanceAs (Decidable (_ ∧ _))

theorem mem_secondPhase {place : Address → ℕ} {sid : ℕ} {txs : List Transaction}
    {tx : Transaction} (h : tx ∈ txs) (hp : place tx.recipient = sid) :
    { tx with relayed := true } ∈ secondPhase place sid txs :=
  List.mem_map.mpr ⟨tx, List.mem_filter.mpr ⟨h, decide_eq_true hp⟩, rfl⟩

theorem secondPhase_cons_of_eq {place : Address → ℕ} {sid : ℕ} {tx : Transaction}
    (h : place tx.recipient = sid) (txs : List Transaction) :
    secondPhase place sid (tx :: txs) =
      { tx with relayed := true } :: secondPhase place sid txs := by
  simp [secondPhase, h]

theorem secondPhase_cons_of_ne {place : Address → ℕ} {sid : ℕ} {tx : Transaction}
    (h : place tx.recipient ≠ sid) (txs : List Transaction) :
    secondPhase place sid (tx :: txs) = secondPhase place sid txs := by
  simp [secondPhase, h]

/-- What is due at several shards together: the transactions with recipients there. -/
theorem secondPhase_perm (place : Address → ℕ) (txs : List Transaction) {sids : List ℕ}
    (h : sids.Nodup) :
    (sids.flatMap fun sid => secondPhase place sid txs).Perm
      ((txs.filter fun tx => place tx.recipient ∈ sids).map fun tx =>
        { tx with relayed := true }) := by
  induction sids with
  | nil => simp
  | cons sid sids ih =>
    obtain ⟨hsid, hnd⟩ := List.nodup_cons.mp h
    rw [List.flatMap_cons]
    refine ((ih hnd).append_left _).trans ?_
    rw [secondPhase, ← List.map_append]
    refine List.Perm.map _ ?_
    have hsplit := List.filter_append_perm (fun tx : Transaction => place tx.recipient = sid)
      (txs.filter fun tx => place tx.recipient ∈ sid :: sids)
    rw [List.filter_filter, List.filter_filter] at hsplit
    refine List.Perm.trans (List.Perm.of_eq ?_) hsplit
    congr 1
    · refine List.filter_congr fun tx _ => ?_
      by_cases htx : place tx.recipient = sid <;> simp [htx]
    · refine List.filter_congr fun tx _ => ?_
      by_cases htx : place tx.recipient = sid
      · simp [htx, hsid]
      · simp [htx]

/-- Each transaction is due in one of several shards at most. -/
theorem secondPhase_subperm (place : Address → ℕ) (txs : List Transaction) {sids : List ℕ}
    (h : sids.Nodup) :
    ((sids.flatMap fun sid => secondPhase place sid txs).map (·.txHash)).Subperm
      (txs.map (·.txHash)) := by
  refine ((secondPhase_perm place txs h).map (·.txHash)).subperm.trans ?_
  rw [List.map_map]
  exact (List.filter_sublist.map _).subperm

namespace RawRelay

variable {H : Type} {cc : ChainConfig H}

/-- The loop of `HandleinCommit` goes through exactly where every transaction is in
the shard of its phase; then each other shard is due its second phases, in order. -/
theorem routeTxs_eq_some {bc : BlockChain H} {body : List (Option Transaction)}
    {pool pool' : TxPool} {acc acc' : Routed} {f : ℕ → List Transaction}
    (h : routeTxs cc bc body pool acc = some (pool', acc')) (hf : pool.relayPool = some f) :
    ∃ txs, body = txs.map some ∧ (∀ tx ∈ txs, tx.Placed (bc.getPartitionMap cc) cc.shardID) ∧
      pool'.txQueue = pool.txQueue ∧
      ∃ f', pool'.relayPool = some f' ∧ ∀ sid, sid ≠ cc.shardID →
        f' sid = f sid ++ secondPhase (bc.getPartitionMap cc) sid txs := by
  induction body generalizing pool acc f with
  | nil =>
    cases h
    refine ⟨[], rfl, nofun, rfl, f, hf, fun sid _ => ?_⟩
    simp [secondPhase]
  | cons p body ih =>
    rcases p with _ | tx
    · cases h
    rw [routeTxs] at h
    split at h
    · cases h
    rename_i hsender
    split at h
    · cases h
    rename_i hrecipient
    have hplaced : tx.Placed (bc.getPartitionMap cc) cc.shardID :=
      ⟨fun hr => by by_contra hne; exact hsender ⟨hr, hne⟩,
        fun hr => by by_contra hne; exact hrecipient ⟨hr, hne⟩⟩
    have hcons : ∀ txs, (∀ t ∈ txs, t.Placed (bc.getPartitionMap cc) cc.shardID) →
        ∀ t ∈ tx :: txs, t.Placed (bc.getPartitionMap cc) cc.shardID := by
      intro txs hall t ht
      rcases List.mem_cons.mp ht with rfl | ht
      · exact hplaced
      · exact hall t ht
    split at h
    · -- its second phase is elsewhere
      rename_i hne
      rw [TxPool.addRelayTx, hf, Option.map_some, Option.bind_some] at h
      obtain ⟨txs, rfl, hall, hqueue, f', hf', hsid⟩ := ih h rfl
      refine ⟨tx :: txs, rfl, hcons txs hall, hqueue, f', hf', fun sid hs => ?_⟩
      rw [hsid sid hs]
      by_cases hto : bc.getPartitionMap cc tx.recipient = sid
      · rw [secondPhase_cons_of_eq hto, hto, Function.update_self, List.append_assoc]
        rfl
      · rw [secondPhase_cons_of_ne hto, Function.update_of_ne (Ne.symm hto)]
    · -- it stays here
      rename_i hhere
      have hhere : bc.getPartitionMap cc tx.recipient = cc.shardID := not_not.mp hhere
      have hskip : ∀ sid, sid ≠ cc.shardID → ∀ txs,
          secondPhase (bc.getPartitionMap cc) sid (tx :: txs) =
            secondPhase (bc.getPartitionMap cc) sid txs := by
        intro sid hs txs
        exact secondPhase_cons_of_ne (hhere ▸ Ne.symm hs) txs
      split at h
      · obtain ⟨txs, rfl, hall, hqueue, f', hf', hsid⟩ := ih h hf
        exact ⟨tx :: txs, rfl, hcons txs hall, hqueue, f', hf', fun sid hs => by
          rw [hsid sid hs, hskip sid hs]⟩
      · obtain ⟨txs, rfl, hall, hqueue, f', hf', hsid⟩ := ih h hf
        exact ⟨tx :: txs, rfl, hcons txs hall, hqueue, f', hf', fun sid hs => by
          rw [hsid sid hs, hskip sid hs]⟩

/-- The loop of `HandleinCommit` does not panic on transactions in their shards. -/
theorem routeTxs_isSome {bc : BlockChain H} {txs : List Transaction} {pool : TxPool}
    {acc : Routed} (hf : pool.relayPool.isSome = true)
    (h : ∀ tx ∈ txs, tx.Placed (bc.getPartitionMap cc) cc.shardID) :
    (routeTxs cc bc (txs.map some) pool acc).isSome = true := by
  induction txs generalizing pool acc with
  | nil => rfl
  | cons tx txs ih =>
    obtain ⟨hsender, hrecipient⟩ := h tx List.mem_cons_self
    have hrest : ∀ t ∈ txs, t.Placed (bc.getPartitionMap cc) cc.shardID :=
      fun t ht => h t (List.mem_cons_of_mem _ ht)
    rw [List.map_cons, routeTxs]
    split
    · rename_i hbad
      exact absurd (hsender hbad.1) hbad.2
    split
    · rename_i hbad
      exact absurd (hrecipient hbad.1) hbad.2
    split
    · obtain ⟨f, hf⟩ := Option.isSome_iff_exists.mp hf
      rw [TxPool.addRelayTx, hf, Option.map_some, Option.bind_some]
      exact ih rfl hrest
    · split
      · exact ih hf hrest
      · exact ih hf hrest

/-- **What the leader relays**: to every other shard the second phases of the block
that are due there; nothing else of its chain changes but the emptied relay pool. -/
theorem relayBlock_spec {seqID : ℕ} {bc bc' : BlockChain H} {b : Block H}
    {outs : List Outgoing} (h : relayBlock cc seqID bc b = some (bc', outs)) :
    ∃ txs info, b.body = txs.map some ∧
      (∀ tx ∈ txs, tx.Placed (bc.getPartitionMap cc) cc.shardID) ∧
      bc' = { bc with txpool := bc.txpool.clearRelayPool } ∧
      outs = ((List.range cc.shardNums).filter (· ≠ cc.shardID)).map (fun sid =>
          .relay sid ⟨secondPhase (bc.getPartitionMap cc) sid txs, cc.shardID, seqID⟩) ++
        [.blockInfo info] := by
  obtain ⟨pool, acc, hroute, rfl, rfl⟩ := relayBlock_eq_some h
  obtain ⟨txs, hbody, hall, hqueue, f', hf', hsid⟩ := routeTxs_eq_some hroute rfl
  have hpool : pool.clearRelayPool = bc.txpool.clearRelayPool := by
    rw [TxPool.clearRelayPool, TxPool.clearRelayPool, hqueue]
  have hsent : (relayMsgSend cc seqID pool).1 =
      ((List.range cc.shardNums).filter (· ≠ cc.shardID)).map fun sid =>
        .relay sid ⟨secondPhase (bc.getPartitionMap cc) sid txs, cc.shardID, seqID⟩ := by
    rw [relayMsgSend]
    refine List.map_congr_left fun sid hs => ?_
    have hne : sid ≠ cc.shardID := by simpa using (List.mem_filter.mp hs).2
    rw [hf', Option.map_some, Option.getD_some, hsid sid hne, List.nil_append]
  rw [hpool, hsent]
  exact ⟨txs, _, hbody, hall, rfl, rfl⟩

/-- The leader relays every block whose transactions are in their shards. -/
theorem relayBlock_isSome {seqID : ℕ} {bc : BlockChain H} {b : Block H}
    {txs : List Transaction} (hb : b.body = txs.map some)
    (h : ∀ tx ∈ txs, tx.Placed (bc.getPartitionMap cc) cc.shardID) :
    (relayBlock cc seqID bc b).isSome = true := by
  rw [relayBlock, Option.isSome_map, hb]
  exact routeTxs_isSome rfl h

end RawRelay

end BlockEmulator
