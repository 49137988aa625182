import BlockEmulator.BlockExecution
import BlockEmulator.Replay

/-!
# Blocks from peers that stop a node

A peer can send any block. Two places of the source take for granted what was not
checked before:

* `IsValidBlock` computes the transaction root before it looks for nil transactions, and
  executes the body without looking for nil amounts. `isValidBlock_isSome_iff` says
  **where there is a verdict**.
* The leader relays the second phases of an inserted block and panics over a transaction
  in the wrong shard, which validation does not look at. `handleinCommit_done_iff` says
  **where the leader goes on**.
-/

namespace BlockEmulator

open StepSystem

variable {H : Type} {cc : ChainConfig H} {bc : BlockChain H}

/-! ## Verdicts -/

namespace BlockChain

/-- Whether a block is turned away before its body is read. -/
def TurnedAway (bc : BlockChain H) (b : Block H) : Prop :=
  b.header.number ≠ bc.currentBlock.header.number + 1 ∨
    b.header.parentBlockHash ≠ bc.currentBlock.hash

/-- Whether a body may be executed, as far as its hashes go. -/
def Fresh (s : Storage H) (txs : List Transaction) : Prop :=
  (txs.map (·.txHash)).Nodup ∧ ∀ tx ∈ txs, tx.txHash ≠ [] ∧ tx.txHash ∉ s.executedTransaction

/-- Whether a block is turned away before its transactions are executed. -/
def TurnedAwayUnexecuted (cc : ChainConfig H) (bc : BlockChain H) (b : Block H)
    (txs : List Transaction) : Prop :=
  (txs.map (·.txHash)).toFinset ≠ b.header.txRoot ∨ cc.hash.headerHash b.header ≠ b.hash ∨
    ¬ Fresh bc.storage txs

/-- Whether a block can be judged: where its body is read it has no nil transaction, and
where it is executed it has every amount that is read. -/
def Judged (cc : ChainConfig H) (bc : BlockChain H) (b : Block H) : Prop :=
  bc.TurnedAway b ∨
    ∃ txs, b.body = txs.map some ∧
      (bc.TurnedAwayUnexecuted cc b txs ∨ ∀ tx ∈ txs, bc.Touches cc tx → tx.value.isSome = true)

theorem checkBody_map_some_iff {s : Storage H} {txs : List Transaction} :
    checkBody s (txs.map some) ∅ = .ok () ↔ Fresh s txs := by
  rw [checkBody_eq_ok]
  constructor
  · rintro ⟨ts, hts, hnd, hall⟩
    obtain rfl := List.map_injective_iff.mpr (Option.some_injective _) hts
    exact ⟨hnd, fun tx htx => ⟨(hall tx htx).1, (hall tx htx).2.2⟩⟩
  · rintro ⟨hnd, hall⟩
    exact ⟨txs, rfl, hnd, fun tx htx => ⟨(hall tx htx).1, Finset.notMem_empty _, (hall tx htx).2⟩⟩

variable [DecidableEq H]

/-- A block with a body without nil transactions, of the right height and parent. -/
theorem isValidBlock_isSome_of_next {b : Block H} {txs : List Transaction}
    (hnext : ¬ bc.TurnedAway b) (hb : b.body = txs.map some) :
    (bc.isValidBlock cc (some b)).isSome = true ↔
      (bc.TurnedAwayUnexecuted cc b txs ∨
        ∀ tx ∈ txs, bc.Touches cc tx → tx.value.isSome = true) := by
  obtain ⟨hnum, hpar⟩ := not_or.mp hnext
  rw [isValidBlock, if_neg hnum, if_neg hpar, hb, getTxTreeRoot_some, Option.bind_some, TurnedAwayUnexecuted]
  split
  · rename_i hroot
    exact iff_of_true rfl (.inl (.inl hroot))
  · rename_i hroot
    split
    · rename_i hhash
      exact iff_of_true rfl (.inl (.inr (.inl hhash)))
    · rename_i hhash
      cases hbody : checkBody bc.storage (txs.map some) ∅ with
      | error e =>
        have hstale : ¬ Fresh bc.storage txs := fun hf => by
          rw [checkBody_map_some_iff.mpr hf] at hbody
          cases hbody
        exact iff_of_true rfl (.inl (.inr (.inr hstale)))
      | ok u =>
        have hfresh : Fresh bc.storage txs := checkBody_map_some_iff.mp hbody
        have hno : ¬ ((txs.map (·.txHash)).toFinset ≠ b.header.txRoot ∨
            cc.hash.headerHash b.header ≠ b.hash ∨ ¬ Fresh bc.storage txs) := by
          rintro (h | h | h)
          · exact hroot h
          · exact hhash h
          · exact h hfresh
        rw [or_iff_right hno]
        dsimp only
        rw [Option.isSome_map, getUpdateStatusTrie_isSome_iff, List.forall_mem_map]
        refine forall₂_congr fun tx _ => ⟨?_, fun h => ⟨tx, rfl, h⟩⟩
        rintro ⟨t, ht, h⟩
        obtain rfl := Option.some.inj ht
        exact h

end BlockChain

variable [DecidableEq H]

/-- **Where there is a verdict**: on a nil block, and on the blocks that can be judged. -/
theorem isValidBlock_isSome_iff (cc : ChainConfig H) (bc : BlockChain H) (b : Option (Block H)) :
    (bc.isValidBlock cc b).isSome = true ↔ ∀ b' ∈ b, bc.Judged cc b' := by
  cases b with
  | none => exact iff_of_true rfl nofun
  | some b =>
    have hsome : (∀ b' ∈ some b, bc.Judged cc b') ↔ bc.Judged cc b :=
      ⟨fun h => h b rfl, fun h b' hb' => Option.some.inj hb' ▸ h⟩
    rw [hsome, BlockChain.Judged]
    by_cases haway : bc.TurnedAway b
    · refine iff_of_true ?_ (.inl haway)
      rw [BlockChain.isValidBlock]
      split
      · rfl
      · rename_i hnum
        rw [if_pos (haway.resolve_left hnum)]
        rfl
    · rw [or_iff_right haway]
      cases hbody : derefAll b.body with
      | none =>
        obtain ⟨hnum, hpar⟩ := not_or.mp haway
        refine iff_of_false ?_ ?_
        · rw [BlockChain.isValidBlock, if_neg hnum, if_neg hpar, getTxTreeRoot, hbody]
          exact Bool.false_ne_true
        · rintro ⟨txs, htxs, -⟩
          rw [htxs, derefAll_map_some] at hbody
          cases hbody
      | some txs =>
        have htxs := derefAll_eq_some hbody
        rw [BlockChain.isValidBlock_isSome_of_next haway htxs]
        refine ⟨fun h => ⟨txs, htxs, h⟩, ?_⟩
        rintro ⟨ts, hts, h⟩
        rw [htxs] at hts
        obtain rfl := List.map_injective_iff.mpr (Option.some_injective _) hts
        exact h

/-- Whether a process has a verdict on a block. -/
def Process.judges (cc : ChainConfig H) (b : Option (Block H)) : Process H → Bool
  | .up bc => (bc.isValidBlock cc b).isSome
  | .down _ => true

/-- The first block of shard 0, with a transaction without an amount. -/
def nilValueBlock : Block FreeHash :=
  { crossBlock with body := [some { crossTransaction with value := none }] }

/-- A chain just started has no verdict on it. -/
theorem isValidBlock_isSome_not :
    ¬ ∀ bc : BlockChain FreeHash,
      Reaches (Process.step fourNodesChain) (fun _ _ => True) Process.fresh (.up bc) →
        ∀ b, (bc.isValidBlock fourNodesChain b).isSome = true := by
  intro h
  obtain ⟨p, hr, hp⟩ := Reaches.exists_of_runWith
    (P := fun p => p.judges fourNodesChain (some nilValueBlock) = false) (show
      (runWith (Process.step fourNodesChain) (fun _ _ => True) Process.fresh
        [.restart ∅]).any _ = true by decide +kernel)
  cases p with
  | up bc =>
    have hsome := h bc hr (some nilValueBlock)
    rw [Process.judges, hsome] at hp
    cases hp
  | down file => cases hp

/-! ## The leader -/

/-- **Where the leader goes on** over an accepted block: exactly where every transaction
is in the shard of its phase. -/
theorem handleinCommit_done_iff (cc : ChainConfig H) (bc bc₁ : BlockChain H) (seqID : ℕ)
    (r : Request H) (b : Block H) (hr : r.content = some (some b))
    (hok : bc.addBlock cc (some b) = some (.ok bc₁)) :
    (∃ bc' outs, RawRelay.handleinCommit cc true seqID bc (some r) = .done bc' outs) ↔
      ∀ tx, some tx ∈ b.body → tx.Placed (bc.getPartitionMap cc) cc.shardID := by
  obtain ⟨b', storage, hb', hv, -, rfl⟩ := BlockChain.addBlock_eq_ok hok
  obtain rfl := Option.some.inj hb'
  obtain ⟨-, -, -, -, hbody, -⟩ := BlockChain.isValidBlock_eq_ok.mp hv
  obtain ⟨txs, htxs, -, -⟩ := BlockChain.checkBody_eq_ok.mp hbody
  have hmem : (∀ tx, some tx ∈ b.body → tx.Placed (bc.getPartitionMap cc) cc.shardID) ↔
      ∀ tx ∈ txs, tx.Placed (bc.getPartitionMap cc) cc.shardID := by
    rw [htxs]
    exact forall_congr' fun tx => imp_congr_left (List.mem_map_of_injective (Option.some_injective _))
  rw [hmem, RawRelay.handleinCommit, Option.bind_some, hr]
  dsimp only
  rw [hok]
  dsimp only
  rw [if_pos rfl]
  constructor
  · rintro ⟨bc', outs, hdone⟩
    split at hdone
    · cases hdone
    · rename_i bc'' outs' hrelay
      obtain ⟨ts, _, hts, hall, -, -⟩ := RawRelay.relayBlock_spec hrelay
      rw [htxs] at hts
      obtain rfl := List.map_injective_iff.mpr (Option.some_injective _) hts
      exact hall
  · intro hall
    -- relaying is all that can still panic
    have hsome : (RawRelay.relayBlock cc seqID { bc with
        currentBlock := b, storage := storage, txpool := bc.txpool.removeTxs b.body }
        b).isSome = true := RawRelay.relayBlock_isSome htxs hall
    obtain ⟨⟨bc'', outs⟩, hrelay⟩ := Option.isSome_iff_exists.mp hsome
    rw [hrelay]
    exact ⟨bc'', outs, rfl⟩

/-- Whether a block is accepted. -/
def BlockChain.accepts (cc : ChainConfig H) (bc : BlockChain H) (b : Block H) : Bool :=
  match bc.addBlock cc (some b) with
  | some (.ok _) => true
  | _ => false

theorem BlockChain.accepts_iff {b : Block H} :
    bc.accepts cc b = true ↔ ∃ bc₁, bc.addBlock cc (some b) = some (.ok bc₁) := by
  rw [accepts]
  split
  · rename_i bc₁ h
    exact iff_of_true rfl ⟨bc₁, h⟩
  · rename_i h
    exact iff_of_false Bool.false_ne_true fun ⟨bc₁, hok⟩ => h bc₁ hok

/-- The leader goes on over a payment to the other shard. -/
theorem handleinCommit_done_cross :
    ∃ bc₁, (genesisChain fourNodesChain).addBlock fourNodesChain (some crossBlock) =
        some (.ok bc₁) ∧
      ((∃ bc' outs, RawRelay.handleinCommit fourNodesChain true 0 (genesisChain fourNodesChain)
          (some ⟨.block, some (some crossBlock), 7⟩) = .done bc' outs) ↔
        ∀ tx, some tx ∈ crossBlock.body →
          tx.Placed ((genesisChain fourNodesChain).getPartitionMap fourNodesChain) 0) := by
  obtain ⟨bc₁, hok⟩ := BlockChain.accepts_iff.mp
    (show (genesisChain fourNodesChain).accepts fourNodesChain crossBlock = true by decide +kernel)
  exact ⟨bc₁, hok, handleinCommit_done_iff fourNodesChain _ bc₁ 0 _ crossBlock rfl hok⟩

/-- A first block of shard 0 with a first phase that belongs to shard 1. -/
def strayBlock : Block FreeHash :=
  let bh : BlockHeader FreeHash :=
    { parentBlockHash := (BlockChain.newGenisisBlock fourNodesChain).hash
      stateRoot := Finmap.insert "a" ⟨0, initBalance + 5⟩ ∅
      txRoot := {[1]}
      bloom := {1}
      number := 1
      time := 7
      miner := 0 }
  { header := bh, body := [some (newTransaction "b" "a" 5 0 [1])], hash := freeHash.headerHash bh }

/-- Whether a process accepts a block and stops over it as the leader. -/
def Process.stopsOver (cc : ChainConfig H) (b : Block H) : Process H → Bool
  | .up bc => bc.accepts cc b &&
    match RawRelay.handleinCommit cc true 0 bc (some ⟨.block, some (some b), 7⟩) with
    | .done _ _ => false
    | _ => true
  | .down _ => false

/-- A chain just started accepts it, and its leader stops. -/
theorem handleinCommit_stray :
    ¬ ∀ bc : BlockChain FreeHash,
      Reaches (Process.step fourNodesChain) (fun _ _ => True) Process.fresh (.up bc) →
        ∀ b, (∃ bc₁, bc.addBlock fourNodesChain (some b) = some (.ok bc₁)) →
          ∃ bc' outs, RawRelay.handleinCommit fourNodesChain true 0 bc
            (some ⟨.block, some (some b), 7⟩) = .done bc' outs := by
  intro h
  obtain ⟨p, hr, hp⟩ := Reaches.exists_of_runWith
    (P := fun p => p.stopsOver fourNodesChain strayBlock = true) (show
      (runWith (Process.step fourNodesChain) (fun _ _ => True) Process.fresh
        [.restart ∅]).any _ = true by decide +kernel)
  cases p with
  | up bc =>
    obtain ⟨hacc, hstop⟩ := Bool.and_eq_true_iff.mp hp
    obtain ⟨bc', outs, hdone⟩ := h bc hr strayBlock (BlockChain.accepts_iff.mp hacc)
    rw [hdone] at hstop
    cases hstop
  | down file => cases hp

end BlockEmulator
