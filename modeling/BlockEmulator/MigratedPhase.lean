import BlockEmulator.ClpaNet

/-!
# Second phases and the replay guard

Both phases of a transaction carry one hash, and the index of a shard is by hashes. A
second phase that migrates to the shard that has executed the first looks like a replay
there: the proposal filter drops it, and a block with it is invalid.

* `second_phases_welcome` — **without such a return no second phase is turned away** in
  any reachable state of any number of shards.
* `second_phase_dropped` — an account that moves from shard 1 to shard 0 takes its
  pending credit along, and the credit is dropped.
-/

namespace BlockEmulator

open StepSystem

variable {H : Type} [DecidableEq H]

/-- Whether the replay guard lets a pooled transaction pass. -/
structure BlockChain.Welcomes (bc : BlockChain H) (tx : Transaction) : Prop where
  /-- the proposal filter keeps it wherever it is packed -/
  kept : ∀ packed, packed <+: bc.txpool.txQueue → some tx ∈ packed →
    tx ∈ bc.filterFreshTransactions packed
  /-- a body that `IsValidBlock` lets pass does so with this transaction added -/
  valid : ∀ body, checkBody bc.storage body ∅ = .ok () → tx.txHash ∉ txHashes body →
    checkBody bc.storage (body ++ [some tx]) ∅ = .ok ()

omit [DecidableEq H] in
/-- A fresh pool is let pass. -/
theorem FreshPool.welcomes {bc : BlockChain H} {txs : List Transaction} (h : FreshPool bc txs)
    {tx : Transaction} (htx : tx ∈ txs) : bc.Welcomes tx where
  kept packed hpre hmem := by
    rw [h.queue] at hpre
    obtain ⟨txs', hpre', rfl⟩ : ∃ txs', txs' <+: txs ∧ packed = txs'.map some := by
      obtain ⟨rest, hrest⟩ := hpre
      obtain ⟨txs', rest', rfl, rfl, -⟩ := List.map_eq_append_iff.mp hrest.symm
      exact ⟨txs', List.prefix_append _ _, rfl⟩
    have hkept : BlockChain.filterFresh bc.storage (txs'.map some) ∅ = txs' :=
      BlockChain.filterFresh_eq_self bc.storage (h.nodup.sublist (hpre'.sublist.map _))
        fun t ht => ⟨(h.fresh t (hpre'.subset ht)).1, Finset.notMem_empty _,
          (h.fresh t (hpre'.subset ht)).2⟩
    rw [BlockChain.filterFreshTransactions, hkept]
    simpa using hmem
  valid body hbody hnew := by
    obtain ⟨txs', rfl, hnd, hall⟩ := BlockChain.checkBody_eq_ok.mp hbody
    rw [txHashes_map_some] at hnew
    refine BlockChain.checkBody_eq_ok.mpr ⟨txs' ++ [tx], by simp, ?_, fun t ht => ?_⟩
    · rw [List.map_append, List.nodup_append]
      refine ⟨hnd, List.nodup_singleton _, fun b hb b' hb' heq => hnew ?_⟩
      rw [List.map_singleton, List.mem_singleton] at hb'
      rwa [← hb', ← heq]
    · rcases List.mem_append.mp ht with ht | ht
      · exact hall t ht
      · obtain rfl := List.mem_singleton.mp ht
        exact ⟨(h.fresh t htx).1, Finset.notMem_empty _, (h.fresh t htx).2⟩

/-- Whether the replay guard turns no second phase away: no pooled one whose recipient
is at home in the shard and has not been credited. -/
def SecondPhasesWelcome (cc : ChainConfig H) (s : ClpaState H) : Prop :=
  ∀ k < cc.shardNums, ∀ tx, some tx ∈ (s.nodes k).curChain.txpool.txQueue → tx.relayed = true →
    (s.nodes k).curChain.getPartitionMap (cc.ofShard k) tx.recipient = k →
      tx.txHash ∉ s.credited → (s.nodes k).curChain.Welcomes tx

/-- **No second phase is dropped as a replay** where none returns to the shard of the
first: in every run of any number of shards whose transfers meet the condition. -/
theorem second_phases_welcome (cc : ChainConfig H) {s : ClpaState H}
    (hr : Reaches (ClpaState.step cc) (fun s a => a.NoReturn s) (ClpaState.start cc) s) :
    SecondPhasesWelcome cc s := by
  have hs : ClpaSound cc.shardNums s := hr.invariant (ClpaSound cc.shardNums) .start
    fun s a t hs hok h => hs.step hok h
  intro k hk tx htx _ _ _
  rw [hs.queue k] at htx
  exact (hs.freshPool hk).welcomes (by simpa using htx)

/-! ## Two shards -/

/-- An account moves to a shard. -/
def moveAccount (addr : Address) (k : ℕ) : PartitionModified := AList.insert addr k ∅

/-- The transaction from `a` in shard 0 to `b` in shard 1 is committed and relayed. -/
def firstPhaseRun : List ClpaAction :=
  [.inject 0 [crossTransaction], .commit 0 0 7, .deliver 0]

/-- An epoch of two shards ends with new placements. -/
def epochRun (m : PartitionModified) : List ClpaAction :=
  [.repartition m, .deliver 0, .deliver 0, .ready 0, .ready 1, .deliver 0, .deliver 0,
    .sendAccounts 0, .sendAccounts 1, .deliver 0, .deliver 0, .transfer 0, .transfer 1]

/-- The second phase of the transaction. -/
def crossSecondPhase : Transaction := { crossTransaction with relayed := true }

/-- Whether the second phase is pooled in a shard where it is to be executed. -/
def SecondPhasePooled (k : ℕ) (s : ClpaState FreeHash) : Prop :=
  some crossSecondPhase ∈ (s.nodes k).curChain.txpool.txQueue ∧
    (s.nodes k).curChain.getPartitionMap (fourNodesChain.ofShard k) "b" = k ∧
      crossSecondPhase.txHash ∉ s.credited

instance (k : ℕ) : DecidablePred (SecondPhasePooled k) :=
  fun _ => inferInstanceAs (Decidable (_ ∧ _ ∧ _))

/-- The sender moves to shard 1, where the second phase waits. -/
theorem second_phases_welcome_move :
    ∃ s, SecondPhasePooled 1 s ∧ (s.nodes 1).curChain.Welcomes crossSecondPhase := by
  have hend : ((runWith (ClpaState.step fourNodesChain) (fun s a => a.NoReturn s)
      (ClpaState.start fourNodesChain) (firstPhaseRun ++ epochRun (moveAccount "a" 1))).any
        fun s => decide (SecondPhasePooled 1 s)) = true := by
    decide +kernel
  obtain ⟨s, hr, hs⟩ := Reaches.exists_of_runWith hend
  exact ⟨s, hs, second_phases_welcome fourNodesChain hr 1 (by decide) crossSecondPhase hs.1 rfl
    hs.2.1 hs.2.2⟩

/-- **A credit that is dropped**: the recipient moves to the shard of the sender, and
its pending second phase with it. -/
theorem second_phase_dropped :
    ¬ ∀ s, Reaches (ClpaState.step fourNodesChain) (fun _ _ => True)
      (ClpaState.start fourNodesChain) s → SecondPhasesWelcome fourNodesChain s := by
  intro h
  have hend : ((runWith (ClpaState.step fourNodesChain) (fun _ _ => True)
      (ClpaState.start fourNodesChain) (firstPhaseRun ++ epochRun (moveAccount "b" 0))).any
        fun s => decide (SecondPhasePooled 0 s ∧
          crossSecondPhase ∉ (s.nodes 0).curChain.filterFreshTransactions
            (s.nodes 0).curChain.txpool.txQueue)) = true := by
    decide +kernel
  obtain ⟨s, hr, hs, hdropped⟩ := Reaches.exists_of_runWith hend
  have hwelcome := h s hr 0 (by decide) crossSecondPhase hs.1 rfl hs.2.1 hs.2.2
  exact hdropped (hwelcome.kept _ (List.prefix_refl _) hs.1)

end BlockEmulator
