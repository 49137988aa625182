import BlockEmulator.Balances
import BlockEmulator.RelayNet

/-!
# What relay shards hold together

A transaction between two shards is paid in one and credited in the other, where its
second phase is due. The leader of the first shard sends it for every transaction of
the block, also for those that execution has skipped because the sender cannot pay.

* `NetSound.value_commit` — **a commit creates what it sends out unpaid**, and nothing
  else changes what all shards hold together.
* `value_conserved` — so in every run the value is the same in all states exactly where
  every block that is committed pays for what it sends out.
* `value_created` — a transaction that its sender cannot pay is credited all the same.
-/

namespace BlockEmulator

open Accounting StepSystem

variable {H : Type} [DecidableEq H]

/-- The amounts that wait in a pool to be credited: of second phases that are not
executed. -/
def BlockChain.waiting (bc : BlockChain H) : ℤ :=
  ((bc.pooled.filter fun tx => tx.txHash ∉ bc.storage.executedTransaction).map inflow).sum

namespace NetState

variable (sys : RelaySystem H)

/-- What an address has in the shard where it is at home. -/
def homeBalance (s : NetState H) (a : Address) : ℤ :=
  balanceOf (s.chains (sys.place a)).currentBlock.header.stateRoot a

/-- What all shards hold together: the accounts at home, the second phases under way,
and those that are pooled. -/
def value (s : NetState H) : ℤ :=
  ∑ a ∈ sys.addresses, s.homeBalance sys a + (s.sent.map inflow).sum +
    total sys.shardNums (fun _ bc => bc.waiting) s.chains

/-- No account is in debt. -/
def Solvent (s : NetState H) : Prop :=
  ∀ k a, 0 ≤ balanceOf (s.chains k).currentBlock.header.stateRoot a

end NetState

/-- Whether a step pays for what it sends out. -/
def NetAction.Funded (sys : RelaySystem H) (s : NetState H) : NetAction → Prop
  | .commit sid _ _ _ =>
    AllFunded sys.place sid (balanceOf (s.chains sid).currentBlock.header.stateRoot)
      (BlockChain.filterFreshTransactions (s.chains sid)
        (BlockChain.packForBlock (sys.cc sid) (s.chains sid)).1)
  | _ => True

instance (sys : RelaySystem H) (s : NetState H) (a : NetAction) : Decidable (a.Funded sys s) :=
  match a with
  | .inject .. => inferInstanceAs (Decidable True)
  | .commit .. => inferInstanceAs (Decidable (AllFunded ..))
  | .deliver _ => inferInstanceAs (Decidable True)

variable {sys : RelaySystem H} {s t : NetState H} {a : NetAction}

omit [DecidableEq H] in
theorem Transaction.Regular.amount_nonneg {tx : Transaction} (h : tx.Regular sys) :
    0 ≤ tx.amount := by
  obtain ⟨v, hv, hle⟩ := h.value
  rw [Transaction.amount, hv, Option.getD_some]
  exact hle

omit [DecidableEq H] in
theorem NetState.Solvent.start : (NetState.start sys).Solvent := by
  intro k a
  have hgenesis : balanceOf (NetState.start sys |>.chains k).currentBlock.header.stateRoot a =
      initBalance := rfl
  rw [hgenesis, initBalance]
  decide

/-! ## How the value changes with one chain -/

omit [DecidableEq H] in
/-- The pool of a shard waits with all its second phases. -/
theorem NetSound.waiting_eq (hs : NetSound sys s) {k : ℕ} (hk : k < sys.shardNums) :
    (s.chains k).waiting = ((s.chains k).pooled.map inflow).sum := by
  rw [BlockChain.waiting, List.filter_eq_self.mpr]
  intro tx htx
  refine decide_eq_true fun hex => ?_
  exact (hs.fresh k hk tx htx k hex).2 rfl

omit [DecidableEq H] in
/-- How the value changes where one chain and the messages under way change. -/
theorem NetSound.value_update (hs : NetSound sys s) (ht : NetSound sys t) {k : ℕ}
    {bc : BlockChain H} {fl : List (ℕ × Relay)} {u : Finset Bytes} (hk : k < sys.shardNums)
    (h : t = { chains := Function.update s.chains k bc, flight := fl, used := u }) :
    t.value sys + ((s.chains k).pooled.map inflow).sum + (s.sent.map inflow).sum +
        held sys.addresses sys.place k (balanceOf (s.chains k).currentBlock.header.stateRoot) =
      s.value sys + (bc.pooled.map inflow).sum + (t.sent.map inflow).sum +
        held sys.addresses sys.place k (balanceOf bc.currentBlock.header.stateRoot) := by
  have hwait := total_update (fun _ bc => bc.waiting) s.chains hk bc
  have hnew : bc.waiting = (bc.pooled.map inflow).sum := by
    have hchain : t.chains k = bc := by rw [h]; exact Function.update_self ..
    rw [← hchain, ht.waiting_eq hk]
  have hhome := sum_home_update sys.addresses sys.place k
    (fun i => balanceOf (s.chains i).currentBlock.header.stateRoot)
    (balanceOf bc.currentBlock.header.stateRoot)
  have hsame : ∀ a, t.homeBalance sys a =
      Function.update (fun i => balanceOf (s.chains i).currentBlock.header.stateRoot) k
        (balanceOf bc.currentBlock.header.stateRoot) (sys.place a) a := by
    intro a
    rw [h, NetState.homeBalance]
    dsimp only
    rcases eq_or_ne (sys.place a) k with hp | hp
    · rw [hp, Function.update_self, Function.update_self]
    · rw [Function.update_of_ne hp, Function.update_of_ne hp]
  have hchains : t.chains = Function.update s.chains k bc := by rw [h]
  rw [hs.waiting_eq hk, hnew] at hwait
  rw [NetState.value, NetState.value, Finset.sum_congr rfl fun a _ => hsame a, hchains]
  simp only [NetState.homeBalance] at hhome ⊢
  linarith only [hwait, hhome]

/-! ## What each step does to the value -/

omit [DecidableEq H] in
/-- Amounts that leave the messages under way. -/
theorem sum_sent_getElem {k : ℕ} {e : ℕ × Relay} (h : s.flight[k]? = some e) :
    (s.sent.map inflow).sum = (e.2.txs.map inflow).sum +
      (((s.flight.eraseIdx k).flatMap fun e => e.2.txs).map inflow).sum := by
  rw [← List.sum_append, ← List.map_append]
  exact (List.Perm.map _ (NetState.sent_perm h)).sum_eq

/-- What a block sends out is what goes out of its shard, where recipients have homes. -/
theorem sum_relayed (place : Address → ℕ) {n : ℕ} {packed : List Transaction} (sid seqID : ℕ)
    (h : ∀ tx ∈ packed, place tx.recipient < n) :
    (((((List.range n).filter (· ≠ sid)).map fun i =>
        (i, (⟨secondPhase place i packed, sid, seqID⟩ : Relay))).flatMap
          fun e => e.2.txs).map inflow).sum = (packed.map (outflow place sid)).sum := by
  have hsids : ((List.range n).filter (· ≠ sid)).Nodup := List.nodup_range.filter _
  have helse : packed.filter (fun tx => place tx.recipient ∈ (List.range n).filter (· ≠ sid)) =
      packed.filter fun tx => place tx.recipient ≠ sid := by
    refine List.filter_congr fun tx htx => ?_
    simp [h tx htx]
  rw [List.flatMap_map, ((secondPhase_perm place packed hsids).map inflow).sum_eq, List.map_map,
    helse, sum_outflow]
  rfl

namespace NetSound

/-- Injected transactions are in their first phase. -/
theorem value_inject (hs : NetSound sys s) {sid : ℕ} {txs : List Transaction}
    (h : s.step sys (.inject sid txs) = some t) : t.value sys = s.value sys := by
  have ht := hs.step h
  obtain ⟨⟨hk, -, hall⟩, rfl⟩ := NetState.step_inject h
  have hval := hs.value_update ht hk rfl
  have hzero : (txs.map inflow).sum = 0 := by
    refine List.sum_eq_zero fun v hv => ?_
    obtain ⟨tx, htx, rfl⟩ := List.mem_map.mp hv
    rw [inflow, (hall tx htx).2.1]
    exact if_neg Bool.false_ne_true
  rw [BlockChain.received_pooled (hs.queue sid), BlockChain.received_currentBlock,
    List.map_append, List.sum_append, hzero] at hval
  simp only [NetState.sent] at hval
  linarith only [hval]

/-- What arrives waits in a pool as it was under way. -/
theorem value_deliver (hs : NetSound sys s) {k : ℕ} (h : s.step sys (.deliver k) = some t) :
    t.value sys = s.value sys := by
  have ht := hs.step h
  obtain ⟨e, he, rfl⟩ := NetState.step_deliver h
  have hval := hs.value_update ht (hs.dest e (List.mem_of_getElem? he)) rfl
  rw [BlockChain.received_pooled (hs.queue e.1), BlockChain.received_currentBlock,
    List.map_append, List.sum_append, sum_sent_getElem he] at hval
  simp only [NetState.sent] at hval
  linarith only [hval]

/-- **A commit creates what it sends out unpaid.** -/
theorem value_commit (hs : NetSound sys s) {sid miner seqID : ℕ} {now : Time}
    (h : s.step sys (.commit sid miner seqID now) = some t) :
    t.value sys = s.value sys +
      minted sys.place sid (balanceOf (s.chains sid).currentBlock.header.stateRoot)
        (BlockChain.filterFreshTransactions (s.chains sid)
          (BlockChain.packForBlock (sys.cc sid) (s.chains sid)).1) := by
  have ht := hs.step h
  obtain ⟨hk, bc, packed, rest, hst, htxs, hqueue, -, -, hfilter, hroot⟩ := hs.step_commit h
  have hval := hs.value_update ht hk hst
  have hall : ∀ tx ∈ packed, tx.Regular sys ∧ tx.Placed sys.place sid :=
    fun tx htx => hs.pooled sid hk tx (htxs ▸ List.mem_append_left _ htx)
  have hexec := BlockChain.getUpdateStatusTrie_balanceOf (fun tx htx => (hall tx htx).1.hasBroker)
    hroot
  rw [sys.getPartitionMap_eq (hs.placed sid), sys.cc_shardID] at hexec
  have hheld := held_foldl_settle (balanceOf (s.chains sid).currentBlock.header.stateRoot)
    fun tx htx => ⟨(hall tx htx).1.sender, (hall tx htx).1.recipient, (hall tx htx).2⟩
  have hout := sum_relayed sys.place sid seqID fun tx htx => (hall tx htx).1.home
  have hpool : bc.pooled = rest := BlockChain.pooled_eq hqueue
  have hsent : (t.sent.map inflow).sum =
      (s.sent.map inflow).sum + (packed.map (outflow sys.place sid)).sum := by
    rw [hst, ← hout, NetState.sent, List.flatMap_append, List.map_append, List.sum_append]
    rfl
  rw [htxs, hpool, hsent, List.map_append, List.sum_append, hexec] at hval
  rw [hfilter]
  linarith only [hval, hheld]

/-- Nothing but a commit changes accounts, and it leaves nobody in debt. -/
theorem solvent_step (hs : NetSound sys s) (hsol : s.Solvent) (h : s.step sys a = some t) :
    t.Solvent := by
  have hreceived : ∀ k txs fl u,
      (⟨Function.update s.chains k ((s.chains k).received txs), fl, u⟩ : NetState H).Solvent := by
    intro k txs fl u i a
    dsimp only
    rw [Function.update_apply]
    split
    · exact hsol k a
    · exact hsol i a
  cases a with
  | inject sid txs =>
    obtain ⟨-, rfl⟩ := NetState.step_inject h
    exact hreceived _ _ _ _
  | deliver k =>
    obtain ⟨e, -, rfl⟩ := NetState.step_deliver h
    exact hreceived _ _ _ _
  | commit sid miner seqID now =>
    obtain ⟨hk, bc, packed, rest, rfl, htxs, -, -, -, -, hroot⟩ := hs.step_commit h
    intro i b
    dsimp only
    rw [Function.update_apply]
    split
    · have hall : ∀ tx ∈ packed, tx.Regular sys :=
        fun tx htx => (hs.pooled sid hk tx (htxs ▸ List.mem_append_left _ htx)).1
      rw [BlockChain.getUpdateStatusTrie_balanceOf (fun tx htx => (hall tx htx).hasBroker) hroot]
      exact foldl_settle_nonneg (hsol sid) (fun tx htx => (hall tx htx).amount_nonneg) b
    · exact hsol i b

/-- **A step keeps the value exactly where it pays for what it sends out.** -/
theorem value_step_iff (hs : NetSound sys s) (hsol : s.Solvent) (h : s.step sys a = some t) :
    t.value sys = s.value sys ↔ a.Funded sys s := by
  cases a with
  | inject sid txs => exact iff_of_true (hs.value_inject h) trivial
  | deliver k => exact iff_of_true (hs.value_deliver h) trivial
  | commit sid miner seqID now =>
    obtain ⟨hk, bc, packed, rest, -, htxs, -, -, -, hfilter, -⟩ := hs.step_commit h
    have hall : ∀ tx ∈ packed, 0 ≤ tx.amount := fun tx htx =>
      (hs.pooled sid hk tx (htxs ▸ List.mem_append_left _ htx)).1.amount_nonneg
    rw [hs.value_commit h, add_eq_left, NetAction.Funded, hfilter]
    exact minted_eq_zero_iff (hsol sid) hall

end NetSound

/-- **Relay shards conserve value exactly where they pay for what they send out**: in
every run of every system, the accounts at home and the second phases under way or
pooled hold together in every state what they held at the start, if and only if every
block that is committed debits each of its transactions to other shards. -/
theorem value_conserved (sys : RelaySystem H) (as : List NetAction) :
    AllStates (NetState.step sys) (fun s => s.value sys = (NetState.start sys).value sys)
        (NetState.start sys) as ↔
      AllSteps (NetState.step sys) (fun s a => a.Funded sys s) (NetState.start sys) as := by
  refine allStates_iff_allSteps (fun s => NetSound sys s ∧ s.Solvent) ?_ ?_ as _
    ⟨.start, .start⟩ rfl
  · intro s a t ⟨hs, hsol⟩ _ _ h
    exact ⟨hs.step h, hs.solvent_step hsol h⟩
  · intro s a t ⟨hs, hsol⟩ hval h
    rw [← hval]
    exact hs.value_step_iff hsol h

/-! ## Two shards -/

/-- Two relay shards: `a` is at home in shard 0, `b` in shard 1. -/
def twoShards : RelaySystem FreeHash :=
  { chainConfig := fourNodesChain, placement := fun _ => none, addresses := {"a", "b"} }

/-- A transaction is injected, committed in shard 0, relayed, committed in shard 1. -/
def crossRun (tx : Transaction) : List NetAction :=
  [.inject 0 [tx], .commit 0 0 1 0, .deliver 0, .commit 1 0 1 0]

/-- What `a` can pay arrives at `b`. -/
example : ((runWith (NetState.step twoShards) (fun s a => a.Funded twoShards s)
    (NetState.start twoShards) (crossRun crossTransaction)).any fun s =>
      decide (s.homeBalance twoShards "b" = initBalance + 5)) = true := by
  decide +kernel

/-- More than `a` has, from `a` to `b`. -/
def overdrawn : Transaction :=
  { crossTransaction with value := some (initBalance + 1) }

/-- **Value out of nothing**: the sender cannot pay, the recipient is credited. -/
theorem value_created :
    ¬ ∀ as, AllStates (NetState.step twoShards)
      (fun s => s.value twoShards = (NetState.start twoShards).value twoShards)
      (NetState.start twoShards) as := by
  intro h
  obtain ⟨t, heq, hne⟩ := (h (crossRun overdrawn)).exists_of_runWith
    (Q := fun t => t.value twoShards ≠ (NetState.start twoShards).value twoShards)
    (by decide +kernel)
  exact hne heq

end BlockEmulator
