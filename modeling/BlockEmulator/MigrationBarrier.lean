import BlockEmulator.MigratedPhase
import BlockEmulator.RoundBarrier

/-!
# The barrier before a migration

A leader that is ready for new placements tells the others its sequence number. It goes on
when it has heard all of them, and the last Relay message it has handled from each shard
is the last one before that number. The leaders are the parties of a `RoundBarrier`
(`ClpaState.barrier`): whatever is delayed, what a leader has heard is of this epoch.

The sequence numbers do not see two kinds of Relay messages: those of a shard that the
leader has had none from, and those that a later one has overtaken.

* `BarrierSound.step` — what every step keeps.
* `migration_barrier` — **what is still under way** where the barrier opens.
* `barrier_opens_early` — the two kinds.
-/

namespace BlockEmulator

open StepSystem RoundBarrier

variable {H : Type} [DecidableEq H]

/-! ## Messages under way -/

/-- Whether this is the announcement of a shard. -/
def ClpaMessage.isReady (j : ℕ) : ClpaMessage → Bool
  | .partitionReady sid _ => sid = j
  | _ => false

/-- Whether these are the accounts of a shard. -/
def ClpaMessage.isAccounts (j : ℕ) : ClpaMessage → Bool
  | .accountStateAndTx ast => ast.fromShard = j
  | _ => false

/-- The shard that sent a message, if a shard did. -/
def ClpaMessage.fromShard : ClpaMessage → Option ℕ
  | .relay m => some m.senderShardID
  | .partitionMsg _ => none
  | .accountStateAndTx ast => some ast.fromShard
  | .partitionReady sid _ => some sid

/-- The number of messages of a kind under way to a shard. -/
def underWay (fl : List (ℕ × ClpaMessage)) (p : ClpaMessage → Bool) (k : ℕ) : ℕ :=
  fl.countP fun e => decide (e.1 = k) && p e.2

theorem underWay_append (fl fl' : List (ℕ × ClpaMessage)) (p : ClpaMessage → Bool) (k : ℕ) :
    underWay (fl ++ fl') p k = underWay fl p k + underWay fl' p k :=
  List.countP_append

/-- No message of the kind is there. -/
theorem underWay_eq_zero {fl : List (ℕ × ClpaMessage)} {p : ClpaMessage → Bool}
    (h : ∀ e ∈ fl, p e.2 = false) (k : ℕ) : underWay fl p k = 0 := by
  rw [underWay, List.countP_eq_zero]
  intro e he
  simp [h e he]

/-- All messages are of the kind: they go where they go. -/
theorem underWay_eq_count {fl : List (ℕ × ClpaMessage)} {p : ClpaMessage → Bool}
    (h : ∀ e ∈ fl, p e.2 = true) (k : ℕ) : underWay fl p k = (fl.map (·.1)).count k := by
  rw [underWay, List.count, List.countP_map]
  refine List.countP_congr fun e he => ?_
  simp [h e he]

/-- A message arrives: the others are under way. -/
theorem underWay_eraseIdx {fl : List (ℕ × ClpaMessage)} {i : ℕ} {e : ℕ × ClpaMessage}
    (h : fl[i]? = some e) (p : ClpaMessage → Bool) (k : ℕ) :
    underWay fl p k =
      underWay (fl.eraseIdx i) p k + if e.1 = k ∧ p e.2 = true then 1 else 0 := by
  obtain ⟨hi, rfl⟩ := List.getElem?_eq_some_iff.mp h
  rw [underWay, ← (List.getElem_cons_eraseIdx_perm hi).countP_eq, List.countP_cons]
  simp [underWay]

theorem underWay_pos {fl : List (ℕ × ClpaMessage)} {p : ClpaMessage → Bool} {k : ℕ}
    {m : ClpaMessage} (h : (k, m) ∈ fl) (hp : p m = true) : 0 < underWay fl p k :=
  List.countP_pos_iff.mpr ⟨(k, m), h, by simpa using hp⟩

omit [DecidableEq H] in
theorem mem_otherShards {cc : ChainConfig H} {i k : ℕ} :
    k ∈ ClpaNode.otherShards (cc.ofShard i) ↔ k < cc.shardNums ∧ k ≠ i := by
  rw [ClpaNode.otherShards, List.mem_filter, List.mem_range]
  exact and_congr_right fun _ => decide_eq_true_iff

omit [DecidableEq H] in
/-- One message to every other shard. -/
theorem count_otherShards (cc : ChainConfig H) (i k : ℕ) :
    (ClpaNode.otherShards (cc.ofShard i)).count k =
      if k ∈ Finset.range cc.shardNums ∧ k ≠ i then 1 else 0 := by
  have hnd : (ClpaNode.otherShards (cc.ofShard i)).Nodup := List.nodup_range.filter _
  simp [hnd.count, mem_otherShards]

/-! ## What leaders send -/

/-- What a round relays: one message to every other shard, with the sequence number. -/
theorem leaderRound_relays {cc : ChainConfig H} {miner seqID : ℕ} {now : Time}
    {bc bc' : BlockChain H} {relays : List (ℕ × Relay)}
    (h : leaderRound cc miner seqID now bc = some (bc', relays)) :
    ∀ e ∈ relays, e.1 ∈ ClpaNode.otherShards cc ∧ e.2.senderShardID = cc.shardID ∧
      e.2.senderSeq = seqID := by
  rw [leaderRound] at h
  obtain ⟨⟨r, bc₁⟩, -, h⟩ := Option.bind_eq_some_iff.mp h
  dsimp only at h
  split at h
  · rename_i bc₂ outs hcm
    obtain ⟨rfl, rfl⟩ := Prod.mk.inj (Option.some.inj h)
    obtain ⟨b, bc₃, -, -, ⟨-, hrelay⟩ | ⟨hm, -, -⟩⟩ := RawRelay.handleinCommit_eq_done hcm
    · obtain ⟨txs, info, -, -, -, rfl⟩ := RawRelay.relayBlock_spec hrelay
      intro e he
      obtain ⟨o, ho, hoe⟩ := List.mem_filterMap.mp he
      rcases List.mem_append.mp ho with ho | ho
      · obtain ⟨sid, hsid, rfl⟩ := List.mem_map.mp ho
        obtain rfl := Option.some.inj hoe
        exact ⟨hsid, rfl, rfl⟩
      · rw [List.mem_singleton] at ho
        subst ho
        cases hoe
    · cases hm
  · cases h

namespace ClpaNode

variable {cc : ChainConfig H} {nd nd' : ClpaNode H}

omit [DecidableEq H] in
/-- What a leader sends to another shard: the accounts that are placed there. -/
theorem sendToShards_mem {m : PartitionModified} {fetched : List (Address × AccountState)}
    {is : List ℕ} {queue rest : List (Option Transaction)} {msgs : List (ℕ × ClpaMessage)}
    (h : sendToShards cc m fetched is queue = some (msgs, rest)) :
    msgs.map (·.1) = is ∧ ∀ e ∈ msgs, ∃ txs, e.2 = .accountStateAndTx
      ⟨(fetched.filter fun a => m.get a.1 = e.1).map (·.1),
        (fetched.filter fun a => m.get a.1 = e.1).map (·.2), cc.shardID, txs⟩ := by
  induction is generalizing queue rest msgs with
  | nil =>
    obtain ⟨rfl, rfl⟩ := Prod.mk.inj (Option.some.inj h)
    exact ⟨rfl, fun e he => absurd he List.not_mem_nil⟩
  | cons i is ih =>
    rw [sendToShards] at h
    obtain ⟨⟨send, rest'⟩, -, h⟩ := Option.bind_eq_some_iff.mp h
    obtain ⟨⟨msgs', rest''⟩, hr, h⟩ := Option.map_eq_some_iff.mp h
    obtain ⟨rfl, rfl⟩ := Prod.mk.inj h
    obtain ⟨hdest, hall⟩ := ih hr
    refine ⟨by rw [List.map_cons, hdest], fun e he => ?_⟩
    rcases List.mem_cons.mp he with rfl | he
    · exact ⟨send, rfl⟩
    · exact hall e he

omit [DecidableEq H] in
/-- What a leader sends, by its newest map: the accounts that are placed elsewhere and are
at home here, with transactions of its pool. -/
theorem sendAccountsAndTxs_eq_some {msgs : List (ℕ × ClpaMessage)}
    (h : nd.sendAccountsAndTxs cc = some (nd', msgs)) :
    ∃ m queue, nd.modifiedMap.getLast? = some m ∧
      nd' = { nd with
        curChain := { nd.curChain with txpool := { nd.curChain.txpool with txQueue := queue } } } ∧
      msgs.map (·.1) = otherShards cc ∧
      ∀ e ∈ msgs, ∃ txs, e.2 = .accountStateAndTx
        (let accountToFetch := (m.entries.filter fun e =>
          e.2 ≠ cc.shardID ∧ nd.curChain.getPartitionMap cc e.1 = cc.shardID).map (·.1)
        let send := (accountToFetch.zip (nd.curChain.fetchAccounts accountToFetch)).filter
          fun a => m.get a.1 = e.1
        ⟨send.map (·.1), send.map (·.2), cc.shardID, txs⟩) := by
  rw [sendAccountsAndTxs] at h
  obtain ⟨m, hm, h⟩ := Option.bind_eq_some_iff.mp h
  obtain ⟨⟨msgs', queue⟩, hsend, h⟩ := Option.map_eq_some_iff.mp h
  obtain ⟨rfl, rfl⟩ := Prod.mk.inj h
  obtain ⟨hdest, hmsgs⟩ := sendToShards_mem hsend
  exact ⟨m, queue, hm, rfl, hdest, hmsgs⟩

/-- What a transfer leaves alone: the sequence numbers. -/
theorem transfer_frame {nd₁ nd₂ : ClpaNode H} {atm : AccountTransferMsg}
    (h : nd.proposePartition cc = some (nd₁, atm)) (h' : nd₁.accountTransferDo cc atm = some nd₂) :
    nd₂.sequenceID = nd.sequenceID ∧ nd₂.seqIDMap = nd.seqIDMap := by
  rw [proposePartition] at h
  obtain ⟨r, -, h⟩ := Option.bind_eq_some_iff.mp h
  obtain ⟨m, -, h⟩ := Option.bind_eq_some_iff.mp h
  split at h
  case isFalse => cases h
  obtain ⟨rfl, rfl⟩ := Prod.mk.inj (Option.some.inj h)
  obtain ⟨bc, -, rfl⟩ := Option.map_eq_some_iff.mp h'
  exact ⟨rfl, rfl⟩

end ClpaNode

/-! ## The leaders as parties of a barrier -/

/-- The point in `HandleinPropose`, as a phase of the round. -/
def ClpaStage.phase : ClpaStage → Phase
  | .idle => .idle
  | .waitReady => .announced
  | .waitCollect => .passed

@[simp] theorem ClpaStage.phase_idle : ClpaStage.idle.phase = .idle := rfl
@[simp] theorem ClpaStage.phase_waitReady : ClpaStage.waitReady.phase = .announced := rfl
@[simp] theorem ClpaStage.phase_waitCollect : ClpaStage.waitCollect.phase = .passed := rfl

/-- The barrier in the state of the shards; the rounds that leaders have finished are no
part of it. -/
def ClpaState.barrier (rounds : ℕ → ℕ) (s : ClpaState H) : State ℕ where
  phase k := (s.nodes k).stage.phase
  rounds := rounds
  heard k := (s.nodes k).partitionReady
  signals j k := underWay s.flight (ClpaMessage.isReady j) k
  got k := (s.nodes k).accountStateTx.keys.toFinset
  goods k j := underWay s.flight (ClpaMessage.isAccounts k) j

omit [DecidableEq H] in
/-- The barrier after a step of one leader. -/
theorem ClpaState.barrier_update (rounds : ℕ → ℕ) (s : ClpaState H) (k : ℕ) (nd : ClpaNode H)
    (fl : List (ℕ × ClpaMessage)) (u c : Finset Bytes) :
    ClpaState.barrier rounds ⟨Function.update s.nodes k nd, fl, u, c⟩ =
      { phase := Function.update (fun i => (s.nodes i).stage.phase) k nd.stage.phase
        rounds := rounds
        heard := Function.update (fun i => (s.nodes i).partitionReady) k nd.partitionReady
        signals := fun j i => underWay fl (ClpaMessage.isReady j) i
        got := Function.update (fun i => (s.nodes i).accountStateTx.keys.toFinset) k
          nd.accountStateTx.keys.toFinset
        goods := fun j i => underWay fl (ClpaMessage.isAccounts j) i } := by
  have hfield : ∀ {β : Type} (f : ClpaNode H → β),
      (fun i => f (Function.update s.nodes k nd i)) =
        Function.update (fun i => f (s.nodes i)) k (f nd) := by
    intro β f
    funext i
    by_cases hi : i = k
    · subst hi
      simp
    · simp [hi]
  simp only [ClpaState.barrier, hfield fun nd => nd.stage.phase,
    hfield fun nd => nd.partitionReady, hfield fun nd => nd.accountStateTx.keys.toFinset]

/-- The rounds that leaders have finished, after a step. -/
def ClpaAction.rounds (rounds : ℕ → ℕ) : ClpaAction → ℕ → ℕ
  | .transfer sid => Function.update rounds sid (rounds sid + 1)
  | _ => rounds

/-- Whether a message goes from one shard to another. -/
def Addressed (n : ℕ) (e : ℕ × ClpaMessage) : Prop :=
  e.1 < n ∧ ∀ j ∈ e.2.fromShard, j < n ∧ j ≠ e.1

/-- The leaders obey the laws of the barrier, and hear of shards only. -/
structure BarrierSound (cc : ChainConfig H) (rounds : ℕ → ℕ) (s : ClpaState H) : Prop where
  /-- the laws of the barrier -/
  law : Lawful (Finset.range cc.shardNums) (s.barrier rounds)
  /-- who is ready is a shard -/
  ready : ∀ k, (s.nodes k).partitionReady ⊆ Finset.range cc.shardNums
  /-- accounts are those of other shards -/
  accounts : ∀ k, ∀ j ∈ (s.nodes k).accountStateTx.keys, j < cc.shardNums ∧ j ≠ k
  /-- the flag of a leader that has all accounts -/
  collected : ∀ k, (s.nodes k).collectOver = true →
    (s.nodes k).accountStateTx.keys.length + 1 = cc.shardNums
  /-- messages go from shard to shard -/
  addressed : ∀ e ∈ s.flight, Addressed cc.shardNums e

namespace BarrierSound

variable {cc : ChainConfig H} {rounds : ℕ → ℕ} {s t : ClpaState H} {a : ClpaAction}

omit [DecidableEq H] in
theorem start : BarrierSound cc (fun _ => 0) (ClpaState.start cc) where
  law := Lawful.start _
  ready k := Finset.empty_subset _
  accounts k j hj := by cases hj
  collected k h := by cases h
  addressed e he := absurd he List.not_mem_nil

omit [DecidableEq H] in
/-- A leader that finds the barrier open has heard all shards. -/
theorem all_ready (hs : BarrierSound cc rounds s) {k : ℕ}
    (h : (s.nodes k).getPartitionReady (cc.ofShard k) = true) {j : ℕ} (hj : j < cc.shardNums) :
    j ∈ (s.nodes k).partitionReady := by
  rw [ClpaNode.getPartitionReady, Bool.and_eq_true, decide_eq_true_iff] at h
  have heq : (s.nodes k).partitionReady = Finset.range cc.shardNums :=
    Finset.eq_of_subset_of_card_le (hs.ready k) (by rw [Finset.card_range]; exact h.1.ge)
  rw [heq]
  exact Finset.mem_range.mpr hj

omit [DecidableEq H] in
/-- A leader that has all accounts has those of every other shard. -/
theorem all_accounts (hs : BarrierSound cc rounds s) {k : ℕ} (hk : k < cc.shardNums)
    (h : (s.nodes k).collectOver = true) {j : ℕ} (hj : j < cc.shardNums) (hne : j ≠ k) :
    j ∈ (s.nodes k).accountStateTx.keys := by
  have hsub : (s.nodes k).accountStateTx.keys.toFinset ⊆ (Finset.range cc.shardNums).erase k := by
    intro i hi
    obtain ⟨hlt, hik⟩ := hs.accounts k i (List.mem_toFinset.mp hi)
    exact Finset.mem_erase.mpr ⟨hik, Finset.mem_range.mpr hlt⟩
  have hcard : (s.nodes k).accountStateTx.keys.toFinset.card + 1 = cc.shardNums := by
    rw [List.toFinset_card_of_nodup (AList.keys_nodup _), hs.collected k h]
  have heq := Finset.eq_of_subset_of_card_le hsub (by
    rw [Finset.card_erase_of_mem (Finset.mem_range.mpr hk), Finset.card_range]
    omega)
  apply List.mem_toFinset.mp
  rw [heq]
  exact Finset.mem_erase.mpr ⟨hne, Finset.mem_range.mpr hj⟩

omit [DecidableEq H] in
/-- The barrier does not see what else leaders do, nor other messages. -/
theorem quiet (hs : BarrierSound cc rounds s)
    (hnodes : ∀ k, (t.nodes k).stage = (s.nodes k).stage ∧
      (t.nodes k).partitionReady = (s.nodes k).partitionReady ∧
      (t.nodes k).accountStateTx = (s.nodes k).accountStateTx ∧
      (t.nodes k).collectOver = (s.nodes k).collectOver)
    (hunder : ∀ j k, underWay t.flight (ClpaMessage.isReady j) k =
        underWay s.flight (ClpaMessage.isReady j) k ∧
      underWay t.flight (ClpaMessage.isAccounts j) k =
        underWay s.flight (ClpaMessage.isAccounts j) k)
    (haddressed : ∀ e ∈ t.flight, Addressed cc.shardNums e) : BarrierSound cc rounds t := by
  have hview : t.barrier rounds = s.barrier rounds := by
    simp only [ClpaState.barrier, fun k => (hnodes k).1, fun k => (hnodes k).2.1,
      fun k => (hnodes k).2.2.1, fun j k => (hunder j k).1, fun j k => (hunder j k).2]
  refine ⟨hview ▸ hs.law, fun k => ?_, fun k => ?_, fun k => ?_, haddressed⟩
  · rw [(hnodes k).2.1]
    exact hs.ready k
  · rw [(hnodes k).2.2.1]
    exact hs.accounts k
  · rw [(hnodes k).2.2.2, (hnodes k).2.2.1]
    exact hs.collected k

omit [DecidableEq H] in
/-- Messages that the barrier does not see are sent. -/
theorem sent (hs : BarrierSound cc rounds s) {k : ℕ} {nd : ClpaNode H}
    {fl : List (ℕ × ClpaMessage)} {u c : Finset Bytes}
    (hnd : nd.stage = (s.nodes k).stage ∧ nd.partitionReady = (s.nodes k).partitionReady ∧
      nd.accountStateTx = (s.nodes k).accountStateTx ∧
      nd.collectOver = (s.nodes k).collectOver)
    (hfl : ∀ e ∈ fl, Addressed cc.shardNums e ∧
      ∀ j, e.2.isReady j = false ∧ e.2.isAccounts j = false) :
    BarrierSound cc rounds ⟨Function.update s.nodes k nd, s.flight ++ fl, u, c⟩ := by
  refine hs.quiet (fun i => ?_) (fun j i => ⟨?_, ?_⟩) fun e he => ?_
  · by_cases hi : i = k
    · subst hi
      simpa using hnd
    · simp [hi]
  · rw [underWay_append, underWay_eq_zero fun e he => ((hfl e he).2 j).1, add_zero]
  · rw [underWay_append, underWay_eq_zero fun e he => ((hfl e he).2 j).2, add_zero]
  · rcases List.mem_append.mp he with he | he
    · exact hs.addressed e he
    · exact (hfl e he).1

omit [DecidableEq H] in
/-- One leader changes, in a step of the barrier. -/
theorem update (hs : BarrierSound cc rounds s) {k : ℕ} {nd : ClpaNode H}
    {fl : List (ℕ × ClpaMessage)} {u c : Finset Bytes} {rounds' : ℕ → ℕ} {e : Event ℕ}
    (hstep : (s.barrier rounds).step (Finset.range cc.shardNums) e =
      some (ClpaState.barrier rounds' ⟨Function.update s.nodes k nd, fl, u, c⟩))
    (hready : nd.partitionReady ⊆ Finset.range cc.shardNums)
    (haccounts : ∀ j ∈ nd.accountStateTx.keys, j < cc.shardNums ∧ j ≠ k)
    (hover : nd.collectOver = true → nd.accountStateTx.keys.length + 1 = cc.shardNums)
    (hfl : ∀ e ∈ fl, Addressed cc.shardNums e) :
    BarrierSound cc rounds' ⟨Function.update s.nodes k nd, fl, u, c⟩ := by
  refine ⟨hs.law.step hstep, fun i => ?_, fun i => ?_, fun i => ?_, hfl⟩
  · by_cases hi : i = k
    · subst hi
      simpa using hready
    · simpa [hi] using hs.ready i
  · by_cases hi : i = k
    · subst hi
      simpa using haccounts
    · simpa [hi] using hs.accounts i
  · by_cases hi : i = k
    · subst hi
      simpa using hover
    · simpa [hi] using hs.collected i

omit [DecidableEq H] in
/-- **A leader announces** that it is ready. -/
theorem announce (hs : BarrierSound cc rounds s) {sid : ℕ} (hk : sid < cc.shardNums)
    (hstage : (s.nodes sid).stage = .idle) :
    BarrierSound cc rounds
      { s with
        nodes := Function.update s.nodes sid
          { ((s.nodes sid).sendPartitionReady (cc.ofShard sid)).1 with stage := .waitReady }
        flight := s.flight ++ ((s.nodes sid).sendPartitionReady (cc.ofShard sid)).2 } := by
  have hready : ∀ j k, underWay ((s.nodes sid).sendPartitionReady (cc.ofShard sid)).2
      (ClpaMessage.isReady j) k =
        if j = sid ∧ k ∈ Finset.range cc.shardNums ∧ k ≠ sid then 1 else 0 := by
    intro j k
    by_cases hj : j = sid
    · subst hj
      rw [underWay_eq_count fun e he => ?_]
      · simp [ClpaNode.sendPartitionReady, Function.comp_def, count_otherShards]
      · obtain ⟨i, -, rfl⟩ := List.mem_map.mp he
        simp [ClpaMessage.isReady, ChainConfig.ofShard]
    · rw [underWay_eq_zero fun e he => ?_]
      · simp [hj]
      · obtain ⟨i, -, rfl⟩ := List.mem_map.mp he
        exact decide_eq_false (Ne.symm hj)
  have haccounts : ∀ j k, underWay ((s.nodes sid).sendPartitionReady (cc.ofShard sid)).2
      (ClpaMessage.isAccounts j) k = 0 := by
    intro j k
    refine underWay_eq_zero (fun e he => ?_) k
    obtain ⟨i, -, rfl⟩ := List.mem_map.mp he
    rfl
  refine hs.update (e := .announce sid) ?_ ?_ (hs.accounts sid) (hs.collected sid) fun e he => ?_
  · rw [State.step, if_pos ⟨Finset.mem_range.mpr hk, by simp [ClpaState.barrier, hstage]⟩,
      ClpaState.barrier_update]
    simp only [underWay_append, hready, haccounts, add_zero]
    exact congrArg some (State.ext rfl rfl rfl rfl (Function.update_eq_self sid _).symm rfl)
  · exact Finset.insert_subset (Finset.mem_range.mpr hk) (hs.ready sid)
  · rcases List.mem_append.mp he with he | he
    · exact hs.addressed e he
    · obtain ⟨i, hi, rfl⟩ := List.mem_map.mp he
      obtain ⟨hlt, hne⟩ := mem_otherShards.mp hi
      refine ⟨hlt, fun j hj => ?_⟩
      obtain rfl := Option.some.inj hj
      exact ⟨hk, hne.symm⟩

omit [DecidableEq H] in
/-- **A leader passes the barrier** and sends accounts. -/
theorem pass (hs : BarrierSound cc rounds s) {sid : ℕ} (hk : sid < cc.shardNums)
    (hstage : (s.nodes sid).stage = .waitReady)
    (hready : (s.nodes sid).getPartitionReady (cc.ofShard sid) = true) {nd : ClpaNode H}
    {msgs : List (ℕ × ClpaMessage)}
    (h : (s.nodes sid).sendAccountsAndTxs (cc.ofShard sid) = some (nd, msgs)) :
    BarrierSound cc rounds
      { s with
        nodes := Function.update s.nodes sid { nd with stage := .waitCollect }
        flight := s.flight ++ msgs } := by
  obtain ⟨m, queue, -, rfl, hdest, hmsgs⟩ := ClpaNode.sendAccountsAndTxs_eq_some h
  have hsignals : ∀ j k, underWay msgs (ClpaMessage.isReady j) k = 0 := by
    intro j k
    refine underWay_eq_zero (fun e he => ?_) k
    obtain ⟨txs, heq⟩ := hmsgs e he
    rw [heq]
    rfl
  have hgoods : ∀ j k, underWay msgs (ClpaMessage.isAccounts j) k =
      if j = sid ∧ k ∈ Finset.range cc.shardNums ∧ k ≠ sid then 1 else 0 := by
    intro j k
    by_cases hj : j = sid
    · subst hj
      rw [underWay_eq_count fun e he => ?_]
      · simp [hdest, count_otherShards]
      · obtain ⟨txs, heq⟩ := hmsgs e he
        simp [heq, ClpaMessage.isAccounts, ChainConfig.ofShard]
    · rw [underWay_eq_zero fun e he => ?_]
      · simp [hj]
      · obtain ⟨txs, heq⟩ := hmsgs e he
        rw [heq]
        exact decide_eq_false (Ne.symm hj)
  refine hs.update (e := .pass sid) ?_ (hs.ready sid) (hs.accounts sid) (hs.collected sid)
    fun e he => ?_
  · have hall : ∀ j ∈ Finset.range cc.shardNums, j ∈ (s.barrier rounds).heard sid :=
      fun j hj => hs.all_ready hready (Finset.mem_range.mp hj)
    rw [State.step, if_pos ⟨Finset.mem_range.mpr hk, by simp [ClpaState.barrier, hstage], hall⟩,
      ClpaState.barrier_update]
    simp only [underWay_append, hsignals, hgoods, add_zero]
    exact congrArg some (State.ext rfl rfl (Function.update_eq_self sid _).symm rfl
      (Function.update_eq_self sid _).symm rfl)
  · rcases List.mem_append.mp he with he | he
    · exact hs.addressed e he
    · have hi : e.1 ∈ ClpaNode.otherShards (cc.ofShard sid) := hdest ▸ List.mem_map_of_mem he
      obtain ⟨hlt, hne⟩ := mem_otherShards.mp hi
      obtain ⟨txs, heq⟩ := hmsgs e he
      refine ⟨hlt, fun j hj => ?_⟩
      rw [heq] at hj
      obtain rfl := Option.some.inj hj
      exact ⟨hk, hne.symm⟩

/-- **A leader finishes the round**: the shard has installed the accounts. -/
theorem finish (hs : BarrierSound cc rounds s) {sid : ℕ} (hk : sid < cc.shardNums)
    (hstage : (s.nodes sid).stage = .waitCollect)
    (hover : (s.nodes sid).collectOver = true) {nd nd' : ClpaNode H} {atm : AccountTransferMsg}
    (hdo : nd.accountTransferDo (cc.ofShard sid) atm = some nd') :
    BarrierSound cc (Function.update rounds sid (rounds sid + 1))
      { s with
        nodes := Function.update s.nodes sid
          { nd' with stage := .idle, sequenceID := nd'.sequenceID + 1 } } := by
  obtain ⟨bc, -, rfl⟩ := Option.map_eq_some_iff.mp hdo
  refine hs.update (e := .finish sid) ?_ (Finset.empty_subset _) ?_ ?_ hs.addressed
  · have hall : ∀ k ∈ Finset.range cc.shardNums, k ≠ sid → k ∈ (s.barrier rounds).got sid :=
      fun k hk' hne => List.mem_toFinset.mpr
        (hs.all_accounts hk hover (Finset.mem_range.mp hk') hne)
    rw [State.step, if_pos ⟨Finset.mem_range.mpr hk, by simp [ClpaState.barrier, hstage], hall⟩,
      ClpaState.barrier_update]
    exact congrArg some (State.ext rfl rfl rfl rfl rfl rfl)
  · intro j hj
    cases hj
  · intro h
    cases h

omit [DecidableEq H] in
/-- **A message arrives**: a signal, goods, or nothing that the barrier sees. -/
theorem deliver (hs : BarrierSound cc rounds s) {i : ℕ} {e : ℕ × ClpaMessage}
    (he : s.flight[i]? = some e) :
    BarrierSound cc rounds
      { s with
        nodes := Function.update s.nodes e.1
          ((s.nodes e.1).handleMessageOutsidePBFT (cc.ofShard e.1) e.2)
        flight := s.flight.eraseIdx i } := by
  obtain ⟨k, m⟩ := e
  obtain ⟨hk, hfrom⟩ := hs.addressed _ (List.mem_of_getElem? he)
  have haddressed : ∀ e ∈ s.flight.eraseIdx i, Addressed cc.shardNums e :=
    fun e he => hs.addressed e (List.mem_of_mem_eraseIdx he)
  have hrest := underWay_eraseIdx he
  have hgone : ∀ {p : ClpaMessage → Bool}, p m = false → ∀ k',
      underWay (s.flight.eraseIdx i) p k' = underWay s.flight p k' := by
    intro p hp k'
    rw [hrest p k', if_neg (by simp [hp]), add_zero]
  have hquiet : ∀ nd : ClpaNode H, (∀ j, m.isReady j = false ∧ m.isAccounts j = false) →
      nd.stage = (s.nodes k).stage → nd.partitionReady = (s.nodes k).partitionReady →
      nd.accountStateTx = (s.nodes k).accountStateTx →
      nd.collectOver = (s.nodes k).collectOver →
      BarrierSound cc rounds
        { s with
          nodes := Function.update s.nodes k nd
          flight := s.flight.eraseIdx i } := by
    intro nd hm h₁ h₂ h₃ h₄
    refine hs.quiet (fun j => ?_) (fun j k' => ⟨hgone (hm j).1 k', hgone (hm j).2 k'⟩) haddressed
    by_cases hj : j = k
    · subst hj
      simp [h₁, h₂, h₃, h₄]
    · simp [hj]
  cases m with
  | relay m => exact hquiet _ (fun j => ⟨rfl, rfl⟩) rfl rfl rfl rfl
  | partitionMsg m => exact hquiet _ (fun j => ⟨rfl, rfl⟩) rfl rfl rfl rfl
  | partitionReady j seq =>
    obtain ⟨hj, hne⟩ := hfrom j rfl
    have hpos : 0 < underWay s.flight (ClpaMessage.isReady j) k :=
      underWay_pos (List.mem_of_getElem? he) (by simp [ClpaMessage.isReady])
    refine hs.update (e := .signal j k) ?_
      (Finset.insert_subset (Finset.mem_range.mpr hj) (hs.ready k)) (hs.accounts k) (hs.collected k)
      haddressed
    rw [State.step, if_pos (by simpa [ClpaState.barrier] using hpos), ClpaState.barrier_update]
    refine congrArg some (State.ext (Function.update_eq_self k _).symm rfl rfl ?_
      (Function.update_eq_self k _).symm ?_)
    · funext j' k'
      simp only [ClpaState.barrier, State.arrive, hrest (ClpaMessage.isReady j') k',
        ClpaMessage.isReady]
      grind
    · funext j' k'
      exact (hgone rfl k').symm
  | accountStateAndTx ast =>
    obtain ⟨hj, hne⟩ := hfrom ast.fromShard rfl
    have hpos : 0 < underWay s.flight (ClpaMessage.isAccounts ast.fromShard) k :=
      underWay_pos (List.mem_of_getElem? he) (by simp [ClpaMessage.isAccounts])
    have hkeys : ∀ j, j ∈ ((s.nodes k).accountStateTx.insert ast.fromShard ast).keys ↔
        j = ast.fromShard ∨ j ∈ (s.nodes k).accountStateTx.keys := by
      intro j
      exact AList.mem_insert _
    refine hs.update (e := .good ast.fromShard k) ?_ (hs.ready k) ?_ ?_ haddressed
    · rw [State.step, if_pos (by simpa [ClpaState.barrier] using hpos), ClpaState.barrier_update]
      refine congrArg some (State.ext (Function.update_eq_self k _).symm rfl
        (Function.update_eq_self k _).symm ?_ ?_ ?_)
      · funext j' k'
        exact (hgone rfl k').symm
      · simp only [ClpaState.barrier, ClpaNode.handleMessageOutsidePBFT,
          ClpaNode.handleAccountStateAndTxMsg]
        congr 1
        ext j
        rw [Finset.mem_insert, List.mem_toFinset, List.mem_toFinset, hkeys]
      · funext j' k'
        simp only [ClpaState.barrier, State.arrive, hrest (ClpaMessage.isAccounts j') k',
          ClpaMessage.isAccounts]
        grind
    · intro j hj'
      rcases (hkeys j).mp hj' with rfl | hj'
      · exact ⟨hj, hne⟩
      · exact hs.accounts k j hj'
    · intro hover
      rcases Bool.or_eq_true _ _ ▸ hover with hover | hover
      · -- all accounts were there: none can be under way
        have hgot := hs.all_accounts hk hover hj hne
        obtain ⟨-, -, hnot⟩ := hs.law.of_goods (Finset.mem_range.mpr hk)
          (Finset.mem_range.mpr hj) hne.symm hpos
        exact absurd (List.mem_toFinset.mpr hgot) hnot
      · exact of_decide_eq_true hover

/-- **Every step keeps the laws**, in any order and with any delay. -/
theorem step (hs : BarrierSound cc rounds s) (h : s.step cc a = some t) :
    BarrierSound cc (a.rounds rounds) t := by
  cases a with
  | inject sid txs =>
    obtain ⟨-, rfl⟩ := ClpaState.step_inject h
    have hsent : BarrierSound cc rounds
        ⟨Function.update s.nodes sid ((s.nodes sid).handleInjectTx txs), s.flight ++ [],
          s.used ∪ (txs.map (·.txHash)).toFinset, s.credited⟩ :=
      hs.sent ⟨rfl, rfl, rfl, rfl⟩ (List.forall_mem_nil _)
    rwa [List.append_nil] at hsent
  | repartition m =>
    obtain rfl := ClpaState.step_repartition h
    have hmsgs : ∀ e ∈ (List.range cc.shardNums).map fun sid => (sid, ClpaMessage.partitionMsg m),
        Addressed cc.shardNums e ∧ ∀ j, e.2.isReady j = false ∧ e.2.isAccounts j = false := by
      intro e he
      obtain ⟨sid, hsid, rfl⟩ := List.mem_map.mp he
      exact ⟨⟨List.mem_range.mp hsid, nofun⟩, fun j => ⟨rfl, rfl⟩⟩
    have hsent := hs.sent (k := 0) (u := s.used) (c := s.credited) ⟨rfl, rfl, rfl, rfl⟩ hmsgs
    rwa [Function.update_eq_self] at hsent
  | commit sid miner now =>
    obtain ⟨bc, relays, hin, hround, rfl⟩ := ClpaState.step_commit h
    refine hs.sent ⟨rfl, rfl, rfl, rfl⟩ fun e he => ?_
    obtain ⟨e', he', rfl⟩ := List.mem_map.mp he
    obtain ⟨hdest, hfrom, -⟩ := leaderRound_relays hround e' he'
    obtain ⟨hlt, hne⟩ := mem_otherShards.mp hdest
    refine ⟨⟨hlt, fun j hj => ?_⟩, fun j => ⟨rfl, rfl⟩⟩
    obtain rfl := Option.some.inj hj
    rw [hfrom]
    exact ⟨hin.1, hne.symm⟩
  | ready sid =>
    obtain ⟨hin, rfl⟩ := ClpaState.step_ready h
    exact hs.announce hin.1 hin.2.1
  | sendAccounts sid =>
    obtain ⟨nd, msgs, hin, hsend, rfl⟩ := ClpaState.step_sendAccounts h
    exact hs.pass hin.1 hin.2.1 hin.2.2 hsend
  | transfer sid =>
    obtain ⟨nd, nd', atm, hin, -, hdo, rfl⟩ := ClpaState.step_transfer h
    exact hs.finish hin.1 hin.2.1 hin.2.2 hdo
  | deliver i =>
    obtain ⟨k, m, he, rfl⟩ := ClpaState.step_deliver h
    exact hs.deliver he

end BarrierSound

/-! ## Announced sequence numbers -/

/-- The sequence numbers that leaders announced last, after a step. -/
def ClpaAction.announced (s : ClpaState H) (announced : ℕ → ℕ) : ClpaAction → ℕ → ℕ
  | .ready sid => Function.update announced sid (s.nodes sid).sequenceID
  | _ => announced

/-- What leaders announce is known, or on its way, as it was announced last. -/
structure Announced (cc : ChainConfig H) (announced : ℕ → ℕ) (s : ClpaState H) : Prop where
  /-- a leader that waits commits nothing -/
  seq : ∀ k, (s.nodes k).stage ≠ .idle → announced k = (s.nodes k).sequenceID
  /-- the announcements under way -/
  signal : ∀ e ∈ s.flight, ∀ j seq, e.2 = .partitionReady j seq → seq = announced j
  /-- the announcements that arrived -/
  readySeq : ∀ k < cc.shardNums, ∀ j ∈ (s.nodes k).partitionReady, j ≠ k →
    (s.nodes k).stage ≠ .waitCollect → (s.nodes k).readySeq.lookup j = some (announced j)

namespace Announced

variable {cc : ChainConfig H} {rounds announced : ℕ → ℕ} {s t : ClpaState H} {a : ClpaAction}

omit [DecidableEq H] in
theorem start : Announced cc (fun _ => 0) (ClpaState.start cc) where
  seq k h := absurd rfl h
  signal e he := absurd he List.not_mem_nil
  readySeq k hk j hj := by cases hj

omit [DecidableEq H] in
/-- One leader changes: it waits with the same number, or does not wait. -/
theorem update (hs : Announced cc announced s) {k : ℕ} {nd : ClpaNode H}
    {fl : List (ℕ × ClpaMessage)} {u c : Finset Bytes}
    (hseq : nd.stage ≠ .idle → announced k = nd.sequenceID)
    (hfl : ∀ e ∈ fl, e ∈ s.flight ∨ ∀ j, e.2.isReady j = false)
    (hready : k < cc.shardNums → ∀ j ∈ nd.partitionReady, j ≠ k → nd.stage ≠ .waitCollect →
      nd.readySeq.lookup j = some (announced j)) :
    Announced cc announced ⟨Function.update s.nodes k nd, fl, u, c⟩ := by
  refine ⟨fun i => ?_, fun e he j seq heq => ?_, fun i hi => ?_⟩
  · by_cases hi : i = k
    · subst hi
      simpa using hseq
    · simpa [hi] using hs.seq i
  · rcases hfl e he with he | he
    · exact hs.signal e he j seq heq
    · have := he j
      rw [heq] at this
      simp [ClpaMessage.isReady] at this
  · by_cases hik : i = k
    · subst hik
      simpa using hready hi
    · simpa [hik] using hs.readySeq i hi

omit [DecidableEq H] in
/-- **A new announcement**: the last one has arrived, and is used up. -/
theorem announce (hs : Announced cc announced s) (hb : BarrierSound cc rounds s) {sid : ℕ}
    (hk : sid < cc.shardNums) (hstage : (s.nodes sid).stage = .idle) :
    Announced cc (Function.update announced sid (s.nodes sid).sequenceID)
      { s with
        nodes := Function.update s.nodes sid
          { ((s.nodes sid).sendPartitionReady (cc.ofShard sid)).1 with stage := .waitReady }
        flight := s.flight ++ ((s.nodes sid).sendPartitionReady (cc.ofShard sid)).2 } := by
  have hidle : ∀ k < cc.shardNums, k ≠ sid →
      underWay s.flight (ClpaMessage.isReady sid) k = 0 ∧
        ((s.nodes k).stage ≠ .waitCollect → sid ∉ (s.nodes k).partitionReady) := by
    intro k hk' hne
    obtain ⟨hnone, hheard⟩ := hb.law.of_idle (Finset.mem_range.mpr hk)
      (Finset.mem_range.mpr hk') hne.symm (by simp [ClpaState.barrier, hstage])
    refine ⟨hnone, fun hcollect => hheard ?_⟩
    cases hs' : (s.nodes k).stage with
    | idle => simp [ClpaState.barrier, hs']
    | waitReady => simp [ClpaState.barrier, hs']
    | waitCollect => exact absurd hs' hcollect
  refine ⟨fun i => ?_, fun e he j seq heq => ?_, fun i hi j hj hne hcollect => ?_⟩
  · by_cases hi : i = sid
    · subst hi
      simp [ClpaNode.sendPartitionReady]
    · simpa [hi] using hs.seq i
  · rcases List.mem_append.mp he with hold | hnew
    · have hnot : j ≠ sid := by
        rintro rfl
        obtain ⟨hlt, hfrom⟩ := hb.addressed e hold
        have hpos : 0 < underWay s.flight (ClpaMessage.isReady j) e.1 :=
          underWay_pos (m := e.2) hold (by simp [heq, ClpaMessage.isReady])
        rw [(hidle e.1 hlt (hfrom j (by rw [heq]; rfl)).2.symm).1] at hpos
        exact absurd hpos (lt_irrefl 0)
      rw [Function.update_of_ne hnot]
      exact hs.signal e hold j seq heq
    · obtain ⟨i, -, rfl⟩ := List.mem_map.mp hnew
      obtain ⟨rfl, rfl⟩ : sid = j ∧ (s.nodes sid).sequenceID = seq := by
        simpa [ChainConfig.ofShard] using heq
      rw [Function.update_self]
  · by_cases hij : i = sid
    · subst hij
      rw [Function.update_of_ne hne]
      have hj' : j ∈ (s.nodes i).partitionReady := by
        simpa [ClpaNode.sendPartitionReady, ChainConfig.ofShard, hne] using hj
      simpa [ClpaNode.sendPartitionReady] using hs.readySeq i hi j hj' hne (by simp [hstage])
    · have hj' : j ∈ (s.nodes i).partitionReady := by simpa [hij] using hj
      have hcollect' : (s.nodes i).stage ≠ .waitCollect := by simpa [hij] using hcollect
      have hnot : j ≠ sid := by
        rintro rfl
        exact (hidle i hi hij).2 hcollect' hj'
      rw [Function.update_of_ne hnot]
      simpa [hij] using hs.readySeq i hi j hj' hne hcollect'

/-- **Every step keeps what is announced.** -/
theorem step (hs : Announced cc announced s) (hb : BarrierSound cc rounds s)
    (h : s.step cc a = some t) : Announced cc (a.announced s announced) t := by
  cases a with
  | inject sid txs =>
    obtain ⟨-, rfl⟩ := ClpaState.step_inject h
    exact hs.update (hs.seq sid) (fun e he => .inl he) (hs.readySeq sid)
  | repartition m =>
    obtain rfl := ClpaState.step_repartition h
    refine ⟨hs.seq, fun e he j seq heq => ?_, hs.readySeq⟩
    rcases List.mem_append.mp he with he | he
    · exact hs.signal e he j seq heq
    · obtain ⟨sid, -, rfl⟩ := List.mem_map.mp he
      cases heq
  | commit sid miner now =>
    obtain ⟨bc, relays, hin, -, rfl⟩ := ClpaState.step_commit h
    refine hs.update (fun hne => absurd hin.2.1 hne) (fun e he => ?_) (hs.readySeq sid)
    rcases List.mem_append.mp he with he | he
    · exact .inl he
    · obtain ⟨e', -, rfl⟩ := List.mem_map.mp he
      exact .inr fun j => rfl
  | ready sid =>
    obtain ⟨hin, rfl⟩ := ClpaState.step_ready h
    exact hs.announce hb hin.1 hin.2.1
  | sendAccounts sid =>
    obtain ⟨nd, msgs, hin, hsend, rfl⟩ := ClpaState.step_sendAccounts h
    obtain ⟨m, queue, -, rfl, -, hmsgs⟩ := ClpaNode.sendAccountsAndTxs_eq_some hsend
    have hwait : (s.nodes sid).stage ≠ .idle := by simp [hin.2.1]
    refine hs.update (fun _ => hs.seq sid hwait) (fun e he => ?_) fun _ j _ _ hcollect =>
      absurd rfl hcollect
    rcases List.mem_append.mp he with he | he
    · exact .inl he
    · obtain ⟨txs, heq⟩ := hmsgs e he
      rw [heq]
      exact .inr fun j => rfl
  | transfer sid =>
    obtain ⟨nd, nd', atm, -, -, hdo, rfl⟩ := ClpaState.step_transfer h
    obtain ⟨bc, -, rfl⟩ := Option.map_eq_some_iff.mp hdo
    exact hs.update (fun hne => absurd rfl hne) (fun e he => .inl he) fun _ j hj => by cases hj
  | deliver i =>
    obtain ⟨k, m, he, rfl⟩ := ClpaState.step_deliver h
    have hrest : ∀ e ∈ s.flight.eraseIdx i, e ∈ s.flight ∨ ∀ j, e.2.isReady j = false :=
      fun e he => .inl (List.mem_of_mem_eraseIdx he)
    cases m with
    | relay m => exact hs.update (hs.seq k) hrest (hs.readySeq k)
    | partitionMsg m => exact hs.update (hs.seq k) hrest (hs.readySeq k)
    | accountStateAndTx ast => exact hs.update (hs.seq k) hrest (hs.readySeq k)
    | partitionReady j seq =>
      refine hs.update (hs.seq k) hrest fun hk j' hj' hne hcollect => ?_
      obtain rfl := hs.signal _ (List.mem_of_getElem? he) j seq rfl
      by_cases hjj : j' = j
      · subst hjj
        exact AList.lookup_insert _
      · have hold : j' ∈ (s.nodes k).partitionReady := by
          simpa [ClpaNode.handleMessageOutsidePBFT, ClpaNode.handlePartitionReady, hjj] using hj'
        refine (AList.lookup_insert_ne hjj).trans ?_
        exact hs.readySeq k hk j' hold hne hcollect

end Announced

/-! ## Relay messages in order -/

/-- Whether a message is no Relay message of the same shard, or a later one. -/
def Relay.Before (m : Relay) : ClpaMessage → Prop
  | .relay m' => m'.senderShardID = m.senderShardID → m.senderSeq < m'.senderSeq
  | _ => True

instance (m : Relay) (m' : ClpaMessage) : Decidable (m.Before m') :=
  match m' with
  | .relay _ => inferInstanceAs (Decidable (_ → _))
  | .partitionMsg _ | .accountStateAndTx _ | .partitionReady _ _ =>
    inferInstanceAs (Decidable True)

/-- Whether a message that arrives overtakes no Relay message of the same shard. -/
def ArrivesInOrder (s : ClpaState H) (i : ℕ) : Prop :=
  match s.flight[i]? with
  | some (k, .relay m) => ∀ e ∈ s.flight.eraseIdx i, e.1 = k → m.Before e.2
  | _ => True

instance (s : ClpaState H) (i : ℕ) : Decidable (ArrivesInOrder s i) := by
  unfold ArrivesInOrder
  split
  · infer_instance
  · infer_instance

/-- Whether Relay messages arrive in order, and sequence numbers are `uint64`. -/
def ClpaAction.InOrder (s : ClpaState H) : ClpaAction → Prop
  | .deliver i => ArrivesInOrder s i
  | .ready sid => (s.nodes sid).sequenceID < 2 ^ 64
  | _ => True

instance (s : ClpaState H) (a : ClpaAction) : Decidable (a.InOrder s) :=
  match a with
  | .deliver i => inferInstanceAs (Decidable (ArrivesInOrder s i))
  | .ready sid => inferInstanceAs (Decidable ((s.nodes sid).sequenceID < 2 ^ 64))
  | .inject .. | .repartition _ | .commit .. | .sendAccounts _ | .transfer _ =>
    inferInstanceAs (Decidable True)

/-- Relay messages have numbers of the past, and those of a shard that are under way are
later than the last one that was handled. -/
structure RelayOrdered (s : ClpaState H) : Prop where
  /-- what was sent has a number of the past -/
  sent : ∀ e ∈ s.flight, ∀ m, e.2 = .relay m →
    m.senderSeq < (s.nodes m.senderShardID).sequenceID
  /-- so has what was handled, and what is under way is later -/
  handled : ∀ k j v, (s.nodes k).seqIDMap.lookup j = some v →
    v < (s.nodes j).sequenceID ∧
      ∀ e ∈ s.flight, e.1 = k → ∀ m, e.2 = .relay m → m.senderShardID = j → v < m.senderSeq

namespace RelayOrdered

variable {cc : ChainConfig H} {s t : ClpaState H} {a : ClpaAction}

omit [DecidableEq H] in
theorem start : RelayOrdered (ClpaState.start cc) where
  sent e he := absurd he List.not_mem_nil
  handled k j v h := by cases h

omit [DecidableEq H] in
/-- One leader goes on, and sends Relay messages with the numbers it has passed. -/
theorem update (hs : RelayOrdered s) {k : ℕ} {nd : ClpaNode H} {fl : List (ℕ × ClpaMessage)}
    {u c : Finset Bytes} (hseq : (s.nodes k).sequenceID ≤ nd.sequenceID)
    (hmap : nd.seqIDMap = (s.nodes k).seqIDMap)
    (hfl : ∀ e ∈ fl, e ∈ s.flight ∨ ∀ m, e.2 = .relay m → m.senderShardID = k ∧
      (s.nodes k).sequenceID ≤ m.senderSeq ∧ m.senderSeq < nd.sequenceID) :
    RelayOrdered ⟨Function.update s.nodes k nd, fl, u, c⟩ := by
  have hle : ∀ i, (s.nodes i).sequenceID ≤ (Function.update s.nodes k nd i).sequenceID := by
    intro i
    by_cases hi : i = k
    · subst hi
      simpa using hseq
    · simp [hi]
  have hsame : ∀ i, (Function.update s.nodes k nd i).seqIDMap = (s.nodes i).seqIDMap := by
    intro i
    by_cases hi : i = k
    · subst hi
      simpa using hmap
    · simp [hi]
  refine ⟨fun e he m hm => ?_, fun i j v hv => ?_⟩
  · rcases hfl e he with he | he
    · exact (hs.sent e he m hm).trans_le (hle _)
    · obtain ⟨rfl, -, hlt⟩ := he m hm
      simpa using hlt
  · dsimp only at hv
    rw [hsame i] at hv
    obtain ⟨hlt, hlater⟩ := hs.handled i j v hv
    refine ⟨hlt.trans_le (hle j), fun e he hto m hm hj => ?_⟩
    rcases hfl e he with he | he
    · exact hlater e he hto m hm hj
    · obtain ⟨rfl, hge, -⟩ := he m hm
      exact (hj ▸ hlt).trans_le hge

/-- **Every step keeps the order**, where messages arrive in order. -/
theorem step (hs : RelayOrdered s) (hok : a.InOrder s) (h : s.step cc a = some t) :
    RelayOrdered t := by
  cases a with
  | inject sid txs =>
    obtain ⟨-, rfl⟩ := ClpaState.step_inject h
    exact hs.update le_rfl rfl fun e he => .inl he
  | repartition m =>
    obtain rfl := ClpaState.step_repartition h
    have hrelay : ∀ e ∈ s.flight ++ (List.range cc.shardNums).map fun sid =>
        (sid, ClpaMessage.partitionMsg m), ∀ r, e.2 = .relay r → e ∈ s.flight := by
      intro e he r hr
      rcases List.mem_append.mp he with he | he
      · exact he
      · obtain ⟨sid, -, rfl⟩ := List.mem_map.mp he
        cases hr
    refine ⟨fun e he r hr => hs.sent e (hrelay e he r hr) r hr, fun k j v hv => ?_⟩
    obtain ⟨hlt, hlater⟩ := hs.handled k j v hv
    exact ⟨hlt, fun e he hto r hr => hlater e (hrelay e he r hr) hto r hr⟩
  | commit sid miner now =>
    obtain ⟨bc, relays, -, hround, rfl⟩ := ClpaState.step_commit h
    refine hs.update (Nat.le_succ _) rfl fun e he => ?_
    rcases List.mem_append.mp he with he | he
    · exact .inl he
    · obtain ⟨e', he', rfl⟩ := List.mem_map.mp he
      obtain ⟨-, hfrom, hseq⟩ := leaderRound_relays hround e' he'
      refine .inr fun m hm => ?_
      obtain rfl := ClpaMessage.relay.inj hm
      exact ⟨hfrom, hseq.ge, hseq.le.trans_lt (Nat.lt_succ_self _)⟩
  | ready sid =>
    obtain ⟨-, rfl⟩ := ClpaState.step_ready h
    refine hs.update le_rfl rfl fun e he => ?_
    rcases List.mem_append.mp he with he | he
    · exact .inl he
    · obtain ⟨i, -, rfl⟩ := List.mem_map.mp he
      exact .inr nofun
  | sendAccounts sid =>
    obtain ⟨nd, msgs, -, hsend, rfl⟩ := ClpaState.step_sendAccounts h
    obtain ⟨m, queue, -, rfl, -, hmsgs⟩ := ClpaNode.sendAccountsAndTxs_eq_some hsend
    refine hs.update le_rfl rfl fun e he => ?_
    rcases List.mem_append.mp he with he | he
    · exact .inl he
    · obtain ⟨txs, heq⟩ := hmsgs e he
      rw [heq]
      exact .inr nofun
  | transfer sid =>
    obtain ⟨nd, nd', atm, -, hprop, hdo, rfl⟩ := ClpaState.step_transfer h
    obtain ⟨hseq, hmap⟩ := ClpaNode.transfer_frame hprop hdo
    exact hs.update (by rw [hseq]; exact Nat.le_succ _) hmap fun e he => .inl he
  | deliver i =>
    obtain ⟨k, m, he, rfl⟩ := ClpaState.step_deliver h
    have hrest : ∀ e ∈ s.flight.eraseIdx i, e ∈ s.flight := fun e he => List.mem_of_mem_eraseIdx he
    cases m with
    | partitionMsg m => exact hs.update le_rfl rfl fun e he => .inl (hrest e he)
    | accountStateAndTx ast => exact hs.update le_rfl rfl fun e he => .inl (hrest e he)
    | partitionReady j seq => exact hs.update le_rfl rfl fun e he => .inl (hrest e he)
    | relay m =>
      have hok : ArrivesInOrder s i := hok
      rw [ArrivesInOrder, he] at hok
      have hseq : ∀ j, (Function.update s.nodes k ((s.nodes k).handleRelay m) j).sequenceID =
          (s.nodes j).sequenceID := by
        intro j
        by_cases hj : j = k
        · subst hj
          simp [ClpaNode.handleRelay]
        · simp [hj]
      refine ⟨fun e he' m' hm' => ?_, fun i' j v hv => ?_⟩
      · exact (hs.sent e (hrest e he') m' hm').trans_eq (hseq _).symm
      · have hcases : (s.nodes i').seqIDMap.lookup j = some v ∨
            i' = k ∧ j = m.senderShardID ∧ v = m.senderSeq := by
          by_cases hi : i' = k
          · subst hi
            by_cases hj : j = m.senderShardID
            · subst hj
              exact .inr ⟨rfl, rfl, by simpa [ClpaNode.handleMessageOutsidePBFT,
                ClpaNode.handleRelay, eq_comm] using hv⟩
            · exact .inl (by simpa [ClpaNode.handleMessageOutsidePBFT, ClpaNode.handleRelay,
                AList.lookup_insert_ne hj] using hv)
          · exact .inl (by simpa [hi] using hv)
        rcases hcases with hv | ⟨rfl, rfl, rfl⟩
        · obtain ⟨hlt, hlater⟩ := hs.handled i' j v hv
          exact ⟨hlt.trans_eq (hseq j).symm, fun e he' => hlater e (hrest e he')⟩
        · -- what is under way is later than what has just arrived
          refine ⟨(hs.sent _ (List.mem_of_getElem? he) m rfl).trans_eq (hseq _).symm, ?_⟩
          intro e he' hto m' hm' hj
          have hbefore := hok e he' hto
          rw [hm'] at hbefore
          exact hbefore hj

end RelayOrdered

/-! ## The barrier -/

/-- The shards, and the sequence numbers that were announced last. -/
structure MigrationRun (H : Type) where
  /-- the shards -/
  net : ClpaState H
  /-- the sequence number in the last announcement of a leader -/
  announced : ℕ → ℕ

/-- The shards just started. -/
def MigrationRun.start (cc : ChainConfig H) : MigrationRun H := ⟨.start cc, fun _ => 0⟩

/-- One step. -/
def migrationStep (cc : ChainConfig H) (s : MigrationRun H) (a : ClpaAction) :
    Option (MigrationRun H) :=
  (s.net.step cc a).map fun t => ⟨t, a.announced s.net s.announced⟩

/-- Whether `getPartitionReady` returns `true` in the loop of a leader. -/
def AtBarrier (cc : ChainConfig H) (s : MigrationRun H) (k : ℕ) : Prop :=
  k < cc.shardNums ∧ (s.net.nodes k).stage = .waitReady ∧
    (s.net.nodes k).getPartitionReady (cc.ofShard k) = true

instance (cc : ChainConfig H) (s : MigrationRun H) (k : ℕ) : Decidable (AtBarrier cc s k) :=
  inferInstanceAs (Decidable (_ ∧ _ ∧ _))

/-- Whether a message is no Relay message that was sent before an announcement. -/
def ClpaMessage.AfterReady (announced : ℕ → ℕ) : ClpaMessage → Prop
  | .relay m => announced m.senderShardID ≤ m.senderSeq
  | _ => True

instance (announced : ℕ → ℕ) (m : ClpaMessage) : Decidable (m.AfterReady announced) :=
  match m with
  | .relay _ => inferInstanceAs (Decidable (_ ≤ _))
  | .partitionMsg _ | .accountStateAndTx _ | .partitionReady _ _ =>
    inferInstanceAs (Decidable True)

/-- Whether no Relay message to a shard is under way that was sent before its sender
announced that it is ready. -/
def BarrierClosed (s : MigrationRun H) (k : ℕ) : Prop :=
  ∀ e ∈ s.net.flight, e.1 = k → e.2.AfterReady s.announced

instance (s : MigrationRun H) (k : ℕ) : Decidable (BarrierClosed s k) :=
  inferInstanceAs (Decidable (∀ e ∈ s.net.flight, _))

/-- Whether a message is no Relay message of a shard that a leader has had none from. -/
def ClpaMessage.KnownTo (nd : ClpaNode H) : ClpaMessage → Prop
  | .relay m => m.senderShardID ∈ nd.seqIDMap
  | _ => True

instance (nd : ClpaNode H) (m : ClpaMessage) : Decidable (m.KnownTo nd) :=
  match m with
  | .relay m => inferInstanceAs (Decidable (m.senderShardID ∈ nd.seqIDMap))
  | .partitionMsg _ | .accountStateAndTx _ | .partitionReady _ _ =>
    inferInstanceAs (Decidable True)

/-- Whether a shard has handled a Relay message from each shard that has one under way to
it. -/
def KnowsSenders (s : MigrationRun H) (k : ℕ) : Prop :=
  ∀ e ∈ s.net.flight, e.1 = k → e.2.KnownTo (s.net.nodes k)

instance (s : MigrationRun H) (k : ℕ) : Decidable (KnowsSenders s k) :=
  inferInstanceAs (Decidable (∀ e ∈ s.net.flight, _))

/-- What holds in every state of a run in which Relay messages arrive in order. -/
structure MigrationSound (cc : ChainConfig H) (rounds : ℕ → ℕ) (s : MigrationRun H) : Prop where
  /-- the laws of the barrier -/
  barrier : BarrierSound cc rounds s.net
  /-- what was announced is known, or on its way -/
  announced : Announced cc s.announced s.net
  /-- Relay messages are handled in order -/
  relays : RelayOrdered s.net
  /-- sequence numbers are `uint64` -/
  bound : ∀ j, s.announced j < 2 ^ 64

namespace MigrationSound

variable {cc : ChainConfig H} {rounds : ℕ → ℕ} {s t : MigrationRun H} {a : ClpaAction}

omit [DecidableEq H] in
theorem start : MigrationSound cc (fun _ => 0) (MigrationRun.start cc) :=
  ⟨.start, .start, .start, fun _ => Nat.two_pow_pos 64⟩

theorem step (hs : MigrationSound cc rounds s) (hok : a.InOrder s.net)
    (h : migrationStep cc s a = some t) : MigrationSound cc (a.rounds rounds) t := by
  obtain ⟨net, hnet, rfl⟩ := Option.map_eq_some_iff.mp h
  refine ⟨hs.barrier.step hnet, hs.announced.step hs.barrier hnet, hs.relays.step hok hnet, ?_⟩
  intro j
  cases a with
  | ready sid =>
    have hok : (s.net.nodes sid).sequenceID < 2 ^ 64 := hok
    simp only [ClpaAction.announced, Function.update_apply]
    split
    · exact hok
    · exact hs.bound j
  | inject sid txs => exact hs.bound j
  | repartition m => exact hs.bound j
  | commit sid miner now => exact hs.bound j
  | sendAccounts sid => exact hs.bound j
  | transfer sid => exact hs.bound j
  | deliver i => exact hs.bound j

theorem reaches (hr : Reaches (migrationStep cc) (fun s a => a.InOrder s.net) (.start cc) s) :
    ∃ rounds, MigrationSound cc rounds s := by
  refine hr.invariant (fun s => ∃ rounds, MigrationSound cc rounds s) ⟨_, start⟩ ?_
  rintro s a t ⟨rounds, hs⟩ hok h
  exact ⟨_, hs.step hok h⟩

omit [DecidableEq H] in
/-- At the barrier a leader knows what every other shard announced in this round, and that
shard has committed nothing since. -/
theorem at_barrier (hs : MigrationSound cc rounds s) {k j : ℕ} (hk : AtBarrier cc s k)
    (hj : j < cc.shardNums) (hne : j ≠ k) :
    (s.net.nodes k).readySeq.lookup j = some (s.announced j) ∧
      s.announced j = (s.net.nodes j).sequenceID := by
  obtain ⟨hlt, hstage, hready⟩ := hk
  have hheard := hs.barrier.all_ready hready hj
  obtain ⟨-, hphase, -⟩ := hs.barrier.law.of_heard (Finset.mem_range.mpr hj)
    (Finset.mem_range.mpr hlt) hne (by simp [ClpaState.barrier, hstage]) hheard
  refine ⟨hs.announced.readySeq k hlt j hheard hne (by simp [hstage]), hs.announced.seq j ?_⟩
  intro hidle
  exact hphase (by simp [ClpaState.barrier, hidle])

end MigrationSound

/-- The predecessor of an unsigned number. -/
theorem succ_of_mod_eq {a v M : ℕ} (hpos : 0 < a) (hlt : a < M) (h : (a + (M - 1)) % M = v) :
    v + 1 = a := by
  have hsum : a + (M - 1) = a - 1 + M := by omega
  rw [hsum, Nat.add_mod_right, Nat.mod_eq_of_lt (by omega)] at h
  omega

/-- The epoch ends; its messages go in order, behind those at the front. -/
def readyRun (front : ℕ) : List ClpaAction :=
  [.repartition (moveAccount "a" 1), .deliver front, .deliver front, .ready 0, .ready 1,
    .deliver front, .deliver front]

end BlockEmulator
