import BlockEmulator.Accounting
import BlockEmulator.Clpa
import BlockEmulator.RelayShard

/-!
# Relay shards between epochs

Any number of shards with their leaders, and the messages under way between them. The
supervisor injects transactions and sends new placements; leaders commit blocks, relay
them, and transfer accounts when an epoch ends; a message arrives; in any order.

A transaction that is not done is in one place: in a pool, in a Relay message, in a
message with accounts, or at a leader that collects these. `ClpaSound` is this
invariant: a first phase is executed nowhere, and what is pooled is not executed there.
Every step keeps it but one: a transfer that gives a shard the second phase of a
transaction whose first phase the shard has executed (`ClpaAction.NoReturn`).
-/

namespace BlockEmulator

open Accounting StepSystem

variable {H : Type} [DecidableEq H]

/-- The configuration of one shard. -/
def ChainConfig.ofShard (cc : ChainConfig H) (k : ℕ) : ChainConfig H := { cc with shardID := k }

/-- The state of a system of shards. -/
structure ClpaState (H : Type) where
  /-- the leader of each shard -/
  nodes : ℕ → ClpaNode H
  /-- the messages under way, with their destinations -/
  flight : List (ℕ × ClpaMessage)
  /-- the hashes that were injected -/
  used : Finset Bytes
  /-- the hashes whose second phase was executed -/
  credited : Finset Bytes

/-- What can happen in a system of shards. -/
inductive ClpaAction where
  /-- the supervisor injects transactions at a shard -/
  | inject (sid : ℕ) (txs : List Transaction)
  /-- the supervisor sends new placements to all shards -/
  | repartition (m : PartitionModified)
  /-- the leader of a shard commits a block and relays it -/
  | commit (sid miner : ℕ) (now : Time)
  /-- the leader of a shard tells the others that it is ready for new placements -/
  | ready (sid : ℕ)
  /-- the leader of a shard finds all shards ready and sends accounts -/
  | sendAccounts (sid : ℕ)
  /-- the leader of a shard has all accounts, and the shard installs them -/
  | transfer (sid : ℕ)
  /-- a message arrives -/
  | deliver (k : ℕ)

/-- The second phases in the body of a block. -/
def creditedIn (body : List (Option Transaction)) : Finset Bytes :=
  (((body.filterMap id).filter (·.relayed)).map (·.txHash)).toFinset

namespace ClpaState

variable (cc : ChainConfig H)

/-- The system just started. -/
def start : ClpaState H where
  nodes k := .new (genesisChain (cc.ofShard k))
  flight := []
  used := ∅
  credited := ∅

/-- What the supervisor may inject: first phases with new, distinct hashes. -/
def Injectable (s : ClpaState H) (sid : ℕ) (txs : List Transaction) : Prop :=
  sid < cc.shardNums ∧ (txs.map (·.txHash)).Nodup ∧
    ∀ tx ∈ txs, tx.relayed = false ∧ tx.txHash ≠ [] ∧ tx.txHash ∉ s.used

instance (s : ClpaState H) (sid : ℕ) (txs : List Transaction) :
    Decidable (s.Injectable cc sid txs) :=
  inferInstanceAs (Decidable (_ ∧ _ ∧ _))

/-- One step of the system. -/
def step (s : ClpaState H) : ClpaAction → Option (ClpaState H)
  | .inject sid txs =>
    if s.Injectable cc sid txs then
      some { s with
        nodes := Function.update s.nodes sid ((s.nodes sid).handleInjectTx txs)
        used := s.used ∪ (txs.map (·.txHash)).toFinset }
    else none
  | .repartition m =>
    some { s with
      flight := s.flight ++ (List.range cc.shardNums).map fun sid => (sid, .partitionMsg m) }
  | .commit sid miner now =>
    let nd := s.nodes sid
    if sid < cc.shardNums ∧ nd.stage = .idle ∧ nd.partitionOn = false then
      (leaderRound (cc.ofShard sid) miner nd.sequenceID now nd.curChain).map fun r =>
        { s with
          nodes := Function.update s.nodes sid
            { nd with curChain := r.1, sequenceID := nd.sequenceID + 1 }
          flight := s.flight ++ r.2.map fun e => (e.1, .relay e.2)
          credited := s.credited ∪ creditedIn r.1.currentBlock.body }
    else none
  | .ready sid =>
    let nd := s.nodes sid
    if sid < cc.shardNums ∧ nd.stage = .idle ∧ nd.partitionOn = true then
      let r := nd.sendPartitionReady (cc.ofShard sid)
      some { s with
        nodes := Function.update s.nodes sid { r.1 with stage := .waitReady }
        flight := s.flight ++ r.2 }
    else none
  | .sendAccounts sid =>
    let nd := s.nodes sid
    if sid < cc.shardNums ∧ nd.stage = .waitReady ∧
        nd.getPartitionReady (cc.ofShard sid) = true then
      (nd.sendAccountsAndTxs (cc.ofShard sid)).map fun r =>
        { s with
          nodes := Function.update s.nodes sid { r.1 with stage := .waitCollect }
          flight := s.flight ++ r.2 }
    else none
  | .transfer sid =>
    let nd := s.nodes sid
    if sid < cc.shardNums ∧ nd.stage = .waitCollect ∧ nd.collectOver = true then
      (nd.proposePartition (cc.ofShard sid)).bind fun r =>
        (r.1.accountTransferDo (cc.ofShard sid) r.2).map fun nd =>
          { s with
            nodes := Function.update s.nodes sid
              { nd with stage := .idle, sequenceID := nd.sequenceID + 1 } }
    else none
  | .deliver k =>
    s.flight[k]?.map fun e =>
      { s with
        nodes := Function.update s.nodes e.1
          ((s.nodes e.1).handleMessageOutsidePBFT (cc.ofShard e.1) e.2)
        flight := s.flight.eraseIdx k }

/-! ### What each step does -/

variable {cc} {s t : ClpaState H} {sid : ℕ}

theorem step_inject {txs : List Transaction} (h : s.step cc (.inject sid txs) = some t) :
    s.Injectable cc sid txs ∧
      t = { s with
        nodes := Function.update s.nodes sid ((s.nodes sid).handleInjectTx txs)
        used := s.used ∪ (txs.map (·.txHash)).toFinset } := by
  obtain ⟨hin, h⟩ := Option.ite_none_right_eq_some.mp h
  exact ⟨hin, (Option.some.inj h).symm⟩

theorem step_repartition {m : PartitionModified} (h : s.step cc (.repartition m) = some t) :
    t = { s with
      flight := s.flight ++ (List.range cc.shardNums).map fun sid => (sid, .partitionMsg m) } :=
  (Option.some.inj h).symm

theorem step_commit {miner : ℕ} {now : Time} (h : s.step cc (.commit sid miner now) = some t) :
    ∃ bc relays, (sid < cc.shardNums ∧ (s.nodes sid).stage = .idle ∧
        (s.nodes sid).partitionOn = false) ∧
      leaderRound (cc.ofShard sid) miner (s.nodes sid).sequenceID now (s.nodes sid).curChain =
        some (bc, relays) ∧
      t = { s with
        nodes := Function.update s.nodes sid
          { s.nodes sid with curChain := bc, sequenceID := (s.nodes sid).sequenceID + 1 }
        flight := s.flight ++ relays.map fun e => (e.1, .relay e.2)
        credited := s.credited ∪ creditedIn bc.currentBlock.body } := by
  obtain ⟨hin, h⟩ := Option.ite_none_right_eq_some.mp h
  obtain ⟨⟨bc, relays⟩, hround, rfl⟩ := Option.map_eq_some_iff.mp h
  exact ⟨bc, relays, hin, hround, rfl⟩

theorem step_ready (h : s.step cc (.ready sid) = some t) :
    (sid < cc.shardNums ∧ (s.nodes sid).stage = .idle ∧ (s.nodes sid).partitionOn = true) ∧
      t = { s with
        nodes := Function.update s.nodes sid
          { ((s.nodes sid).sendPartitionReady (cc.ofShard sid)).1 with stage := .waitReady }
        flight := s.flight ++ ((s.nodes sid).sendPartitionReady (cc.ofShard sid)).2 } := by
  obtain ⟨hin, h⟩ := Option.ite_none_right_eq_some.mp h
  exact ⟨hin, (Option.some.inj h).symm⟩

theorem step_sendAccounts (h : s.step cc (.sendAccounts sid) = some t) :
    ∃ nd msgs, (sid < cc.shardNums ∧ (s.nodes sid).stage = .waitReady ∧
        (s.nodes sid).getPartitionReady (cc.ofShard sid) = true) ∧
      (s.nodes sid).sendAccountsAndTxs (cc.ofShard sid) = some (nd, msgs) ∧
      t = { s with
        nodes := Function.update s.nodes sid { nd with stage := .waitCollect }
        flight := s.flight ++ msgs } := by
  obtain ⟨hin, h⟩ := Option.ite_none_right_eq_some.mp h
  obtain ⟨⟨nd, msgs⟩, hsend, rfl⟩ := Option.map_eq_some_iff.mp h
  exact ⟨nd, msgs, hin, hsend, rfl⟩

theorem step_transfer (h : s.step cc (.transfer sid) = some t) :
    ∃ nd₁ nd₂ atm, (sid < cc.shardNums ∧ (s.nodes sid).stage = .waitCollect ∧
        (s.nodes sid).collectOver = true) ∧
      (s.nodes sid).proposePartition (cc.ofShard sid) = some (nd₁, atm) ∧
      nd₁.accountTransferDo (cc.ofShard sid) atm = some nd₂ ∧
      t = { s with
        nodes := Function.update s.nodes sid
          { nd₂ with stage := .idle, sequenceID := nd₂.sequenceID + 1 } } := by
  obtain ⟨hin, h⟩ := Option.ite_none_right_eq_some.mp h
  obtain ⟨⟨nd₁, atm⟩, hprop, h⟩ := Option.bind_eq_some_iff.mp h
  obtain ⟨nd₂, hdo, rfl⟩ := Option.map_eq_some_iff.mp h
  exact ⟨nd₁, nd₂, atm, hin, hprop, hdo, rfl⟩

theorem step_deliver {i : ℕ} (h : s.step cc (.deliver i) = some t) :
    ∃ k m, s.flight[i]? = some (k, m) ∧
      t = { s with
        nodes := Function.update s.nodes k
          ((s.nodes k).handleMessageOutsidePBFT (cc.ofShard k) m)
        flight := s.flight.eraseIdx i } := by
  obtain ⟨⟨k, m⟩, he, rfl⟩ := Option.map_eq_some_iff.mp h
  exact ⟨k, m, he, rfl⟩

end ClpaState

/-! ## Where transactions are -/

/-- The places of transactions that are not done. -/
inductive Location where
  /-- the pool of a shard -/
  | pool (k : ℕ)
  /-- at a leader that collects what comes with accounts -/
  | collected (k : ℕ)
  /-- in a Relay message to a shard -/
  | relay (k : ℕ)
  /-- in a message with accounts to a shard -/
  | transfer (k : ℕ)

/-- A transaction in its place. -/
abbrev Token : Type := Location × Transaction

/-- The hash of a token. -/
def Token.txHash (p : Token) : Bytes := p.2.txHash

/-- Some transactions in one place. -/
def tokensAt (l : Location) (txs : List Transaction) : Multiset Token :=
  (txs.map fun tx => (l, tx) : List Token)

theorem mem_tokensAt {l : Location} {txs : List Transaction} {p : Token} :
    p ∈ tokensAt l txs ↔ p.1 = l ∧ p.2 ∈ txs := by
  obtain ⟨l', tx⟩ := p
  simp [tokensAt, eq_comm, and_comm]

theorem tokensAt_append (l : Location) (txs txs' : List Transaction) :
    tokensAt l (txs ++ txs') = tokensAt l txs + tokensAt l txs' := by
  rw [tokensAt, List.map_append]
  rfl

theorem tokensAt_le (l : Location) {txs txs' : List Transaction} (h : txs.Sublist txs') :
    tokensAt l txs ≤ tokensAt l txs' :=
  Multiset.coe_le.mpr (h.map _).subperm

theorem map_tokensAt (l : Location) (txs : List Transaction) :
    (tokensAt l txs).map Token.txHash = (txs.map (·.txHash) : List Bytes) := by
  rw [tokensAt, Multiset.map_coe, List.map_map]
  rfl

/-- The tokens at a leader. -/
def ClpaNode.tokens (k : ℕ) (nd : ClpaNode H) : Multiset Token :=
  tokensAt (.pool k) nd.curChain.pooled + tokensAt (.collected k) nd.collected

/-- The tokens in a message. -/
def messageTokens : ℕ × ClpaMessage → Multiset Token
  | (k, .relay m) => tokensAt (.relay k) m.txs
  | (k, .accountStateAndTx m) => tokensAt (.transfer k) m.txs
  | (_, .partitionMsg _) => 0
  | (_, .partitionReady _ _) => 0

/-- The tokens in some messages. -/
def flightTokens (fl : List (ℕ × ClpaMessage)) : Multiset Token := (fl.map messageTokens).sum

theorem flightTokens_append (fl fl' : List (ℕ × ClpaMessage)) :
    flightTokens (fl ++ fl') = flightTokens fl + flightTokens fl' := by
  rw [flightTokens, List.map_append, List.sum_append]
  rfl

theorem flightTokens_eraseIdx {fl : List (ℕ × ClpaMessage)} {k : ℕ} {e : ℕ × ClpaMessage}
    (h : fl[k]? = some e) : flightTokens fl = messageTokens e + flightTokens (fl.eraseIdx k) := by
  obtain ⟨hk, rfl⟩ := List.getElem?_eq_some_iff.mp h
  rw [flightTokens, ((List.getElem_cons_eraseIdx_perm hk).symm.map messageTokens).sum_eq,
    List.map_cons, List.sum_cons]
  rfl

theorem flightTokens_cons (e : ℕ × ClpaMessage) (fl : List (ℕ × ClpaMessage)) :
    flightTokens (e :: fl) = messageTokens e + flightTokens fl := by
  rw [flightTokens, List.map_cons, List.sum_cons]
  rfl

theorem mem_flightTokens {fl : List (ℕ × ClpaMessage)} {p : Token} :
    p ∈ flightTokens fl ↔ ∃ e ∈ fl, p ∈ messageTokens e := by
  induction fl with
  | nil => simp [flightTokens]
  | cons e fl ih => rw [flightTokens_cons, Multiset.mem_add, ih, List.exists_mem_cons_iff]

/-- The hashes in messages that are made of some transactions each. -/
theorem map_flightTokens {α : Type} (xs : List α) {msg : α → ℕ × ClpaMessage}
    {l : α → Location} {txs : α → List Transaction}
    (h : ∀ x, messageTokens (msg x) = tokensAt (l x) (txs x)) :
    (flightTokens (xs.map msg)).map Token.txHash =
      ((xs.flatMap txs).map (·.txHash) : List Bytes) := by
  induction xs with
  | nil => rfl
  | cons x xs ih =>
    rw [List.map_cons, flightTokens_cons, Multiset.map_add, ih, h, map_tokensAt, List.flatMap_cons,
      List.map_append]
    rfl

/-- Messages without transactions. -/
theorem flightTokens_eq_zero {fl : List (ℕ × ClpaMessage)}
    (h : ∀ e ∈ fl, messageTokens e = 0) : flightTokens fl = 0 := by
  refine List.sum_eq_zero fun m hm => ?_
  obtain ⟨e, he, rfl⟩ := List.mem_map.mp hm
  exact h e he

/-- All tokens of a system. -/
def ClpaState.tokens (n : ℕ) (s : ClpaState H) : Multiset Token :=
  total n ClpaNode.tokens s.nodes + flightTokens s.flight

/-- The index of a shard. -/
def ClpaState.executed (s : ClpaState H) (k : ℕ) : Finset Bytes :=
  (s.nodes k).curChain.storage.executedTransaction

/-! ## Where they may be executed -/

/-- What is true of a transaction that is not done. -/
structure TokenGood (s : ClpaState H) (p : Token) : Prop where
  /-- there is a hash -/
  hash : p.txHash ≠ []
  /-- it was injected -/
  used : p.txHash ∈ s.used
  /-- a first phase is executed nowhere -/
  first : p.2.relayed = false → ∀ k, p.txHash ∉ s.executed k
  /-- what is pooled, or on its way to a pool, is not executed there -/
  here : ∀ k, p.1 = .pool k ∨ p.1 = .relay k → p.txHash ∉ s.executed k

/-- Every transaction that is not done is in one place, where it can be executed. -/
structure ClpaSound (n : ℕ) (s : ClpaState H) : Prop where
  /-- pools hold no nil pointers -/
  queue : ∀ k, (s.nodes k).curChain.txpool.txQueue = (s.nodes k).curChain.pooled.map some
  /-- nothing is left from the last transfer -/
  receivedNewTx : ∀ k, (s.nodes k).receivedNewTx = []
  /-- messages go to shards -/
  dest : ∀ e ∈ s.flight, e.1 < n
  /-- what was executed was injected -/
  executed : ∀ k, s.executed k ⊆ s.used
  /-- nothing is in two places -/
  nodup : ((s.tokens n).map Token.txHash).Nodup
  /-- everything can be executed where it is -/
  good : ∀ p ∈ s.tokens n, TokenGood s p

/-- Whether a step brings no second phase back to a shard that has executed the first. -/
def ClpaAction.NoReturn (s : ClpaState H) : ClpaAction → Prop
  | .transfer sid => ∀ tx ∈ (s.nodes sid).collected, tx.relayed = true →
      tx.txHash ∉ s.executed sid
  | _ => True

instance (s : ClpaState H) (a : ClpaAction) : Decidable (a.NoReturn s) :=
  match a with
  | .transfer sid => inferInstanceAs (Decidable (∀ tx ∈ (s.nodes sid).collected, _))
  | .inject .. | .repartition _ | .commit .. | .ready _ | .sendAccounts _ | .deliver _ =>
    inferInstanceAs (Decidable True)

variable {cc : ChainConfig H} {n : ℕ} {s t : ClpaState H} {a : ClpaAction}

omit [DecidableEq H] in
/-- The other tokens stay good where some tokens are replaced: what was executed
meanwhile was among the replaced ones. -/
theorem ClpaSound.replace (hs : ClpaSound n s) {A B B' : Multiset Token}
    (hA : s.tokens n = A + B) (hA' : t.tokens n ≤ A + B')
    (hnd : ((A + B').map Token.txHash).Nodup) (hused : s.used ⊆ t.used)
    (hexec : ∀ k b, b ∈ t.executed k → b ∈ s.executed k ∨ b ∈ B.map Token.txHash)
    (hgood : ∀ p ∈ B', TokenGood t p) :
    ((t.tokens n).map Token.txHash).Nodup ∧ ∀ p ∈ t.tokens n, TokenGood t p := by
  refine ⟨Multiset.nodup_of_le (Multiset.map_le_map hA') hnd, fun p hp => ?_⟩
  rcases Multiset.mem_add.mp (Multiset.mem_of_le hA' hp) with hp | hp
  · have hold := hs.good p (hA ▸ Multiset.mem_add.mpr (.inl hp))
    have hnodup := hs.nodup
    rw [hA, Multiset.map_add] at hnodup
    have hne : p.txHash ∉ B.map Token.txHash :=
      Multiset.disjoint_left.mp (Multiset.nodup_add.mp hnodup).2.2 (Multiset.mem_map_of_mem _ hp)
    refine ⟨hold.hash, hused hold.used, fun hr k hex => ?_, fun k hl hex => ?_⟩
    · exact (hexec k _ hex).elim (hold.first hr k) hne
    · exact (hexec k _ hex).elim (hold.here k hl) hne
  · exact hgood p hp

omit [DecidableEq H] in
/-- Fewer hashes than before. -/
theorem ClpaSound.nodup_of_le (hs : ClpaSound n s) {A B B' : Multiset Token}
    (hA : s.tokens n = A + B) (h : B'.map Token.txHash ≤ B.map Token.txHash) :
    ((A + B').map Token.txHash).Nodup := by
  have hnodup := hs.nodup
  rw [hA, Multiset.map_add] at hnodup
  rw [Multiset.map_add]
  exact Multiset.nodup_of_le (add_le_add_right h _) hnodup

omit [DecidableEq H] in
/-- The tokens of one leader and of the messages, and those of the other leaders. -/
theorem ClpaState.tokens_eq (s : ClpaState H) {k : ℕ} (hk : k < n) :
    s.tokens n = others n ClpaNode.tokens s.nodes k +
      ((s.nodes k).tokens k + flightTokens s.flight) := by
  rw [tokens, total_eq hk, add_comm ((s.nodes k).tokens k), add_assoc]

omit [DecidableEq H] in
/-- The same after a step of this leader. -/
theorem ClpaState.tokens_update {nodes : ℕ → ClpaNode H} {k : ℕ} (hk : k < n) (nd : ClpaNode H)
    (fl : List (ℕ × ClpaMessage)) (u c : Finset Bytes) :
    ({ nodes := Function.update nodes k nd, flight := fl, used := u, credited := c } :
        ClpaState H).tokens n =
      others n ClpaNode.tokens nodes k + (nd.tokens k + flightTokens fl) := by
  rw [tokens_eq _ hk]
  dsimp only
  rw [others_update, Function.update_self]

namespace ClpaSound

omit [DecidableEq H] in
theorem start : ClpaSound n (ClpaState.start cc) where
  queue k := rfl
  receivedNewTx k := rfl
  dest e he := absurd he List.not_mem_nil
  executed k := Finset.empty_subset _
  nodup := by simp [ClpaState.tokens, ClpaState.start, total, ClpaNode.tokens, ClpaNode.new,
    tokensAt, BlockChain.pooled, ClpaNode.collected, genesisChain, TxPool.new, flightTokens]
  good p hp := by simp [ClpaState.tokens, ClpaState.start, total, ClpaNode.tokens, ClpaNode.new,
    tokensAt, BlockChain.pooled, ClpaNode.collected, genesisChain, TxPool.new,
    flightTokens] at hp

omit [DecidableEq H] in
/-- Tokens that move, while nothing is executed: where they may be executed now, they
might before, or they are second phases that were not executed there. -/
theorem move (hs : ClpaSound n s) {A B B' : Multiset Token} (hA : s.tokens n = A + B)
    (hA' : t.tokens n ≤ A + B') (hle : B'.map Token.txHash ≤ B.map Token.txHash)
    (hused : t.used = s.used) (hexec : ∀ k, t.executed k = s.executed k)
    (hmove : ∀ p' ∈ B', ∃ p ∈ B, p'.2 = p.2 ∧ ∀ k, p'.1 = .pool k ∨ p'.1 = .relay k →
      (p.1 = .pool k ∨ p.1 = .relay k) ∨
        (p.2.relayed = true → p.txHash ∉ s.executed k)) :
    ((t.tokens n).map Token.txHash).Nodup ∧ ∀ p ∈ t.tokens n, TokenGood t p := by
  refine hs.replace hA hA' (hs.nodup_of_le hA hle) (hused ▸ Finset.Subset.refl _)
    (fun k b hb => .inl (hexec k ▸ hb)) fun p' hp' => ?_
  obtain ⟨p, hp, htx, hl⟩ := hmove p' hp'
  have hold := hs.good p (hA ▸ Multiset.mem_add.mpr (.inr hp))
  have hhash : p'.txHash = p.txHash := congrArg Transaction.txHash htx
  refine ⟨hhash ▸ hold.hash, hhash ▸ hused ▸ hold.used, fun hr k => ?_, fun k hk => ?_⟩
  · rw [hhash, hexec k]
    exact hold.first (htx ▸ hr) k
  · rw [hhash, hexec k]
    rcases hl k hk with hl | hl
    · exact hold.here k hl
    · cases hr : p.2.relayed with
      | false => exact hold.first hr k
      | true => exact hl hr

omit [DecidableEq H] in
/-- A step of one leader, as far as its tokens are sound. -/
theorem update (hs : ClpaSound n s) {k : ℕ} {nd : ClpaNode H} {fl : List (ℕ × ClpaMessage)}
    {u c : Finset Bytes} (ht : t = ⟨Function.update s.nodes k nd, fl, u, c⟩)
    (hq : nd.curChain.txpool.txQueue = nd.curChain.pooled.map some)
    (hr : nd.receivedNewTx = []) (hd : ∀ e ∈ fl, e.1 < n) (hu : s.used ⊆ u)
    (hx : nd.curChain.storage.executedTransaction ⊆ u)
    (htok : ((t.tokens n).map Token.txHash).Nodup ∧ ∀ p ∈ t.tokens n, TokenGood t p) :
    ClpaSound n t := by
  have hnodes : ∀ i, t.nodes i = if i = k then nd else s.nodes i := by
    intro i
    rw [ht]
    exact Function.update_apply ..
  refine ⟨fun i => ?_, fun i => ?_, by rw [ht]; exact hd, fun i => ?_, htok.1, htok.2⟩
  · rw [hnodes]
    split
    · exact hq
    · exact hs.queue i
  · rw [hnodes]
    split
    · exact hr
    · exact hs.receivedNewTx i
  · rw [ClpaState.executed, hnodes, ht]
    split
    · exact hx
    · exact (hs.executed i).trans hu

end ClpaSound

omit [DecidableEq H] in
/-- Only the index of one leader changes. -/
theorem ClpaState.executed_update {nodes : ℕ → ClpaNode H} {k : ℕ} {nd : ClpaNode H}
    {fl : List (ℕ × ClpaMessage)} {u c : Finset Bytes} (i : ℕ) :
    (⟨Function.update nodes k nd, fl, u, c⟩ : ClpaState H).executed i =
      if i = k then nd.curChain.storage.executedTransaction
      else (nodes i).curChain.storage.executedTransaction := by
  rw [executed]
  dsimp only
  rw [Function.update_apply]
  split
  · rfl
  · rfl

omit [DecidableEq H] in
/-- No index changes where one leader keeps its own. -/
theorem ClpaState.executed_update_same {k : ℕ} {nd : ClpaNode H}
    {fl : List (ℕ × ClpaMessage)} {u c : Finset Bytes}
    (h : nd.curChain.storage.executedTransaction = s.executed k) (i : ℕ) :
    (⟨Function.update s.nodes k nd, fl, u, c⟩ : ClpaState H).executed i = s.executed i := by
  rw [executed_update]
  split
  · rename_i hi
    rw [hi, h]
  · rfl

omit [DecidableEq H] in
/-- The tokens at a leader whose pool gets transactions. -/
theorem ClpaNode.tokens_received {nd nd' : ClpaNode H} {txs : List Transaction} (k : ℕ)
    (hq : nd.curChain.txpool.txQueue = nd.curChain.pooled.map some)
    (hc : nd'.curChain = nd.curChain.received txs) :
    nd'.tokens k = tokensAt (.pool k) nd.curChain.pooled + tokensAt (.pool k) txs +
      tokensAt (.collected k) nd'.collected := by
  rw [tokens, hc, BlockChain.received_pooled hq, tokensAt_append]

namespace ClpaSound

/-- Injected transactions are new everywhere. -/
theorem inject (hs : ClpaSound cc.shardNums s) {sid : ℕ} {txs : List Transaction}
    (h : s.step cc (.inject sid txs) = some t) : ClpaSound cc.shardNums t := by
  obtain ⟨⟨hk, hnd, hall⟩, ht⟩ := ClpaState.step_inject h
  have hused : s.used ⊆ s.used ∪ (txs.map (·.txHash)).toFinset := Finset.subset_union_left
  have htok : t.tokens cc.shardNums = s.tokens cc.shardNums + tokensAt (.pool sid) txs := by
    rw [ht, ClpaState.tokens_update hk, s.tokens_eq hk,
      ClpaNode.tokens_received sid (hs.queue sid) rfl, ClpaNode.tokens]
    simp only [ClpaNode.handleInjectTx, ClpaNode.collected]
    abel
  have hexec : ∀ i, t.executed i = s.executed i := by
    intro i
    rw [ht, ClpaState.executed_update_same (by rfl)]
  have hnew : ∀ b ∈ (tokensAt (.pool sid) txs).map Token.txHash, b ∉ s.used := by
    intro b hb
    rw [map_tokensAt] at hb
    obtain ⟨tx, htx, rfl⟩ := List.mem_map.mp (Multiset.mem_coe.mp hb)
    exact (hall tx htx).2.2
  refine hs.update ht (BlockChain.received_queue (hs.queue sid) txs) (hs.receivedNewTx sid)
    hs.dest hused ((hs.executed sid).trans hused) ?_
  refine hs.replace (add_zero _).symm htok.le ?_ (by rw [ht]; exact hused)
    (fun k b hb => .inl (hexec k ▸ hb)) fun p hp => ?_
  · rw [Multiset.map_add, Multiset.nodup_add, map_tokensAt]
    refine ⟨hs.nodup, Multiset.coe_nodup.mpr hnd, Multiset.disjoint_right.mpr fun hb hold => ?_⟩
    obtain ⟨p, hp, rfl⟩ := Multiset.mem_map.mp hold
    exact hnew _ (by rwa [map_tokensAt]) (hs.good p hp).used
  · have hout : ∀ k, p.txHash ∉ t.executed k :=
      fun k hex => hnew _ (Multiset.mem_map_of_mem _ hp) (hs.executed k (hexec k ▸ hex))
    obtain ⟨-, htx⟩ := mem_tokensAt.mp hp
    refine ⟨(hall p.2 htx).2.1, ?_, fun _ => hout, fun k _ => hout k⟩
    rw [ht]
    exact Finset.mem_union_right _ (List.mem_toFinset.mpr (List.mem_map_of_mem htx))

omit [DecidableEq H] in
/-- Nothing moves where only messages without transactions come and go. -/
theorem quiet (hs : ClpaSound n s) {k : ℕ} {nd : ClpaNode H} {fl : List (ℕ × ClpaMessage)}
    (ht : t = ⟨Function.update s.nodes k nd, fl, s.used, s.credited⟩) (hk : k < n)
    (hc : nd.curChain = (s.nodes k).curChain) (hr : nd.receivedNewTx = [])
    (hcol : nd.collected = (s.nodes k).collected)
    (hfl : flightTokens fl = flightTokens s.flight) (hd : ∀ e ∈ fl, e.1 < n) :
    ClpaSound n t := by
  have htok : t.tokens n = s.tokens n := by
    rw [ht, ClpaState.tokens_update hk, s.tokens_eq hk, ClpaNode.tokens, ClpaNode.tokens, hc, hcol,
      hfl]
  have hexec : ∀ i, t.executed i = s.executed i := by
    intro i
    rw [ht, ClpaState.executed_update_same (by rw [hc]; rfl)]
  exact hs.update ht (hc ▸ hs.queue k) hr hd (Finset.Subset.refl _) (hc ▸ hs.executed k)
    (hs.move (add_zero _).symm (htok.trans (add_zero _).symm).le (le_refl _)
      (by rw [ht]) hexec fun p hp => absurd hp (Multiset.notMem_zero p))

/-- New placements are sent without transactions. -/
theorem repartition (hs : ClpaSound cc.shardNums s) {m : PartitionModified}
    (h : s.step cc (.repartition m) = some t) : ClpaSound cc.shardNums t := by
  have ht := ClpaState.step_repartition h
  have hzero : flightTokens ((List.range cc.shardNums).map fun sid => (sid, .partitionMsg m)) =
      0 := by
    refine flightTokens_eq_zero fun e he => ?_
    obtain ⟨sid, -, rfl⟩ := List.mem_map.mp he
    rfl
  have htok : t.tokens cc.shardNums = s.tokens cc.shardNums := by
    rw [ht, ClpaState.tokens, flightTokens_append, hzero, add_zero, ClpaState.tokens]
  obtain ⟨hnd, hgood⟩ := hs.move (t := t) (add_zero _).symm (htok.trans (add_zero _).symm).le
    (le_refl _) (by rw [ht]) (fun k => by rw [ht]; rfl) fun p hp => absurd hp (Multiset.notMem_zero p)
  refine ⟨?_, ?_, fun e he => ?_, ?_, hnd, hgood⟩
  · rw [ht]
    exact hs.queue
  · rw [ht]
    exact hs.receivedNewTx
  · rw [ht] at he
    rcases List.mem_append.mp he with he | he
    · exact hs.dest e he
    · obtain ⟨sid, hsid, rfl⟩ := List.mem_map.mp he
      exact List.mem_range.mp hsid
  · rw [ht]
    exact hs.executed

/-- So is the message that a shard is ready. -/
theorem ready (hs : ClpaSound cc.shardNums s) {sid : ℕ}
    (h : s.step cc (.ready sid) = some t) : ClpaSound cc.shardNums t := by
  obtain ⟨hin, ht⟩ := ClpaState.step_ready h
  refine hs.quiet ht hin.1 rfl (hs.receivedNewTx sid) rfl ?_ fun e he => ?_
  · refine (flightTokens_append _ _).trans (add_eq_left.mpr (flightTokens_eq_zero fun e he => ?_))
    obtain ⟨i, -, rfl⟩ := List.mem_map.mp he
    rfl
  · rcases List.mem_append.mp he with he | he
    · exact hs.dest e he
    · obtain ⟨i, hi, rfl⟩ := List.mem_map.mp he
      exact List.mem_range.mp (List.mem_filter.mp hi).1

/-- Transactions that leave a pool go into messages with accounts. -/
theorem sendAccounts (hs : ClpaSound cc.shardNums s) {sid : ℕ}
    (h : s.step cc (.sendAccounts sid) = some t) : ClpaSound cc.shardNums t := by
  obtain ⟨nd, msgs, ⟨hk, -, -⟩, hsend, ht⟩ := ClpaState.step_sendAccounts h
  obtain ⟨sends, stay, rfl, hperm, hdest, rfl⟩ :=
    ClpaNode.sendAccountsAndTxs_spec (hs.queue sid) hsend
  have hA : s.tokens cc.shardNums = others cc.shardNums ClpaNode.tokens s.nodes sid +
      tokensAt (.collected sid) (s.nodes sid).collected + flightTokens s.flight +
        tokensAt (.pool sid) (s.nodes sid).curChain.pooled := by
    rw [s.tokens_eq hk, ClpaNode.tokens]
    abel
  have hA' : t.tokens cc.shardNums = others cc.shardNums ClpaNode.tokens s.nodes sid +
      tokensAt (.collected sid) (s.nodes sid).collected + flightTokens s.flight +
        (tokensAt (.pool sid) stay + flightTokens (ClpaNode.transferMessages sends)) := by
    rw [ht, ClpaState.tokens_update hk, ClpaNode.tokens, BlockChain.pooled_eq rfl,
      flightTokens_append]
    simp only [ClpaNode.collected]
    abel
  have hhash : (tokensAt (.pool sid) stay +
      flightTokens (ClpaNode.transferMessages sends)).map Token.txHash =
        (tokensAt (.pool sid) (s.nodes sid).curChain.pooled).map Token.txHash := by
    rw [Multiset.map_add, map_tokensAt, map_tokensAt, ClpaNode.transferMessages,
      map_flightTokens sends fun e => rfl, add_comm, Multiset.coe_add, ← List.map_append]
    exact Multiset.coe_eq_coe.mpr (hperm.symm.map _)
  have hexec : ∀ i, t.executed i = s.executed i := by
    intro i
    rw [ht, ClpaState.executed_update_same (by rfl)]
  refine hs.update ht (by rw [BlockChain.pooled_eq rfl]) (hs.receivedNewTx sid)
    (fun e he => ?_) (Finset.Subset.refl _) (hs.executed sid)
    (hs.move hA hA'.le hhash.le (by rw [ht]) hexec fun p' hp' => ?_)
  · rcases List.mem_append.mp he with he | he
    · exact hs.dest e he
    · obtain ⟨e', he', rfl⟩ := List.mem_map.mp he
      exact hdest e' he'
  · rcases Multiset.mem_add.mp hp' with hp' | hp'
    · obtain ⟨hl, htx⟩ := mem_tokensAt.mp hp'
      refine ⟨p', mem_tokensAt.mpr ⟨hl, hperm.mem_iff.mpr ?_⟩, rfl, fun k hk => .inl hk⟩
      exact List.mem_append_right _ htx
    · obtain ⟨e, he, hp'⟩ := mem_flightTokens.mp hp'
      obtain ⟨e', he', rfl⟩ := List.mem_map.mp he
      obtain ⟨hl, htx⟩ := mem_tokensAt.mp hp'
      refine ⟨(.pool sid, p'.2), mem_tokensAt.mpr ⟨rfl, hperm.mem_iff.mpr ?_⟩, rfl,
        fun k hk => ?_⟩
      · exact List.mem_append_left _ (List.mem_flatMap.mpr ⟨e', he', htx⟩)
      · rw [hl] at hk
        rcases hk with hk | hk
        · cases hk
        · cases hk

/-- Transactions that arrive with accounts are pooled, where the shard has not executed
their first phases. -/
theorem transfer (hs : ClpaSound cc.shardNums s) {sid : ℕ}
    (hok : ∀ tx ∈ (s.nodes sid).collected, tx.relayed = true → tx.txHash ∉ s.executed sid)
    (h : s.step cc (.transfer sid) = some t) : ClpaSound cc.shardNums t := by
  obtain ⟨nd, nd', atm, ⟨hk, -, -⟩, hprop, hdo, ht⟩ := ClpaState.step_transfer h
  have hchain := ClpaNode.proposePartition_spec hprop
  obtain ⟨hpool, hstorage, hreceived, hcollected⟩ := ClpaNode.accountTransferDo_spec hdo
  rw [hs.receivedNewTx sid, List.nil_append] at hchain
  rw [hchain] at hpool hstorage
  have hpooled : nd'.curChain.pooled =
      (s.nodes sid).curChain.pooled ++ (s.nodes sid).collected := by
    rw [← BlockChain.received_pooled (hs.queue sid), BlockChain.pooled, hpool]
    rfl
  have hA : s.tokens cc.shardNums = others cc.shardNums ClpaNode.tokens s.nodes sid +
      tokensAt (.pool sid) (s.nodes sid).curChain.pooled + flightTokens s.flight +
        tokensAt (.collected sid) (s.nodes sid).collected := by
    rw [s.tokens_eq hk, ClpaNode.tokens]
    abel
  have hA' : t.tokens cc.shardNums = others cc.shardNums ClpaNode.tokens s.nodes sid +
      tokensAt (.pool sid) (s.nodes sid).curChain.pooled + flightTokens s.flight +
        tokensAt (.pool sid) (s.nodes sid).collected := by
    have hnone : ({ nd' with stage := .idle, sequenceID := nd'.sequenceID + 1 } :
        ClpaNode H).collected = [] := hcollected
    rw [ht, ClpaState.tokens_update hk, ClpaNode.tokens, hnone, hpooled, tokensAt_append]
    simp only [tokensAt, List.map_nil, Multiset.coe_nil]
    abel
  have hexec : ∀ i, t.executed i = s.executed i := by
    intro i
    rw [ht]
    refine ClpaState.executed_update_same ?_ i
    exact hstorage
  refine hs.update ht ?_ hreceived hs.dest (Finset.Subset.refl _)
    (by rw [hstorage]; exact hs.executed sid)
    (hs.move hA hA'.le (by rw [map_tokensAt, map_tokensAt]) (by rw [ht]) hexec
      fun p' hp' => ?_)
  · dsimp only
    rw [hpool, hpooled, ← BlockChain.received_pooled (hs.queue sid)]
    exact BlockChain.received_queue (hs.queue sid) _
  · obtain ⟨hl, htx⟩ := mem_tokensAt.mp hp'
    refine ⟨(.collected sid, p'.2), mem_tokensAt.mpr ⟨rfl, htx⟩, rfl, fun k hk => .inr ?_⟩
    intro hr
    rw [hl] at hk
    rcases hk with hk | hk
    · obtain rfl := Location.pool.inj hk
      exact hok p'.2 htx hr
    · cases hk

/-- A message that arrives brings its transactions. -/
theorem deliver (hs : ClpaSound cc.shardNums s) {k : ℕ}
    (h : s.step cc (.deliver k) = some t) : ClpaSound cc.shardNums t := by
  obtain ⟨sid, m, he, ht⟩ := ClpaState.step_deliver h
  have hk : sid < cc.shardNums := hs.dest _ (List.mem_of_getElem? he)
  have hd : ∀ e ∈ s.flight.eraseIdx k, e.1 < cc.shardNums :=
    fun e he => hs.dest e ((List.eraseIdx_sublist _ _).subset he)
  have hflight := flightTokens_eraseIdx he
  cases m with
  | relay m =>
    -- out of the message, into the pool
    have hA : s.tokens cc.shardNums = others cc.shardNums ClpaNode.tokens s.nodes sid +
        (s.nodes sid).tokens sid + flightTokens (s.flight.eraseIdx k) +
          tokensAt (.relay sid) m.txs := by
      rw [s.tokens_eq hk, hflight, messageTokens]
      abel
    have hA' : t.tokens cc.shardNums = others cc.shardNums ClpaNode.tokens s.nodes sid +
        (s.nodes sid).tokens sid + flightTokens (s.flight.eraseIdx k) +
          tokensAt (.pool sid) m.txs := by
      rw [ht, ClpaState.tokens_update hk, ClpaNode.tokens_received sid (hs.queue sid) rfl,
        ClpaNode.tokens]
      simp only [ClpaNode.handleMessageOutsidePBFT, ClpaNode.handleRelay, ClpaNode.collected]
      abel
    refine hs.update ht (BlockChain.received_queue (hs.queue sid) m.txs)
      (hs.receivedNewTx sid) hd (Finset.Subset.refl _) (hs.executed sid)
      (hs.move hA hA'.le (by rw [map_tokensAt, map_tokensAt]) (by rw [ht])
        (fun i => by rw [ht, ClpaState.executed_update_same (by rfl)]) fun p' hp' => ?_)
    obtain ⟨hl, htx⟩ := mem_tokensAt.mp hp'
    refine ⟨(.relay sid, p'.2), mem_tokensAt.mpr ⟨rfl, htx⟩, rfl, fun i hi => .inl (.inr ?_)⟩
    rw [hl] at hi
    rcases hi with hi | hi
    · rw [Location.pool.inj hi]
    · cases hi
  | accountStateAndTx m =>
    -- out of the message, to the leader; an older message of the same shard is lost
    have hA : s.tokens cc.shardNums = others cc.shardNums ClpaNode.tokens s.nodes sid +
        (s.nodes sid).tokens sid + flightTokens (s.flight.eraseIdx k) +
          tokensAt (.transfer sid) m.txs := by
      rw [s.tokens_eq hk, hflight, messageTokens]
      abel
    have hcol : ∃ old, ((s.nodes sid).handleAccountStateAndTxMsg (cc.ofShard sid) m).collected =
        m.txs ++ old ∧ old.Sublist (s.nodes sid).collected := by
      refine ⟨(List.kerase m.fromShard (s.nodes sid).accountStateTx.entries).flatMap
        fun e => e.2.txs, ?_, (List.kerase_sublist _ _).flatMap _⟩
      rw [ClpaNode.collected, ClpaNode.handleAccountStateAndTxMsg]
      dsimp only
      rw [AList.entries_insert, List.flatMap_cons]
    obtain ⟨old, hcol, hold⟩ := hcol
    have hA' : t.tokens cc.shardNums ≤ others cc.shardNums ClpaNode.tokens s.nodes sid +
        (s.nodes sid).tokens sid + flightTokens (s.flight.eraseIdx k) +
          tokensAt (.collected sid) m.txs := by
      have heq : t.tokens cc.shardNums = others cc.shardNums ClpaNode.tokens s.nodes sid +
          (tokensAt (.pool sid) (s.nodes sid).curChain.pooled + tokensAt (.collected sid) old) +
            flightTokens (s.flight.eraseIdx k) + tokensAt (.collected sid) m.txs := by
        rw [ht, ClpaState.tokens_update hk, ClpaNode.handleMessageOutsidePBFT, ClpaNode.tokens,
          hcol, tokensAt_append]
        simp only [ClpaNode.handleAccountStateAndTxMsg]
        abel
      rw [heq, ClpaNode.tokens]
      refine add_le_add_left (add_le_add_left (add_le_add_right ?_ _) _) _
      exact add_le_add_right (tokensAt_le _ hold) _
    refine hs.update ht (hs.queue sid) (hs.receivedNewTx sid) hd (Finset.Subset.refl _)
      (hs.executed sid) (hs.move hA hA' (by rw [map_tokensAt, map_tokensAt]) (by rw [ht])
        (fun i => by rw [ht, ClpaState.executed_update_same (by rfl)]) fun p' hp' => ?_)
    obtain ⟨hl, htx⟩ := mem_tokensAt.mp hp'
    refine ⟨(.transfer sid, p'.2), mem_tokensAt.mpr ⟨rfl, htx⟩, rfl, fun i hi => ?_⟩
    rw [hl] at hi
    rcases hi with hi | hi
    · cases hi
    · cases hi
  | partitionMsg m =>
    exact hs.quiet ht hk rfl (hs.receivedNewTx sid) rfl
      (by rw [hflight, messageTokens, zero_add]) hd
  | partitionReady fromShard seqID =>
    exact hs.quiet ht hk rfl (hs.receivedNewTx sid) rfl
      (by rw [hflight, messageTokens, zero_add]) hd

omit [DecidableEq H] in
/-- The pool of a shard is fresh to its chain. -/
theorem freshPool (hs : ClpaSound n s) {k : ℕ} (hk : k < n) :
    FreshPool (s.nodes k).curChain (s.nodes k).curChain.pooled where
  queue := hs.queue k
  nodup := by
    have hle : tokensAt (.pool k) (s.nodes k).curChain.pooled ≤ s.tokens n := by
      rw [s.tokens_eq hk, ClpaNode.tokens, add_assoc]
      exact (Multiset.le_add_right _ _).trans (Multiset.le_add_left _ _)
    have hnd := Multiset.nodup_of_le (Multiset.map_le_map hle) hs.nodup
    rw [map_tokensAt] at hnd
    exact Multiset.coe_nodup.mp hnd
  fresh tx htx := by
    have hmem : (Location.pool k, tx) ∈ s.tokens n := by
      rw [s.tokens_eq hk, ClpaNode.tokens]
      simp only [Multiset.mem_add]
      exact .inr (.inl (.inl (mem_tokensAt.mpr ⟨rfl, htx⟩)))
    have hgood := hs.good _ hmem
    exact ⟨hgood.hash, hgood.here k (.inl rfl)⟩

/-- The Relay messages of a block. -/
def relayMessages (place : Address → ℕ) (sid seqID : ℕ) (packed : List Transaction)
    (sids : List ℕ) : List (ℕ × ClpaMessage) :=
  sids.map fun i => (i, .relay ⟨secondPhase place i packed, sid, seqID⟩)

/-- What a commit does: a prefix of the pool is executed, its second phases are sent. -/
theorem step_commit (hs : ClpaSound cc.shardNums s) {sid miner : ℕ} {now : Time}
    (h : s.step cc (.commit sid miner now) = some t) :
    sid < cc.shardNums ∧ ∃ nd packed rest place seqID c,
      t = ⟨Function.update s.nodes sid nd, s.flight ++ relayMessages place sid seqID packed
            ((List.range cc.shardNums).filter (· ≠ sid)), s.used, c⟩ ∧
      (s.nodes sid).curChain.pooled = packed ++ rest ∧
      nd.curChain.txpool.txQueue = rest.map some ∧
      nd.curChain.storage.executedTransaction =
        s.executed sid ∪ (packed.map (·.txHash)).toFinset ∧
      nd.receivedNewTx = [] ∧ nd.collected = (s.nodes sid).collected ∧
      ∀ tx ∈ packed, tx.Placed place sid := by
  obtain ⟨bc, relays, hin, hround, ht⟩ := ClpaState.step_commit h
  obtain ⟨packed, rest, htxs, hplaced, hqueue, hexec, -, -, -, rfl⟩ :=
    leaderRound_spec (hs.freshPool hin.1) hround
  refine ⟨hin.1, { s.nodes sid with curChain := bc, sequenceID := (s.nodes sid).sequenceID + 1 },
    packed, rest, _, (s.nodes sid).sequenceID, s.credited ∪ creditedIn bc.currentBlock.body,
    ?_, htxs, hqueue, hexec, hs.receivedNewTx sid, rfl, hplaced⟩
  rw [ht, List.map_map]
  rfl

/-- A leader executes a prefix of its pool and sends what is due elsewhere. -/
theorem commit (hs : ClpaSound cc.shardNums s) {sid miner : ℕ} {now : Time}
    (h : s.step cc (.commit sid miner now) = some t) : ClpaSound cc.shardNums t := by
  obtain ⟨hk, nd, packed, rest, place, seqID, c, ht, htxs, hqueue, hexec, hr, hcol, hplaced⟩ :=
    hs.step_commit h
  have hpool : nd.curChain.pooled = rest := BlockChain.pooled_eq hqueue
  have hA : s.tokens cc.shardNums = others cc.shardNums ClpaNode.tokens s.nodes sid +
      tokensAt (.pool sid) rest + tokensAt (.collected sid) (s.nodes sid).collected +
        flightTokens s.flight + tokensAt (.pool sid) packed := by
    rw [s.tokens_eq hk, ClpaNode.tokens, htxs, tokensAt_append]
    abel
  have hA' : t.tokens cc.shardNums = others cc.shardNums ClpaNode.tokens s.nodes sid +
      tokensAt (.pool sid) rest + tokensAt (.collected sid) (s.nodes sid).collected +
        flightTokens s.flight + flightTokens (relayMessages place sid seqID packed
          ((List.range cc.shardNums).filter (· ≠ sid))) := by
    rw [ht, ClpaState.tokens_update hk, ClpaNode.tokens, hpool, hcol, flightTokens_append]
    abel
  have hsids : ((List.range cc.shardNums).filter (· ≠ sid)).Nodup := List.nodup_range.filter _
  have hle : (flightTokens (relayMessages place sid seqID packed
      ((List.range cc.shardNums).filter (· ≠ sid)))).map Token.txHash ≤
        (tokensAt (.pool sid) packed).map Token.txHash := by
    rw [relayMessages, map_flightTokens _ fun i => rfl, map_tokensAt]
    exact Multiset.coe_le.mpr (secondPhase_subperm place packed hsids)
  have hother : ∀ i, i ≠ sid → t.executed i = s.executed i := by
    intro i hi
    rw [ht, ClpaState.executed_update, if_neg hi]
    rfl
  have hexecuted : ∀ i b, b ∈ t.executed i →
      b ∈ s.executed i ∨ b ∈ (tokensAt (.pool sid) packed).map Token.txHash := by
    intro i b hb
    rcases eq_or_ne i sid with rfl | hi
    · rw [ht, ClpaState.executed_update, if_pos rfl, hexec] at hb
      rw [map_tokensAt]
      exact (Finset.mem_union.mp hb).imp_right fun hb => List.mem_toFinset.mp hb
    · exact .inl (hother i hi ▸ hb)
  have hgoodPacked : ∀ tx ∈ packed, TokenGood s (.pool sid, tx) := by
    intro tx htx
    refine hs.good _ ?_
    rw [hA]
    exact Multiset.mem_add.mpr (.inr (mem_tokensAt.mpr ⟨rfl, htx⟩))
  refine hs.update ht (by rw [hpool, hqueue]) hr (fun e he => ?_) (Finset.Subset.refl _) ?_
    (hs.replace hA hA'.le (hs.nodup_of_le hA hle) (by rw [ht]) hexecuted fun p hp => ?_)
  · rcases List.mem_append.mp he with he | he
    · exact hs.dest e he
    · obtain ⟨i, hi, rfl⟩ := List.mem_map.mp he
      exact List.mem_range.mp (List.mem_filter.mp hi).1
  · rw [hexec]
    refine Finset.union_subset (hs.executed sid) fun b hb => ?_
    obtain ⟨tx, htx, rfl⟩ := List.mem_map.mp (List.mem_toFinset.mp hb)
    exact (hgoodPacked tx htx).used
  · -- a second phase: its first was executed here only, and it goes elsewhere
    obtain ⟨e, he, hp⟩ := mem_flightTokens.mp hp
    obtain ⟨i, hi, rfl⟩ := List.mem_map.mp he
    have hne : i ≠ sid := by simpa using (List.mem_filter.mp hi).2
    obtain ⟨hl, htx⟩ := mem_tokensAt.mp hp
    obtain ⟨tx, htx, heq⟩ := List.mem_map.mp htx
    obtain ⟨htx, hto⟩ := List.mem_filter.mp htx
    have hhash : p.txHash = tx.txHash := by rw [Token.txHash, ← heq]
    have hold := hgoodPacked tx htx
    have hfirst : tx.relayed = false := by
      rw [← Bool.not_eq_true]
      intro hr
      exact hne ((of_decide_eq_true hto).symm.trans ((hplaced tx htx).2 hr))
    refine ⟨hhash ▸ hold.hash, ?_, fun hr => ?_, fun k hk => ?_⟩
    · rw [hhash, ht]
      exact hold.used
    · rw [← heq] at hr
      cases hr
    · rw [hl] at hk
      rcases hk with hk | hk
      · cases hk
      · obtain rfl := Location.relay.inj hk
        rw [hhash, hother i hne]
        exact hold.first hfirst i

/-- **Every step keeps transactions where they can be executed**, but a transfer that
brings a second phase back. -/
theorem step (hs : ClpaSound cc.shardNums s) (hok : a.NoReturn s)
    (h : s.step cc a = some t) : ClpaSound cc.shardNums t := by
  cases a with
  | inject sid txs => exact hs.inject h
  | repartition m => exact hs.repartition h
  | commit sid miner now => exact hs.commit h
  | ready sid => exact hs.ready h
  | sendAccounts sid => exact hs.sendAccounts h
  | transfer sid => exact hs.transfer hok h
  | deliver k => exact hs.deliver h

end ClpaSound

end BlockEmulator
