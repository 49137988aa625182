import BlockEmulator.Clpa
import BlockEmulator.MigrationBarrier
import BlockEmulator.Sifting

/-!
# How a migration splits the pool (`sendAccounts_and_Txs`)

A leader goes over its pool once for each other shard. With each account that leaves for
the shard it takes the first phases that the account sends and the second phases that it
gets. In the broker variant (`accountTransfermod_Broker.go`) an inner-shard transaction that
loses an end is taken out too, but goes to the supervisor, to become a cross-shard one.

* `sendToShards_eq`, `brokerSendToShards_eq` — the loops are passes of `Sifting`.
* `migration_splits_queue` — **what is kept, what is sent and what is torn** are the pool.
-/

namespace BlockEmulator

open Sifting

namespace ClpaNode

variable {H : Type} (cc : ChainConfig H)

/-! ## The broker variant -/

/-- What the loop of the broker variant decides on a transaction. -/
structure BrokerBranch where
  /-- whether it is appended to `txsBeCross` -/
  beCross : Bool
  /-- `beSend` -/
  beSend : Bool
  /-- `beRemoved` -/
  beRemoved : Bool
  deriving DecidableEq

/-- The branches of the loop. -/
def brokerBranch (addrSet : List Address) (ptx : Transaction) : BrokerBranch :=
  let ok1 : Bool := ptx.sender ∈ addrSet
  let ok2 : Bool := ptx.recipient ∈ addrSet
  if ptx.rawTxHash = [] then
    if ptx.hasBroker then
      if ptx.senderIsBroker then ⟨false, ok2, ok2⟩ else ⟨false, ok1, ok1⟩
    else if ok1 || ok2 then ⟨true, false, true⟩
    else ⟨false, false, false⟩
  else if ptx.finalRecipient = ptx.recipient then ⟨false, ok2, ok2⟩
  else if ptx.originalSender = ptx.sender then ⟨false, ok1, ok1⟩
  else ⟨false, false, false⟩

/-- What one pass of the broker variant makes of the pool. -/
structure BrokerPass where
  /-- `txSend` -/
  txSend : List Transaction
  /-- what is appended to `txsBeCross` -/
  txsBeCross : List Transaction
  /-- `TxQueue` -/
  txQueue : List (Option Transaction)

/-- The two-pointer loop of the broker variant. -/
def brokerFetchTxs (addrSet : List Address) : List (Option Transaction) → Option BrokerPass
  | [] => some ⟨[], [], []⟩
  | none :: _ => none
  | some ptx :: queue =>
    (brokerFetchTxs addrSet queue).map fun r =>
      let branch := brokerBranch addrSet ptx
      { txSend := if branch.beSend then ptx :: r.txSend else r.txSend
        txsBeCross := if branch.beCross then ptx :: r.txsBeCross else r.txsBeCross
        txQueue := if branch.beRemoved then r.txQueue else some ptx :: r.txQueue }

/-- What the broker variant sends: to the other shards, and `txsBeCross` to the supervisor. -/
structure BrokerSends where
  /-- the messages with accounts -/
  msgs : List (ℕ × ClpaMessage)
  /-- `txsBeCross` -/
  txsBeCross : List Transaction
  /-- `TxQueue`, in the end -/
  txQueue : List (Option Transaction)

/-- The loop over the other shards. -/
def brokerSendToShards (m : PartitionModified) (fetched : List (Address × AccountState)) :
    List ℕ → List (Option Transaction) → Option BrokerSends
  | [], queue => some ⟨[], [], queue⟩
  | i :: is, queue =>
    let send := fetched.filter fun e => m.get e.1 = i
    (brokerFetchTxs (send.map (·.1)) queue).bind fun r =>
      (brokerSendToShards m fetched is r.txQueue).map fun rest =>
        { msgs := (i, .accountStateAndTx
            ⟨send.map (·.1), send.map (·.2), cc.shardID, r.txSend⟩) :: rest.msgs
          txsBeCross := r.txsBeCross ++ rest.txsBeCross
          txQueue := rest.txQueue }

/-- `sendAccounts_and_Txs` of the broker variant, whose leader holds the same data. -/
def brokerSendAccountsAndTxs (nd : ClpaNode H) : Option (ClpaNode H × BrokerSends) :=
  nd.modifiedMap.getLast?.bind fun m =>
    let accountToFetch := (m.entries.filter fun e =>
      e.2 ≠ cc.shardID ∧ nd.curChain.getPartitionMap cc e.1 = cc.shardID).map (·.1)
    let asFetched := nd.curChain.fetchAccounts accountToFetch
    (brokerSendToShards cc m (accountToFetch.zip asFetched) (otherShards cc)
      nd.curChain.txpool.txQueue).map fun r =>
        ({ nd with
            curChain := { nd.curChain with
              txpool := { nd.curChain.txpool with txQueue := r.txQueue } } },
          r)

/-! ## Who leaves -/

/-- An account leaves this shard for another. -/
def MovesTo (nd : ClpaNode H) (m : PartitionModified) (i : ℕ) (addr : Address) : Prop :=
  m.lookup addr = some i ∧ i ≠ cc.shardID ∧ nd.curChain.getPartitionMap cc addr = cc.shardID

instance (nd : ClpaNode H) (m : PartitionModified) (i : ℕ) (addr : Address) :
    Decidable (MovesTo cc nd m i addr) :=
  inferInstanceAs (Decidable (_ ∧ _ ∧ _))

/-- A transaction goes with its sender; a second phase, with its recipient. -/
def GoesTo (nd : ClpaNode H) (m : PartitionModified) (i : ℕ) (tx : Transaction) : Prop :=
  if tx.relayed then MovesTo cc nd m i tx.recipient else MovesTo cc nd m i tx.sender

instance (nd : ClpaNode H) (m : PartitionModified) (i : ℕ) (tx : Transaction) :
    Decidable (GoesTo cc nd m i tx) :=
  inferInstanceAs (Decidable (ite _ _ _))

/-- An inner-shard transaction, of the broker variant. -/
def InnerShard (tx : Transaction) : Prop := tx.rawTxHash = [] ∧ tx.hasBroker = false

instance (tx : Transaction) : Decidable (InnerShard tx) := inferInstanceAs (Decidable (_ ∧ _))

/-- The account with which a broker transaction goes, if any. -/
def brokerEnd (tx : Transaction) : Option Address :=
  if tx.rawTxHash = [] then
    if tx.hasBroker then some (if tx.senderIsBroker then tx.recipient else tx.sender) else none
  else if tx.finalRecipient = tx.recipient then some tx.recipient
  else if tx.originalSender = tx.sender then some tx.sender
  else none

/-- A broker transaction goes with its end that is no broker. -/
def BrokerGoesTo (nd : ClpaNode H) (m : PartitionModified) (i : ℕ) (tx : Transaction) : Prop :=
  ∃ addr ∈ brokerEnd tx, MovesTo cc nd m i addr

instance (nd : ClpaNode H) (m : PartitionModified) (i : ℕ) (tx : Transaction) :
    Decidable (BrokerGoesTo cc nd m i tx) :=
  inferInstanceAs (Decidable (∃ addr ∈ brokerEnd tx, _))

/-- An inner-shard transaction loses an end to a shard. -/
def TornBy (nd : ClpaNode H) (m : PartitionModified) (i : ℕ) (tx : Transaction) : Prop :=
  InnerShard tx ∧ (MovesTo cc nd m i tx.sender ∨ MovesTo cc nd m i tx.recipient)

instance (nd : ClpaNode H) (m : PartitionModified) (i : ℕ) (tx : Transaction) :
    Decidable (TornBy cc nd m i tx) :=
  inferInstanceAs (Decidable (_ ∧ (_ ∨ _)))

/-- The transactions in some messages, by the shards they go to. -/
def sentTxs (msgs : List (ℕ × ClpaMessage)) : List (ℕ × List Transaction) :=
  msgs.filterMap fun e => match e.2 with
    | .accountStateAndTx ast => some (e.1, ast.txs)
    | .relay _ | .partitionMsg _ | .partitionReady _ _ => none

/-! ## The loops are passes -/

/-- The accounts that are sent to a shard, of those that are fetched. -/
def sendAccounts (m : PartitionModified) (fetched : List (Address × AccountState)) (i : ℕ) :
    List (Address × AccountState) :=
  fetched.filter fun e => m.get e.1 = i

/-- The message to a shard. -/
def accountsMessage (m : PartitionModified) (fetched : List (Address × AccountState))
    (e : ℕ × List Transaction) : ℕ × ClpaMessage :=
  (e.1, .accountStateAndTx ⟨(sendAccounts m fetched e.1).map (·.1),
    (sendAccounts m fetched e.1).map (·.2), cc.shardID, e.2⟩)

/-- The condition of the loop. -/
def goesWith (addrSet : List Address) (ptx : Transaction) : Bool :=
  (ptx.sender ∈ addrSet ∧ ptx.relayed = false) ∨ (ptx.recipient ∈ addrSet ∧ ptx.relayed = true)

/-- One pass. -/
theorem fetchTxs_eq (addrSet : List Address) (txs : List Transaction) :
    fetchTxs addrSet (txs.map some) = some (txs.filter (goesWith addrSet),
      (txs.filter fun tx => !goesWith addrSet tx).map some) := by
  induction txs with
  | nil => rfl
  | cons tx txs ih =>
    rw [List.map_cons, fetchTxs, ih, Option.map_some]
    by_cases h : (tx.sender ∈ addrSet ∧ tx.relayed = false) ∨
        (tx.recipient ∈ addrSet ∧ tx.relayed = true)
    · have hgoes : goesWith addrSet tx = true := decide_eq_true h
      rw [if_pos h, List.filter_cons_of_pos hgoes, List.filter_cons_of_neg (by simp [hgoes])]
    · have hgoes : goesWith addrSet tx = false := decide_eq_false h
      rw [if_neg h, List.filter_cons_of_neg (by simp [hgoes]),
        List.filter_cons_of_pos (by simp [hgoes])]
      rfl

/-- **The passes over the pool.** -/
theorem sendToShards_eq (m : PartitionModified) (fetched : List (Address × AccountState))
    (is : List ℕ) (txs : List Transaction) :
    let r := passes (fun i => goesWith ((sendAccounts m fetched i).map (·.1))) is txs
    sendToShards cc m fetched is (txs.map some) =
      some (r.1.map (accountsMessage cc m fetched), r.2.map some) := by
  induction is generalizing txs with
  | nil => rfl
  | cons i is ih =>
    dsimp only at ih ⊢
    rw [sendToShards, passes, ← sendAccounts, fetchTxs_eq, Option.bind_some, ih, Option.map_some,
      List.map_cons]
    rfl

/-- One pass of the broker variant. -/
theorem brokerFetchTxs_eq (addrSet : List Address) (txs : List Transaction) :
    brokerFetchTxs addrSet (txs.map some) = some
      ⟨txs.filter fun tx => (brokerBranch addrSet tx).beSend,
        txs.filter fun tx => (brokerBranch addrSet tx).beCross,
        (txs.filter fun tx => !(brokerBranch addrSet tx).beRemoved).map some⟩ := by
  induction txs with
  | nil => rfl
  | cons tx txs ih =>
    rw [List.map_cons, brokerFetchTxs, ih, Option.map_some]
    simp only [List.filter_cons, Option.some.injEq, BrokerPass.mk.injEq, true_and]
    cases (brokerBranch addrSet tx).beRemoved <;> rfl

/-- An inner-shard transaction that is taken out is torn. -/
theorem brokerBranch_beCross (addrSet : List Address) (tx : Transaction) :
    (brokerBranch addrSet tx).beCross =
      (decide (InnerShard tx) && (brokerBranch addrSet tx).beRemoved) := by
  unfold brokerBranch InnerShard
  dsimp only
  split_ifs <;> simp_all

/-- Any other is sent. -/
theorem brokerBranch_beSend (addrSet : List Address) (tx : Transaction) :
    (brokerBranch addrSet tx).beSend =
      (!decide (InnerShard tx) && (brokerBranch addrSet tx).beRemoved) := by
  unfold brokerBranch InnerShard
  dsimp only
  split_ifs <;> simp_all

/-- **The passes of the broker variant.** -/
theorem brokerSendToShards_eq (m : PartitionModified) (fetched : List (Address × AccountState))
    (is : List ℕ) (txs : List Transaction) :
    let r := passes (fun i tx =>
      (brokerBranch ((sendAccounts m fetched i).map (·.1)) tx).beRemoved) is txs
    brokerSendToShards cc m fetched is (txs.map some) = some
      ⟨r.1.map fun e => accountsMessage cc m fetched
          (e.1, e.2.filter fun tx => !decide (InnerShard tx)),
        r.1.flatMap fun e => e.2.filter fun tx => decide (InnerShard tx),
        r.2.map some⟩ := by
  induction is generalizing txs with
  | nil => rfl
  | cons i is ih =>
    dsimp only at ih ⊢
    rw [brokerSendToShards, passes, ← sendAccounts, brokerFetchTxs_eq, Option.bind_some, ih,
      Option.map_some, List.map_cons, List.flatMap_cons, List.filter_filter, List.filter_filter]
    simp only [brokerBranch_beCross, brokerBranch_beSend]
    rfl

/-! ## Who is taken -/

variable {cc} {nd : ClpaNode H} {m : PartitionModified}

/-- The accounts that are fetched, with their states. -/
theorem mem_accountToFetch {addr : Address} :
    addr ∈ (m.entries.filter fun e =>
        e.2 ≠ cc.shardID ∧ nd.curChain.getPartitionMap cc e.1 = cc.shardID).map (·.1) ↔
      ∃ i, MovesTo cc nd m i addr := by
  rw [List.mem_map]
  constructor
  · rintro ⟨e, he, rfl⟩
    obtain ⟨hmem, hkept⟩ := List.mem_filter.mp he
    exact ⟨e.2, AList.mem_lookup_iff.mpr hmem, of_decide_eq_true hkept⟩
  · rintro ⟨i, hlookup, hkept⟩
    exact ⟨⟨addr, i⟩, List.mem_filter.mpr ⟨AList.mem_lookup_iff.mp hlookup, decide_eq_true hkept⟩,
      rfl⟩

/-- **The accounts that are sent to a shard** are those that move there. -/
theorem mem_sendAccounts {i : ℕ} {addr : Address} :
    let accountToFetch := (m.entries.filter fun e =>
      e.2 ≠ cc.shardID ∧ nd.curChain.getPartitionMap cc e.1 = cc.shardID).map (·.1)
    addr ∈ (sendAccounts m (accountToFetch.zip (nd.curChain.fetchAccounts accountToFetch)) i).map
      (·.1) ↔ MovesTo cc nd m i addr := by
  intro accountToFetch
  rw [sendAccounts, BlockChain.fetchAccounts, List.zip_map_right, List.zip_eq_zipWith,
    List.zipWith_self, List.map_map, List.filter_map, List.map_map, List.mem_map]
  constructor
  · rintro ⟨a, ha, rfl⟩
    obtain ⟨hfetch, hget⟩ := List.mem_filter.mp ha
    obtain ⟨j, hj⟩ := mem_accountToFetch.mp hfetch
    have hget : m.get a = i := of_decide_eq_true hget
    rw [PartitionModified.get, hj.1] at hget
    exact hget ▸ hj
  · intro h
    refine ⟨addr, List.mem_filter.mpr ⟨mem_accountToFetch.mpr ⟨i, h⟩, decide_eq_true ?_⟩, rfl⟩
    change m.get addr = i
    rw [PartitionModified.get, h.1]
    rfl

/-- An account moves to one shard. -/
theorem MovesTo.unique {i j : ℕ} {addr : Address} (hi : MovesTo cc nd m i addr)
    (hj : MovesTo cc nd m j addr) : i = j :=
  Option.some.inj (hi.1.symm.trans hj.1)

theorem GoesTo.unique {i j : ℕ} {tx : Transaction} (hi : GoesTo cc nd m i tx)
    (hj : GoesTo cc nd m j tx) : i = j := by
  unfold GoesTo at hi hj
  split at hi
  · rename_i hrelayed
    rw [if_pos hrelayed] at hj
    exact hi.unique hj
  · rename_i hrelayed
    rw [if_neg hrelayed] at hj
    exact hi.unique hj

theorem BrokerGoesTo.unique {i j : ℕ} {tx : Transaction} (hi : BrokerGoesTo cc nd m i tx)
    (hj : BrokerGoesTo cc nd m j tx) : i = j := by
  obtain ⟨addr, haddr, hi⟩ := hi
  obtain ⟨addr', haddr', hj⟩ := hj
  obtain rfl : addr = addr' := Option.mem_unique haddr haddr'
  exact hi.unique hj

/-- The condition of the loop, for the accounts that move. -/
theorem goesWith_iff {i : ℕ} {addrSet : List Address}
    (h : ∀ addr, addr ∈ addrSet ↔ MovesTo cc nd m i addr) {tx : Transaction} :
    goesWith addrSet tx = true ↔ GoesTo cc nd m i tx := by
  rw [goesWith, decide_eq_true_iff, h, h, GoesTo]
  cases tx.relayed <;> simp

/-- The condition of the broker variant. -/
theorem beRemoved_iff {i : ℕ} {addrSet : List Address}
    (h : ∀ addr, addr ∈ addrSet ↔ MovesTo cc nd m i addr) {tx : Transaction} :
    (brokerBranch addrSet tx).beRemoved = true ↔
      BrokerGoesTo cc nd m i tx ∨ TornBy cc nd m i tx := by
  unfold brokerBranch BrokerGoesTo TornBy InnerShard brokerEnd
  simp only [h]
  split_ifs <;> simp_all

/-- What is sent is no inner-shard transaction. -/
theorem BrokerGoesTo.not_innerShard {i : ℕ} {tx : Transaction} (h : BrokerGoesTo cc nd m i tx) :
    ¬ InnerShard tx := by
  rintro ⟨hraw, hbroker⟩
  obtain ⟨addr, haddr, -⟩ := h
  rw [brokerEnd, if_pos hraw, hbroker] at haddr
  exact Option.not_mem_none _ haddr

/-! ## The split -/

variable {txs : List Transaction}

theorem otherShards_nodup : (otherShards cc).Nodup := List.nodup_range.filter _

/-- The transactions in the messages of the passes. -/
theorem sentTxs_map (fetched : List (Address × AccountState)) {α : Type}
    (f : α → ℕ × List Transaction) (l : List α) :
    sentTxs (l.map fun a => accountsMessage cc m fetched (f a)) = l.map f := by
  rw [sentTxs, List.filterMap_map]
  exact congrFun (List.filterMap_eq_map (f := f)) l

variable (cc) in
/-- What the leader of the CLPA module does with its pool. -/
structure Splits (nd : ClpaNode H) (m : PartitionModified) (txs kept : List Transaction)
    (sent : List (ℕ × List Transaction)) : Prop where
  /-- what is kept goes nowhere -/
  stays : kept = txs.filter fun tx => ∀ i ∈ otherShards cc, ¬ GoesTo cc nd m i tx
  /-- each shard gets what goes there -/
  goes : sent = (otherShards cc).map fun i => (i, txs.filter fun tx => GoesTo cc nd m i tx)
  /-- nothing is lost or doubled -/
  perm : (kept ++ sent.flatMap (·.2)).Perm txs

variable (cc) in
/-- What the leader of the broker variant does. -/
structure BrokerSplits (nd : ClpaNode H) (m : PartitionModified)
    (txs kept : List Transaction) (sent : List (ℕ × List Transaction))
    (cross : List Transaction) : Prop where
  /-- what is kept goes nowhere, and is not torn -/
  stays : kept = txs.filter fun tx =>
    ∀ i ∈ otherShards cc, ¬ (BrokerGoesTo cc nd m i tx ∨ TornBy cc nd m i tx)
  /-- each shard gets what goes there -/
  goes : sent = (otherShards cc).map fun i => (i, txs.filter fun tx => BrokerGoesTo cc nd m i tx)
  /-- what is torn is collected shard by shard, by the first that tears it -/
  torn : cross = (otherShards cc).flatMap fun i => txs.filter fun tx =>
    (otherShards cc).find? (fun j => TornBy cc nd m j tx) = some i
  /-- nothing is lost or doubled -/
  perm : (kept ++ (sent.flatMap (·.2) ++ cross)).Perm txs

/-- The leader of the CLPA module splits its pool. -/
theorem sendAccountsAndTxs_splits (hm : nd.modifiedMap.getLast? = some m)
    (hq : nd.curChain.txpool.txQueue = txs.map some) :
    ∃ nd' msgs kept, nd.sendAccountsAndTxs cc = some (nd', msgs) ∧
      nd'.curChain.txpool.txQueue = kept.map some ∧ Splits cc nd m txs kept (sentTxs msgs) := by
  rw [sendAccountsAndTxs, hm, Option.bind_some, hq]
  dsimp only
  rw [sendToShards_eq, Option.map_some]
  refine ⟨_, _, _, rfl, rfl, ?_⟩
  generalize hfetched : List.zip _ _ = fetched
  have htakes : (fun i => goesWith ((sendAccounts m fetched i).map (·.1))) =
      fun i tx => decide (GoesTo cc nd m i tx) := by
    funext i tx
    have hset : ∀ addr, addr ∈ (sendAccounts m fetched i).map (·.1) ↔ MovesTo cc nd m i addr := by
      rw [← hfetched]
      exact fun addr => mem_sendAccounts
    rw [Bool.eq_iff_iff, decide_eq_true_iff, goesWith_iff hset]
  have hunique : ∀ (tx : Transaction) (i j : ℕ), decide (GoesTo cc nd m i tx) = true →
      decide (GoesTo cc nd m j tx) = true → i = j := fun tx i j hi hj =>
    (of_decide_eq_true hi).unique (of_decide_eq_true hj)
  rw [htakes]
  generalize hr : passes _ (otherShards cc) txs = r
  have hsent : sentTxs (r.1.map (accountsMessage cc m fetched)) = r.1 :=
    (sentTxs_map fetched (fun e => e) r.1).trans (List.map_id' r.1)
  rw [hsent, ← hr]
  refine ⟨?_, fst_passes_of_unique otherShards_nodup hunique txs, passes_perm _ txs⟩
  rw [snd_passes otherShards_nodup]
  exact List.filter_congr fun tx _ => decide_eq_decide.mpr
    (forall₂_congr fun i _ => decide_eq_false_iff_not)

variable (cc nd m) in
/-- Whether a pass of the broker variant takes a transaction out. -/
def brokerTakes (i : ℕ) (tx : Transaction) : Bool :=
  BrokerGoesTo cc nd m i tx ∨ TornBy cc nd m i tx

/-- One that is no inner-shard transaction goes to the shard of its account. -/
theorem takenBy_of_not_innerShard {is : List ℕ} {i : ℕ} {tx : Transaction}
    (h : ¬ InnerShard tx) :
    takenBy (brokerTakes cc nd m) is tx = some i ↔ i ∈ is ∧ BrokerGoesTo cc nd m i tx := by
  have htakes : ∀ j, brokerTakes cc nd m j tx = true ↔ BrokerGoesTo cc nd m j tx := fun j => by
    rw [brokerTakes, decide_eq_true_iff]
    exact or_iff_left fun htorn => h htorn.1
  rw [takenBy_eq_some_iff fun i j hi hj => ((htakes i).mp hi).unique ((htakes j).mp hj), htakes]

/-- An inner-shard transaction is torn by the first shard that takes an end of it. -/
theorem takenBy_of_innerShard {tx : Transaction} (h : InnerShard tx) (is : List ℕ) :
    takenBy (brokerTakes cc nd m) is tx = is.find? fun j => TornBy cc nd m j tx := by
  have htakes : ∀ j, brokerTakes cc nd m j tx = decide (TornBy cc nd m j tx) := fun j =>
    decide_eq_decide.mpr (or_iff_right fun hgoes => hgoes.not_innerShard h)
  rw [takenBy, funext htakes]

/-- No other is torn. -/
theorem find_tornBy_of_not_innerShard {tx : Transaction} (h : ¬ InnerShard tx) (is : List ℕ) :
    is.find? (fun j => TornBy cc nd m j tx) = none :=
  List.find?_eq_none.mpr fun _ _ htorn => h (of_decide_eq_true htorn).1

/-- The leader of the broker variant splits its pool. -/
theorem brokerSendAccountsAndTxs_splits (hm : nd.modifiedMap.getLast? = some m)
    (hq : nd.curChain.txpool.txQueue = txs.map some) :
    ∃ nd' r kept, nd.brokerSendAccountsAndTxs cc = some (nd', r) ∧
      nd'.curChain.txpool.txQueue = kept.map some ∧
      BrokerSplits cc nd m txs kept (sentTxs r.msgs) r.txsBeCross := by
  rw [brokerSendAccountsAndTxs, hm, Option.bind_some, hq]
  dsimp only
  rw [brokerSendToShards_eq, Option.map_some]
  refine ⟨_, _, _, rfl, rfl, ?_⟩
  generalize hfetched : List.zip _ _ = fetched
  have htakes : (fun i tx =>
      (brokerBranch ((sendAccounts m fetched i).map (·.1)) tx).beRemoved) =
        brokerTakes cc nd m := by
    funext i tx
    have hset : ∀ addr, addr ∈ (sendAccounts m fetched i).map (·.1) ↔ MovesTo cc nd m i addr := by
      rw [← hfetched]
      exact fun addr => mem_sendAccounts
    rw [Bool.eq_iff_iff, brokerTakes, decide_eq_true_iff, beRemoved_iff hset]
  have hperm : List.Perm _ txs := @passes_perm _ _ (brokerTakes cc nd m) (otherShards cc) txs
  rw [htakes, sentTxs_map fetched fun e : ℕ × List Transaction =>
    (e.1, e.2.filter fun tx => !decide (InnerShard tx))]
  refine ⟨?_, ?_, ?_, ?_⟩
  · rw [snd_passes otherShards_nodup]
    exact List.filter_congr fun tx _ => decide_eq_decide.mpr
      (forall₂_congr fun i _ => decide_eq_false_iff_not)
  · rw [passes_eq otherShards_nodup, List.map_map]
    refine List.map_congr_left fun i hi => congrArg (Prod.mk i) ?_
    rw [List.filter_filter]
    refine List.filter_congr fun tx _ => ?_
    by_cases hinner : InnerShard tx
    · have hnot : ¬ BrokerGoesTo cc nd m i tx := fun h => h.not_innerShard hinner
      simp [hinner, hnot]
    · simp [hinner, takenBy_of_not_innerShard hinner, hi]
  · rw [passes_eq otherShards_nodup, List.flatMap_map]
    refine List.flatMap_congr fun i _ => ?_
    rw [List.filter_filter]
    refine List.filter_congr fun tx _ => ?_
    by_cases hinner : InnerShard tx
    · simp [hinner, takenBy_of_innerShard hinner]
    · simp [hinner, find_tornBy_of_not_innerShard hinner]
  · -- what a pass takes is sent or torn
    refine List.Perm.trans ?_ hperm
    refine List.Perm.append_left _ ?_
    rw [List.flatMap_map]
    refine (List.flatMap_append_perm _ _ _).trans ?_
    refine List.Perm.flatMap_left _ fun e _ => ?_
    exact List.perm_append_comm.trans (List.filter_append_perm (fun tx => decide (InnerShard tx)) e.2)

end ClpaNode

open ClpaNode in
/-- **A migration splits the pool**: what is kept and what is sent are the pool, in its
order; what is sent to a shard is what goes with an account that moves there. In the broker
variant the inner-shard transactions that lose an end make up the rest, collected shard by
shard. -/
theorem migration_splits_queue {H : Type} (cc : ChainConfig H) (nd : ClpaNode H)
    {m : PartitionModified} {txs : List Transaction} (hm : nd.modifiedMap.getLast? = some m)
    (hq : nd.curChain.txpool.txQueue = txs.map some) :
    (∃ nd' msgs kept, nd.sendAccountsAndTxs cc = some (nd', msgs) ∧
      nd'.curChain.txpool.txQueue = kept.map some ∧ Splits cc nd m txs kept (sentTxs msgs)) ∧
    ∃ nd' r kept, nd.brokerSendAccountsAndTxs cc = some (nd', r) ∧
      nd'.curChain.txpool.txQueue = kept.map some ∧
      BrokerSplits cc nd m txs kept (sentTxs r.msgs) r.txsBeCross :=
  ⟨sendAccountsAndTxs_splits hm hq, brokerSendAccountsAndTxs_splits hm hq⟩

/-- Three shards; this is the first. -/
def threeShards : ChainConfig FreeHash := { fourNodesChain with shardNum := 3, shardNums := 3 }

/-- From `a`, who moves to the third shard. -/
def firstTorn : Transaction := newTransaction "a" "b" 5 0 [1]

/-- From `c`, who moves to the second. -/
def secondTorn : Transaction := newTransaction "c" "b" 5 1 [2]

/-- The placements: `a` and `c` leave. -/
def bothLeave : PartitionModified := AList.insert "a" 2 (AList.insert "c" 1 ∅)

/-- The leader, with both transactions in its pool. -/
def leavingNode : ClpaNode FreeHash :=
  let bc := ((genesisChain threeShards).updatePartitionMap "a" 0).updatePartitionMap "c" 0
  { ClpaNode.new { bc with txpool := { bc.txpool with
      txQueue := [some firstTorn, some secondTorn] } } with
    modifiedMap := [bothLeave] }

theorem leavingNode_map : leavingNode.modifiedMap.getLast? = some bothLeave := rfl

theorem leavingNode_queue :
    leavingNode.curChain.txpool.txQueue = [firstTorn, secondTorn].map some := rfl

open ClpaNode in
/-- Both are sent, each with its sender, and nothing is kept. -/
theorem both_sent : ∃ nd' msgs,
    leavingNode.sendAccountsAndTxs threeShards = some (nd', msgs) ∧
      nd'.curChain.txpool.txQueue = [] ∧
      sentTxs msgs = [(1, [secondTorn]), (2, [firstTorn])] := by
  obtain ⟨nd', msgs, kept, hsend, hqueue, hsplits⟩ := (migration_splits_queue threeShards
    leavingNode leavingNode_map leavingNode_queue).1
  refine ⟨nd', msgs, hsend, ?_, ?_⟩
  · rw [hqueue, hsplits.stays]
    decide +kernel
  · rw [hsplits.goes]
    decide +kernel

open ClpaNode in
/-- The broker variant tears both, and collects the second one first. -/
theorem torn_out_of_order : ¬ ∀ (nd : ClpaNode FreeHash) (m : PartitionModified)
    (txs : List Transaction), nd.modifiedMap.getLast? = some m →
    nd.curChain.txpool.txQueue = txs.map some →
    ∀ nd' r, nd.brokerSendAccountsAndTxs threeShards = some (nd', r) →
      r.txsBeCross.Sublist txs := by
  intro hall
  obtain ⟨nd', r, kept, hsend, -, hsplits⟩ :
      ∃ nd' r kept, leavingNode.brokerSendAccountsAndTxs threeShards = some (nd', r) ∧ _ :=
    brokerSendAccountsAndTxs_splits leavingNode_map leavingNode_queue
  have hsub := hall _ _ _ leavingNode_map leavingNode_queue nd' r hsend
  have htorn : r.txsBeCross = [secondTorn, firstTorn] := by
    rw [hsplits.torn]
    decide +kernel
  rw [htorn] at hsub
  exact absurd hsub (by decide)

end BlockEmulator
