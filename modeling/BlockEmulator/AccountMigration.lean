import BlockEmulator.MigrationBarrier
import BlockEmulator.ReplicaValidity

/-!
# Accounts that move between shards

When an epoch ends a leader selects the accounts that leave its shard by the newest
placements it has received, and the shard installs what it gets by the placements of the
round it is in. These are two entries of one list, which grows whenever a partition message
arrives.

`MigrationLog` notes, shard by shard and round by round, by which placements accounts were
selected and installed, over which states.

* `MigrationKept` — what a migration is for: one map for all shards, one home for every
  address of it, and the states of the old homes in the new ones.
* `migration_kept` — **migrations keep accounts** in every run in which partition messages
  arrive one at a time and in order.
* `selected_by_another_map` — two partition messages arrive before the round ends.
-/

namespace BlockEmulator

open StepSystem RoundBarrier

variable {H : Type} [DecidableEq H]

/-! ## The log of migrations -/

/-- What a shard did in a round: by which placements, where it had addresses at home then,
and over which states. -/
structure Handover where
  /-- the placements -/
  modifiedMap : PartitionModified
  /-- the homes of addresses, by the map of the shard -/
  place : Address → ℕ
  /-- the states of accounts -/
  accounts : Accounts

/-- The accounts that leave a shard for another one, with their states. -/
def Handover.leaving (h : Handover) (j i : ℕ) : List (Address × AccountState) :=
  let accountToFetch := (h.modifiedMap.entries.filter fun e =>
    e.2 ≠ j ∧ h.place e.1 = j).map (·.1)
  (accountToFetch.zip (accountToFetch.map (BlockChain.readAccount h.accounts 0))).filter
    fun e => h.modifiedMap.get e.1 = i

/-- What leaves: an address of the map that is at home here and is placed there. -/
theorem Handover.mem_leaving {h : Handover} {j i : ℕ} {addr : Address} {st : AccountState} :
    (addr, st) ∈ h.leaving j i ↔ addr ∈ h.modifiedMap ∧ h.modifiedMap.get addr = i ∧ i ≠ j ∧
      h.place addr = j ∧ st = BlockChain.readAccount h.accounts 0 addr := by
  have hentry : ∀ {k}, ⟨addr, k⟩ ∈ h.modifiedMap.entries ↔
      addr ∈ h.modifiedMap ∧ h.modifiedMap.get addr = k := by
    intro k
    rw [← AList.mem_lookup_iff, PartitionModified.get, ← AList.lookup_isSome]
    cases h.modifiedMap.lookup addr <;> simp
  rw [leaving, ← List.map_prod_left_eq_zip, List.mem_filter, List.map_map, List.mem_map,
    decide_eq_true_iff]
  constructor
  · rintro ⟨⟨⟨addr', k⟩, hmem, heq⟩, hget⟩
    obtain ⟨rfl, rfl⟩ := Prod.mk.inj heq
    obtain ⟨hin, hcond⟩ := List.mem_filter.mp hmem
    obtain ⟨hne, hplace⟩ := of_decide_eq_true hcond
    obtain ⟨haddr, hk⟩ := hentry.mp hin
    exact ⟨haddr, hget, by rwa [← hget, hk], hplace, rfl⟩
  · rintro ⟨haddr, hget, hne, hplace, rfl⟩
    refine ⟨⟨⟨addr, i⟩, List.mem_filter.mpr ⟨hentry.mpr ⟨haddr, hget⟩, ?_⟩, rfl⟩, hget⟩
    exact decide_eq_true ⟨hne, hplace⟩

/-- Whether a message brings the accounts that leave a shard for another one. -/
def Carries (ast : AccountStateAndTx) (h : Handover) (j i : ℕ) : Prop :=
  ast.addrs = (h.leaving j i).map (·.1) ∧ ast.accountState = (h.leaving j i).map (·.2)

theorem Carries.zip_eq {ast : AccountStateAndTx} {h : Handover} {j i : ℕ} (hc : Carries ast h j i) :
    ast.addrs.zip ast.accountState = h.leaving j i :=
  (List.zip_of_prod hc.1.symm hc.2.symm).symm

/-- The shards, and what they did. -/
structure MigrationLog (H : Type) where
  /-- the shards -/
  net : ClpaState H
  /-- by what each shard selected accounts, before it sent them -/
  selected : ℕ → List Handover
  /-- by what each shard installed accounts, after it did -/
  applied : ℕ → List Handover

namespace MigrationLog

variable (cc : ChainConfig H)

/-- The shards just started. -/
def start : MigrationLog H := ⟨.start cc, fun _ => [], fun _ => []⟩

omit [DecidableEq H] in
/-- What a leader does with some placements. -/
def handover (k : ℕ) (nd : ClpaNode H) (m : PartitionModified) : Handover :=
  ⟨m, nd.curChain.getPartitionMap (cc.ofShard k), nd.curChain.currentBlock.header.stateRoot⟩

/-- One step. `sendAccounts_and_Txs` selects by the last entry of `ModifiedMap`;
`accountTransfer_do` installs by the map in the message of `proposePartition`. -/
def step (s : MigrationLog H) (a : ClpaAction) : Option (MigrationLog H) :=
  (s.net.step cc a).map fun t =>
    match a with
    | .sendAccounts sid =>
      let nd := s.net.nodes sid
      { s with
        net := t
        selected := Function.update s.selected sid
          (s.selected sid ++ (nd.modifiedMap.getLast?.map (handover cc sid nd)).toList) }
    | .transfer sid =>
      let atm := (s.net.nodes sid).proposePartition (cc.ofShard sid)
      { s with
        net := t
        applied := Function.update s.applied sid
          (s.applied sid ++
            (atm.map fun r => handover cc sid (t.nodes sid) r.2.modifiedMap).toList) }
    | _ => { s with net := t }

end MigrationLog

/-- **What a migration is for.** -/
structure MigrationKept (cc : ChainConfig H) (s : MigrationLog H) : Prop where
  /-- the map that is applied is the one by which every shard has selected accounts -/
  selected : ∀ k < cc.shardNums, ∀ (r : ℕ) (h : Handover), (s.applied k)[r]? = some h →
    ∀ j < cc.shardNums, ∃ h', (s.selected j)[r]? = some h' ∧ h'.modifiedMap = h.modifiedMap
  /-- by the map of every shard an address is in one shard, that of the placements -/
  homes : ∀ k < cc.shardNums, ∀ (r : ℕ) (h : Handover), (s.applied k)[r]? = some h →
    ∀ addr ∈ h.modifiedMap,
      h.place addr = h.modifiedMap.get addr ∧ h.modifiedMap.get addr < cc.shardNums
  /-- and stays there until the next migration -/
  stays : ∀ k < cc.shardNums, ∀ h : Handover, (s.applied k).getLast? = some h →
    (s.net.nodes k).curChain.getPartitionMap (cc.ofShard k) = h.place
  /-- the state of an account in its new home is that in its old home -/
  accounts : ∀ i < cc.shardNums, ∀ (r : ℕ) (h : Handover), (s.applied i)[r]? = some h →
    ∀ addr ∈ h.modifiedMap, h.modifiedMap.get addr = i →
      ∀ j < cc.shardNums, ∀ h' : Handover, (s.selected j)[r]? = some h' → h'.place addr = j →
        BlockChain.readAccount h.accounts 0 addr = BlockChain.readAccount h'.accounts 0 addr

/-! ## The condition -/

/-- The placements that are under way to a shard, in the order in which they were sent. -/
def pendingMaps (fl : List (ℕ × ClpaMessage)) (k : ℕ) : List PartitionModified :=
  fl.filterMap fun e => match e.2 with
    | .partitionMsg m => if e.1 = k then some m else none
    | _ => none

/-- Whether a message that arrives brings no placements while others wait for their
migration, or overtakes others. -/
def MapInTime (s : ClpaState H) (i : ℕ) : Prop :=
  match s.flight[i]? with
  | some (k, .partitionMsg _) =>
    (s.nodes k).modifiedMap.length = (s.nodes k).accountTransferRound ∧
      pendingMaps (s.flight.take i) k = []
  | _ => True

instance (s : ClpaState H) (i : ℕ) : Decidable (MapInTime s i) :=
  match h : s.flight[i]? with
  | some (k, .partitionMsg _) =>
    decidable_of_iff ((s.nodes k).modifiedMap.length = (s.nodes k).accountTransferRound ∧
      (pendingMaps (s.flight.take i) k).isEmpty = true) (by rw [MapInTime, h, List.isEmpty_iff])
  | some (_, .relay _) | some (_, .accountStateAndTx _) | some (_, .partitionReady _ _) | none =>
    .isTrue (by rw [MapInTime, h]; trivial)

/-- Whether new placements are in shards, and arrive one at a time and in order. -/
def ClpaAction.MapsInTime (cc : ChainConfig H) (s : ClpaState H) : ClpaAction → Prop
  | .repartition m => ∀ e ∈ m.entries, e.2 < cc.shardNums
  | .deliver i => MapInTime s i
  | _ => True

instance (cc : ChainConfig H) (s : ClpaState H) (a : ClpaAction) :
    Decidable (a.MapsInTime cc s) :=
  match a with
  | .repartition m => inferInstanceAs (Decidable (∀ e ∈ m.entries, e.2 < cc.shardNums))
  | .deliver i => inferInstanceAs (Decidable (MapInTime s i))
  | .inject .. | .ready _ | .commit .. | .sendAccounts _ | .transfer _ =>
    inferInstanceAs (Decidable True)

/-- An entry of a list with one more entry. -/
theorem getElem?_append_singleton {α : Type} {xs : List α} {x y : α} {q : ℕ}
    (h : (xs ++ [x])[q]? = some y) : xs[q]? = some y ∨ q = xs.length ∧ x = y := by
  rcases lt_trichotomy q xs.length with hlt | rfl | hgt
  · rw [List.getElem?_append_left hlt] at h
    exact .inl h
  · exact .inr ⟨rfl, by simpa using h⟩
  · rw [List.getElem?_eq_none (by simpa using Nat.succ_le_of_lt hgt)] at h
    cases h

/-! ## Placements -/

/-- The map of a shard after some migrations. -/
def placements (maps : List PartitionModified) : Address → Option ℕ :=
  maps.foldl (fun pm m => placeAll pm (m.entries.map fun e => (e.1, e.2))) fun _ => none

/-- Where addresses are after some migrations. -/
def placeAfter (cc : ChainConfig H) (maps : List PartitionModified) (addr : Address) : ℕ :=
  (placements maps addr).getD (addr2ShardWithShardNum cc.hash addr cc.shardNum)

theorem placements_append (maps : List PartitionModified) (m : PartitionModified) :
    placements (maps ++ [m]) =
      placeAll (placements maps) (m.entries.map fun e => (e.1, e.2)) := by
  rw [placements, List.foldl_append]
  rfl

omit [DecidableEq H] in
theorem getPartitionMap_eq_placeAfter {cc : ChainConfig H} {bc : BlockChain H}
    {maps : List PartitionModified} (h : bc.partitionMap = placements maps) (k : ℕ) :
    bc.getPartitionMap (cc.ofShard k) = placeAfter cc maps := by
  funext addr
  rw [BlockChain.getPartitionMap, h, placeAfter]
  cases placements maps addr with
  | none => rfl
  | some j => rfl

omit [DecidableEq H] in
/-- **A migration places its addresses.** -/
theorem placeAfter_append (cc : ChainConfig H) (maps : List PartitionModified)
    {m : PartitionModified} {addr : Address} (h : addr ∈ m) :
    placeAfter cc (maps ++ [m]) addr = m.get addr := by
  obtain ⟨k, hk⟩ := Option.isSome_iff_exists.mp (AList.lookup_isSome.mpr h)
  have hentry : (addr, k) ∈ m.entries.map fun e => (e.1, e.2) :=
    List.mem_map.mpr ⟨⟨addr, k⟩, AList.mem_lookup_iff.mp hk, rfl⟩
  have hnd : ((m.entries.map fun e => (e.1, e.2)).map (·.1)).Nodup := by
    rw [List.map_map]
    exact m.nodupKeys
  rw [placeAfter, placements_append, placeAll_of_mem hnd hentry, PartitionModified.get, hk]
  rfl

/-! ## What leaders do to placements and accounts -/

/-- A block leaves the map alone. -/
theorem leaderRound_partitionMap {cc : ChainConfig H} {miner seqID : ℕ} {now : Time}
    {bc bc' : BlockChain H} {relays : List (ℕ × Relay)}
    (h : leaderRound cc miner seqID now bc = some (bc', relays)) :
    bc'.partitionMap = bc.partitionMap := by
  rw [leaderRound] at h
  obtain ⟨⟨r, bc₁⟩, hprop, h⟩ := Option.bind_eq_some_iff.mp h
  obtain ⟨⟨b, bc₂⟩, hgen, heq⟩ := Option.map_eq_some_iff.mp hprop
  obtain ⟨rfl, rfl⟩ := Prod.mk.inj heq
  obtain ⟨-, -, -, -, -, -, -, -, rfl⟩ := BlockChain.generateBlock_eq_some hgen
  dsimp only at h
  split at h
  · rename_i bc₂ outs hcm
    obtain ⟨rfl, rfl⟩ := Prod.mk.inj (Option.some.inj h)
    obtain ⟨b', bc₃, -, hadd, ⟨-, hrelay⟩ | ⟨hm, -, -⟩⟩ := RawRelay.handleinCommit_eq_done hcm
    · obtain ⟨b'', storage, -, -, -, rfl⟩ := BlockChain.addBlock_eq_ok hadd
      obtain ⟨txs, info, -, -, rfl, -⟩ := RawRelay.relayBlock_spec hrelay
      rfl
    · cases hm
  · cases h

omit [DecidableEq H] in
/-- Accounts that are at home are installed; the others stay. -/
theorem installAccounts_lookup {cc : ChainConfig H} {bc : BlockChain H}
    {es : List (Address × AccountState)} {st st' : Accounts}
    (h : bc.installAccounts cc (es.map (·.1)) (es.map (·.2)) st = some st')
    (hnd : (es.map (·.1)).Nodup) (hhome : ∀ e ∈ es, bc.isHome cc e.1) :
    (∀ e ∈ es, st'.lookup e.1 = some e.2) ∧
      ∀ addr, addr ∉ es.map (·.1) → st'.lookup addr = st.lookup addr := by
  induction es generalizing st with
  | nil =>
    obtain rfl := Option.some.inj h
    exact ⟨nofun, fun _ _ => rfl⟩
  | cons e es ih =>
    rw [List.map_cons, List.nodup_cons] at hnd
    rw [List.map_cons, List.map_cons, BlockChain.installAccounts,
      if_pos (hhome e List.mem_cons_self)] at h
    obtain ⟨hin, hout⟩ := ih h hnd.2 fun e he => hhome e (List.mem_cons_of_mem _ he)
    refine ⟨fun e' he' => ?_, fun addr haddr => ?_⟩
    · rcases List.mem_cons.mp he' with rfl | he'
      · rw [hout e'.1 hnd.1, Finmap.lookup_insert]
      · exact hin e' he'
    · rw [List.map_cons, List.mem_cons, not_or] at haddr
      rw [hout addr haddr.2, Finmap.lookup_insert_of_ne _ haddr.1]

/-- The accounts of a message are added, with the states of the message. -/
theorem receiveAccounts_lookup {es : List (Address × AccountState)}
    {m m' : AList fun _ : Address => AccountState} {f : Address → AccountState}
    (h : ClpaNode.receiveAccounts (es.map (·.1)) (es.map (·.2)) m = some m')
    (hes : ∀ e ∈ es, e.2 = f e.1) (hm : ∀ addr st, m.lookup addr = some st → st = f addr) :
    (∀ addr st, m'.lookup addr = some st → st = f addr) ∧
      ∀ addr, addr ∈ m' ↔ addr ∈ m ∨ addr ∈ es.map (·.1) := by
  induction es generalizing m with
  | nil =>
    obtain rfl := Option.some.inj h
    exact ⟨hm, by simp⟩
  | cons e es ih =>
    rw [List.map_cons, List.map_cons, ClpaNode.receiveAccounts] at h
    have hinsert : ∀ addr st, (m.insert e.1 e.2).lookup addr = some st → st = f addr := by
      intro addr st hst
      by_cases haddr : addr = e.1
      · subst haddr
        rw [AList.lookup_insert] at hst
        obtain rfl := Option.some.inj hst
        exact hes e List.mem_cons_self
      · rw [AList.lookup_insert_ne haddr] at hst
        exact hm addr st hst
    obtain ⟨hval, hmem⟩ := ih h (fun e he => hes e (List.mem_cons_of_mem _ he)) hinsert
    refine ⟨hval, fun addr => ?_⟩
    rw [hmem, AList.mem_insert, List.map_cons, List.mem_cons]
    tauto

/-- **What a leader has got of accounts**: those of all messages, with their states. -/
theorem receiveAll_lookup {asts : List AccountStateAndTx}
    {states states' : AList fun _ : Address => AccountState} {txs txs' : List Transaction}
    {f : Address → AccountState} {g : AccountStateAndTx → List (Address × AccountState)}
    (h : ClpaNode.receiveAll asts states txs = some (states', txs'))
    (hasts : ∀ ast ∈ asts, ast.addrs = (g ast).map (·.1) ∧
      ast.accountState = (g ast).map (·.2) ∧ ∀ e ∈ g ast, e.2 = f e.1)
    (hstates : ∀ addr st, states.lookup addr = some st → st = f addr) :
    (∀ addr st, states'.lookup addr = some st → st = f addr) ∧
      ∀ addr, addr ∈ states' ↔ addr ∈ states ∨ ∃ ast ∈ asts, addr ∈ (g ast).map (·.1) := by
  induction asts generalizing states txs with
  | nil =>
    obtain ⟨rfl, rfl⟩ := Prod.mk.inj (Option.some.inj h)
    exact ⟨hstates, by simp⟩
  | cons ast asts ih =>
    rw [ClpaNode.receiveAll] at h
    obtain ⟨states₁, hone, h⟩ := Option.bind_eq_some_iff.mp h
    obtain ⟨haddrs, hst, hf⟩ := hasts ast List.mem_cons_self
    rw [haddrs, hst] at hone
    obtain ⟨hval₁, hmem₁⟩ := receiveAccounts_lookup hone hf hstates
    obtain ⟨hval, hmem⟩ := ih h (fun a ha => hasts a (List.mem_cons_of_mem _ ha)) hval₁
    refine ⟨hval, fun addr => ?_⟩
    rw [hmem, hmem₁, List.exists_mem_cons_iff, or_assoc]

omit [DecidableEq H] in
/-- What a leader sends, by its newest map: the accounts that are placed elsewhere and are
at home here. -/
theorem sendAccountsAndTxs_eq {cc : ChainConfig H} {k : ℕ} {nd nd' : ClpaNode H}
    {msgs : List (ℕ × ClpaMessage)}
    (h : nd.sendAccountsAndTxs (cc.ofShard k) = some (nd', msgs)) :
    ∃ m queue, nd.modifiedMap.getLast? = some m ∧
      nd' = { nd with
        curChain := { nd.curChain with txpool := { nd.curChain.txpool with txQueue := queue } } } ∧
      ∀ e ∈ msgs, e.1 < cc.shardNums ∧ ∃ ast, e.2 = .accountStateAndTx ast ∧ ast.fromShard = k ∧
        Carries ast (MigrationLog.handover cc k nd m) k e.1 := by
  obtain ⟨m, queue, hm, rfl, hdest, hmsgs⟩ := ClpaNode.sendAccountsAndTxs_eq_some h
  refine ⟨m, queue, hm, rfl, fun e he => ?_⟩
  obtain ⟨txs, heq⟩ := hmsgs e he
  have hto : e.1 ∈ ClpaNode.otherShards (cc.ofShard k) := hdest ▸ List.mem_map_of_mem he
  exact ⟨(mem_otherShards.mp hto).1, _, heq, rfl, rfl, rfl⟩

omit [DecidableEq H] in
/-- What a leader proposes: the map of the round, and the accounts that came. -/
theorem proposePartition_eq {cc : ChainConfig H} {nd nd' : ClpaNode H} {atm : AccountTransferMsg}
    (h : nd.proposePartition cc = some (nd', atm)) :
    ∃ m states txs, ClpaNode.receiveAll (nd.accountStateTx.entries.map (·.2))
        nd.receivedNewAccountState nd.receivedNewTx = some (states, txs) ∧
      nd.modifiedMap[nd.accountTransferRound]? = some m ∧
      atm = ⟨m, states.entries.map (·.1), states.entries.map (·.2), nd.modifiedMap.length⟩ ∧
      nd' = { nd with
        receivedNewAccountState := states
        receivedNewTx := txs
        curChain := nd.curChain.received txs } := by
  rw [ClpaNode.proposePartition] at h
  obtain ⟨⟨states, txs⟩, hall, h⟩ := Option.bind_eq_some_iff.mp h
  obtain ⟨m, hm, h⟩ := Option.bind_eq_some_iff.mp h
  split at h
  case isFalse => cases h
  obtain ⟨rfl, rfl⟩ := Prod.mk.inj (Option.some.inj h)
  exact ⟨m, states, txs, hall, hm, rfl, rfl⟩

/-- What the installation of a transfer does: the placements are entered, then the
accounts. -/
theorem accountTransferDo_eq {cc : ChainConfig H} {nd nd' : ClpaNode H}
    {atm : AccountTransferMsg} (h : nd.accountTransferDo cc atm = some nd') :
    nd'.curChain.partitionMap =
        placeAll nd.curChain.partitionMap (atm.modifiedMap.entries.map fun e => (e.1, e.2)) ∧
      BlockChain.installAccounts cc
        { nd.curChain with
          partitionMap := placeAll nd.curChain.partitionMap
            (atm.modifiedMap.entries.map fun e => (e.1, e.2)) }
        atm.addrs atm.accountState nd.curChain.currentBlock.header.stateRoot =
          some nd'.curChain.currentBlock.header.stateRoot ∧
      nd' = { nd with
        curChain := nd'.curChain
        modifiedMap :=
          if nd.modifiedMap.length ≠ atm.atid then nd.modifiedMap ++ [atm.modifiedMap]
          else nd.modifiedMap
        accountTransferRound := atm.atid
        accountStateTx := ∅
        receivedNewAccountState := ∅
        receivedNewTx := []
        partitionOn := false
        collectOver := false
        partitionReady := ∅ } := by
  rw [ClpaNode.accountTransferDo, ClpaNode.foldl_updatePartitionMap] at h
  obtain ⟨bc, hadd, rfl⟩ := Option.map_eq_some_iff.mp h
  obtain ⟨b, storage, -, -, -, -, -, hinstall, rfl⟩ := BlockChain.addAccounts_eq_some hadd
  exact ⟨rfl, hinstall, rfl⟩

/-! ## The maps of the shards -/

theorem pendingMaps_append (fl fl' : List (ℕ × ClpaMessage)) (k : ℕ) :
    pendingMaps (fl ++ fl') k = pendingMaps fl k ++ pendingMaps fl' k :=
  List.filterMap_append

/-- No placements are among the messages. -/
theorem pendingMaps_eq_nil {fl : List (ℕ × ClpaMessage)}
    (h : ∀ e ∈ fl, ∀ m, e.2 ≠ .partitionMsg m) (k : ℕ) : pendingMaps fl k = [] := by
  rw [pendingMaps, List.filterMap_eq_nil_iff]
  intro e he
  split
  · rename_i m hm
    exact absurd hm (h e he m)
  · rfl

/-- Placements are sent to some shards. -/
theorem pendingMaps_broadcast (m : PartitionModified) (sids : List ℕ) (k : ℕ) :
    pendingMaps (sids.map fun sid => (sid, .partitionMsg m)) k = .replicate (sids.count k) m := by
  induction sids with
  | nil => rfl
  | cons sid sids ih =>
    by_cases hk : sid = k
    · simpa [pendingMaps, hk, List.replicate_succ] using ih
    · simpa [pendingMaps, hk] using ih

/-- The message at a position, and what is around it. -/
theorem flight_split {fl : List (ℕ × ClpaMessage)} {i : ℕ} {e : ℕ × ClpaMessage}
    (h : fl[i]? = some e) :
    fl = fl.take i ++ ([e] ++ fl.drop (i + 1)) ∧
      fl.eraseIdx i = fl.take i ++ fl.drop (i + 1) := by
  obtain ⟨hi, rfl⟩ := List.getElem?_eq_some_iff.mp h
  refine ⟨?_, List.eraseIdx_eq_take_drop_succ ..⟩
  rw [List.singleton_append, ← List.drop_eq_getElem_cons hi, List.take_append_drop]

/-- A message without placements for the shard arrives. -/
theorem pendingMaps_eraseIdx_of_ne {fl : List (ℕ × ClpaMessage)} {i k : ℕ}
    {e : ℕ × ClpaMessage} (h : fl[i]? = some e) (hne : pendingMaps [e] k = []) :
    pendingMaps (fl.eraseIdx i) k = pendingMaps fl k := by
  obtain ⟨hfl, herase⟩ := flight_split h
  rw [herase]
  conv_rhs => rw [hfl]
  rw [pendingMaps_append, pendingMaps_append, pendingMaps_append, hne, List.nil_append]

/-- The first placements for the shard arrive. -/
theorem pendingMaps_eraseIdx {fl : List (ℕ × ClpaMessage)} {i k : ℕ} {m : PartitionModified}
    (h : fl[i]? = some (k, .partitionMsg m)) (hfirst : pendingMaps (fl.take i) k = []) :
    pendingMaps fl k = m :: pendingMaps (fl.eraseIdx i) k := by
  obtain ⟨hfl, herase⟩ := flight_split h
  rw [herase]
  conv_lhs => rw [hfl]
  rw [pendingMaps_append, pendingMaps_append, pendingMaps_append, hfirst]
  simp [pendingMaps]

/-- The maps that were sent, after a step. -/
def ClpaAction.maps (maps : List PartitionModified) : ClpaAction → List PartitionModified
  | .repartition m => maps ++ [m]
  | _ => maps

/-- A leader has had a part of the maps that were sent, and is through with all of them
or with all but the last; its own map is that of the rounds it has finished. -/
structure NodeMaps (maps : List PartitionModified) (r : ℕ) (pending : List PartitionModified)
    (nd : ClpaNode H) : Prop where
  /-- what has arrived, and what is under way -/
  arrived : nd.modifiedMap ++ pending = maps
  /-- the round count -/
  round : nd.accountTransferRound = r
  /-- one map at most waits for its migration -/
  length : nd.modifiedMap.length = r + nd.partitionOn.toNat
  /-- a leader in a round has a map for it -/
  waiting : nd.stage ≠ .idle → nd.partitionOn = true
  /-- the map of the shard -/
  place : nd.curChain.partitionMap = placements (maps.take r)
  /-- nothing is left from the last migration -/
  fresh : nd.receivedNewAccountState = ∅

namespace NodeMaps

variable {maps pending : List PartitionModified} {r : ℕ} {nd nd' : ClpaNode H}

omit [DecidableEq H]

theorem rounds_le (h : NodeMaps maps r pending nd) : r ≤ maps.length := by
  have hlen := h.length
  have harr := congrArg List.length h.arrived
  rw [List.length_append] at harr
  omega

/-- **The last map of a leader in a round is that of the round.** -/
theorem last_eq (h : NodeMaps maps r pending nd) (hstage : nd.stage ≠ .idle) :
    ∃ m, nd.modifiedMap.getLast? = some m ∧ nd.modifiedMap[nd.accountTransferRound]? = some m ∧
      maps[r]? = some m := by
  have hlen := h.length
  rw [h.waiting hstage, Bool.toNat_true] at hlen
  have hlt : r < nd.modifiedMap.length := by omega
  have hat : nd.modifiedMap[r]? = some nd.modifiedMap[r] := List.getElem?_eq_getElem hlt
  refine ⟨nd.modifiedMap[r], ?_, ?_, ?_⟩
  · rw [List.getLast?_eq_getElem?, hlen, Nat.add_sub_cancel, hat]
  · rw [h.round, hat]
  · rw [← h.arrived, List.getElem?_append_left hlt, hat]

/-- A leader that does nothing about maps. -/
theorem congr (h : NodeMaps maps r pending nd) (hmod : nd'.modifiedMap = nd.modifiedMap)
    (hround : nd'.accountTransferRound = nd.accountTransferRound)
    (hon : nd'.partitionOn = nd.partitionOn)
    (hstage : nd'.stage ≠ .idle → nd'.partitionOn = true)
    (hplace : nd'.curChain.partitionMap = nd.curChain.partitionMap)
    (hfresh : nd'.receivedNewAccountState = nd.receivedNewAccountState) :
    NodeMaps maps r pending nd' where
  arrived := hmod ▸ h.arrived
  round := hround ▸ h.round
  length := by rw [hmod, hon, h.length]
  waiting := hstage
  place := hplace ▸ h.place
  fresh := hfresh ▸ h.fresh

/-- More maps are sent. -/
theorem append (h : NodeMaps maps r pending nd) (m : PartitionModified) :
    NodeMaps (maps ++ [m]) r (pending ++ [m]) nd where
  arrived := by rw [← List.append_assoc, h.arrived]
  round := h.round
  length := h.length
  waiting := h.waiting
  place := by rw [List.take_append_of_le_length h.rounds_le, h.place]
  fresh := h.fresh

/-- **A map arrives**, where none waits. -/
theorem receive {m : PartitionModified} (h : NodeMaps maps r (m :: pending) nd)
    (hwait : nd.modifiedMap.length = nd.accountTransferRound) :
    NodeMaps maps r pending (nd.handlePartitionMsg m) where
  arrived := by rw [ClpaNode.handlePartitionMsg, List.append_assoc, List.singleton_append, h.arrived]
  round := h.round
  length := by
    rw [ClpaNode.handlePartitionMsg, List.length_append, hwait, h.round]
    rfl
  waiting _ := rfl
  place := h.place
  fresh := h.fresh

/-- **The round ends**: the map of the round is entered. -/
theorem finish [DecidableEq H] (h : NodeMaps maps r pending nd) {cc : ChainConfig H}
    {nd₁ nd₂ : ClpaNode H} {atm : AccountTransferMsg} (hstage : nd.stage ≠ .idle)
    (hprop : nd.proposePartition cc = some (nd₁, atm))
    (hdo : nd₁.accountTransferDo cc atm = some nd₂) :
    NodeMaps maps (r + 1) pending { nd₂ with stage := .idle, sequenceID := nd₂.sequenceID + 1 } := by
  obtain ⟨m, states, txs, -, hmap, rfl, rfl⟩ := proposePartition_eq hprop
  obtain ⟨hplace, -, hnd⟩ := accountTransferDo_eq hdo
  obtain ⟨m', -, hat, hm⟩ := h.last_eq hstage
  have hlength := h.length
  rw [h.waiting hstage, Bool.toNat_true] at hlength
  rw [hnd]
  simp only [ne_eq, not_true_eq_false, if_false]
  refine ⟨h.arrived, hlength, hlength, fun hne => absurd rfl hne, ?_, rfl⟩
  obtain rfl := Option.some.inj (hat.symm.trans hmap)
  rw [List.take_add_one, hm, Option.toList_some, placements_append, ← h.place]
  exact hplace

end NodeMaps

/-- The leaders of all shards with their maps. -/
structure MapsSound (cc : ChainConfig H) (rounds : ℕ → ℕ) (maps : List PartitionModified)
    (s : ClpaState H) : Prop where
  /-- addresses are placed in shards -/
  shards : ∀ m ∈ maps, ∀ e ∈ m.entries, e.2 < cc.shardNums
  /-- the leaders -/
  node : ∀ k < cc.shardNums, NodeMaps maps (rounds k) (pendingMaps s.flight k) (s.nodes k)

namespace MapsSound

variable {cc : ChainConfig H} {rounds : ℕ → ℕ} {maps : List PartitionModified}
  {s t : ClpaState H} {a : ClpaAction} {k : ℕ}

omit [DecidableEq H] in
theorem start : MapsSound cc (fun _ => 0) [] (ClpaState.start cc) where
  shards _ hm := absurd hm List.not_mem_nil
  node _ _ := ⟨rfl, rfl, rfl, fun h => absurd rfl h, rfl, rfl⟩

omit [DecidableEq H] in
/-- One leader changes, with the messages to it. -/
theorem update (hs : MapsSound cc rounds maps s) {rounds' : ℕ → ℕ} {nd : ClpaNode H}
    {fl : List (ℕ × ClpaMessage)} {u c : Finset Bytes}
    (hothers : ∀ i, i ≠ k → rounds' i = rounds i ∧ pendingMaps fl i = pendingMaps s.flight i)
    (hnode : k < cc.shardNums → NodeMaps maps (rounds' k) (pendingMaps fl k) nd) :
    MapsSound cc rounds' maps ⟨Function.update s.nodes k nd, fl, u, c⟩ := by
  refine ⟨hs.shards, fun i hi => ?_⟩
  by_cases hik : i = k
  · subst hik
    simpa using hnode hi
  · obtain ⟨hrounds, hpending⟩ := hothers i hik
    simpa [hik, hrounds, hpending] using hs.node i hi

omit [DecidableEq H] in
/-- A leader sends messages without placements. -/
theorem sent (hs : MapsSound cc rounds maps s) {nd : ClpaNode H}
    {fl : List (ℕ × ClpaMessage)} {u c : Finset Bytes}
    (hfl : ∀ e ∈ fl, ∀ m, e.2 ≠ .partitionMsg m)
    (hnode : k < cc.shardNums → NodeMaps maps (rounds k) (pendingMaps s.flight k) nd) :
    MapsSound cc rounds maps ⟨Function.update s.nodes k nd, s.flight ++ fl, u, c⟩ := by
  have hpending : ∀ i, pendingMaps (s.flight ++ fl) i = pendingMaps s.flight i := by
    intro i
    rw [pendingMaps_append, pendingMaps_eq_nil hfl, List.append_nil]
  refine hs.update (fun i _ => ⟨rfl, hpending i⟩) fun hk => ?_
  rw [hpending]
  exact hnode hk

/-- **Every step keeps the maps**, where they arrive one at a time and in order. -/
theorem step (hs : MapsSound cc rounds maps s) (hok : a.MapsInTime cc s)
    (h : s.step cc a = some t) : MapsSound cc (a.rounds rounds) (a.maps maps) t := by
  cases a with
  | inject sid txs =>
    obtain ⟨-, rfl⟩ := ClpaState.step_inject h
    exact hs.update (fun i _ => ⟨rfl, rfl⟩) fun hk =>
      (hs.node sid hk).congr rfl rfl rfl (hs.node sid hk).waiting rfl rfl
  | repartition m =>
    obtain rfl := ClpaState.step_repartition h
    refine ⟨fun m' hm' => ?_, fun k hk => ?_⟩
    · rcases List.mem_append.mp hm' with hm' | hm'
      · exact hs.shards m' hm'
      · obtain rfl := List.mem_singleton.mp hm'
        exact hok
    · have hsent : pendingMaps ((List.range cc.shardNums).map fun sid =>
          (sid, ClpaMessage.partitionMsg m)) k = [m] := by
        rw [pendingMaps_broadcast, List.count_eq_one_of_mem List.nodup_range (List.mem_range.mpr hk)]
        rfl
      dsimp only
      rw [pendingMaps_append, hsent]
      exact (hs.node k hk).append m
  | commit sid miner now =>
    obtain ⟨bc, relays, -, hround, rfl⟩ := ClpaState.step_commit h
    refine hs.sent (fun e he m hm => ?_) fun hk =>
      (hs.node sid hk).congr rfl rfl rfl (hs.node sid hk).waiting (leaderRound_partitionMap hround)
        rfl
    obtain ⟨e', -, rfl⟩ := List.mem_map.mp he
    cases hm
  | ready sid =>
    obtain ⟨hin, rfl⟩ := ClpaState.step_ready h
    refine hs.sent (fun e he m hm => ?_) fun hk =>
      (hs.node sid hk).congr rfl rfl rfl (fun _ => hin.2.2) rfl rfl
    obtain ⟨i, -, rfl⟩ := List.mem_map.mp he
    cases hm
  | sendAccounts sid =>
    obtain ⟨nd, msgs, hin, hsend, rfl⟩ := ClpaState.step_sendAccounts h
    obtain ⟨m, queue, -, rfl, hmsgs⟩ := sendAccountsAndTxs_eq hsend
    refine hs.sent (fun e he m' hm' => ?_) fun hk =>
      (hs.node sid hk).congr rfl rfl rfl (fun _ => (hs.node sid hk).waiting ?_) rfl rfl
    · obtain ⟨-, ast, heq, -⟩ := hmsgs e he
      rw [heq] at hm'
      cases hm'
    · simp [hin.2.1]
  | transfer sid =>
    obtain ⟨nd₁, nd₂, atm, hin, hprop, hdo, rfl⟩ := ClpaState.step_transfer h
    refine hs.update (fun i hi => ⟨Function.update_of_ne hi _ _, rfl⟩) fun hk => ?_
    simp only [ClpaAction.rounds, Function.update_self]
    exact (hs.node sid hk).finish (by simp [hin.2.1]) hprop hdo
  | deliver i =>
    obtain ⟨k, m, he, rfl⟩ := ClpaState.step_deliver h
    have hquiet : ∀ nd : ClpaNode H, (∀ j, pendingMaps [(k, m)] j = []) →
        (k < cc.shardNums → NodeMaps maps (rounds k) (pendingMaps s.flight k) nd) →
        MapsSound cc rounds maps
          ⟨Function.update s.nodes k nd, s.flight.eraseIdx i, s.used, s.credited⟩ := by
      intro nd hm hnode
      refine hs.update (fun j _ => ⟨rfl, pendingMaps_eraseIdx_of_ne he (hm j)⟩) fun hk => ?_
      rw [pendingMaps_eraseIdx_of_ne he (hm k)]
      exact hnode hk
    cases m with
    | relay m =>
      exact hquiet _ (fun j => rfl) fun hk =>
        (hs.node k hk).congr rfl rfl rfl (hs.node k hk).waiting rfl rfl
    | accountStateAndTx ast =>
      exact hquiet _ (fun j => rfl) fun hk =>
        (hs.node k hk).congr rfl rfl rfl (hs.node k hk).waiting rfl rfl
    | partitionReady j seq =>
      exact hquiet _ (fun j => rfl) fun hk =>
        (hs.node k hk).congr rfl rfl rfl (hs.node k hk).waiting rfl rfl
    | partitionMsg m =>
      have hok : MapInTime s i := hok
      rw [MapInTime, he] at hok
      obtain ⟨hwait, hfirst⟩ := hok
      refine hs.update (fun j hj => ⟨rfl, pendingMaps_eraseIdx_of_ne he ?_⟩) fun hk => ?_
      · simp [pendingMaps, hj.symm]
      · have hnode := hs.node k hk
        rw [pendingMaps_eraseIdx he hfirst] at hnode
        exact hnode.receive hwait

end MapsSound

/-! ## What is selected, sent and installed -/

/-- The log of one shard: by the map of every round, over the states of its time. -/
structure ShardLog (cc : ChainConfig H) (maps : List PartitionModified) (r : ℕ) (nd : ClpaNode H)
    (sel app : List Handover) : Prop where
  /-- a leader selects accounts when it passes the barrier -/
  selectedLength : sel.length = r + nd.stage.phase.delivered
  /-- by the map of the round, where addresses are after the rounds before it -/
  selected : ∀ q h, sel[q]? = some h →
    maps[q]? = some h.modifiedMap ∧ h.place = placeAfter cc (maps.take q)
  /-- a shard installs accounts when it finishes the round -/
  appliedLength : app.length = r
  /-- by the map of the round, and addresses are where it says -/
  applied : ∀ q h, app[q]? = some h →
    maps[q]? = some h.modifiedMap ∧ h.place = placeAfter cc (maps.take (q + 1))
  /-- meanwhile its accounts stay as they are -/
  still : nd.stage = .waitCollect → ∀ h, sel[r]? = some h →
    nd.curChain.currentBlock.header.stateRoot = h.accounts

namespace ShardLog

variable {cc : ChainConfig H} {maps : List PartitionModified} {r : ℕ} {nd nd' : ClpaNode H}
  {sel app : List Handover}

omit [DecidableEq H]

/-- A leader that does nothing about accounts. -/
theorem congr (h : ShardLog cc maps r nd sel app)
    (hphase : nd'.stage.phase.delivered = nd.stage.phase.delivered)
    (hroot : nd'.stage = .waitCollect → nd.stage = .waitCollect ∧
      nd'.curChain.currentBlock.header.stateRoot = nd.curChain.currentBlock.header.stateRoot) :
    ShardLog cc maps r nd' sel app := by
  refine ⟨hphase ▸ h.selectedLength, h.selected, h.appliedLength, h.applied, fun hstage => ?_⟩
  obtain ⟨hold, heq⟩ := hroot hstage
  rw [heq]
  exact h.still hold

/-- More maps are sent. -/
theorem append (h : ShardLog cc maps r nd sel app) (m : PartitionModified) :
    ShardLog cc (maps ++ [m]) r nd sel app := by
  refine ⟨h.selectedLength, fun q e he => ?_, h.appliedLength, fun q e he => ?_, h.still⟩
  · obtain ⟨hmap, hplace⟩ := h.selected q e he
    obtain ⟨hlt, -⟩ := List.getElem?_eq_some_iff.mp hmap
    rw [List.getElem?_append_left hlt, List.take_append_of_le_length hlt.le]
    exact ⟨hmap, hplace⟩
  · obtain ⟨hmap, hplace⟩ := h.applied q e he
    obtain ⟨hlt, -⟩ := List.getElem?_eq_some_iff.mp hmap
    rw [List.getElem?_append_left hlt, List.take_append_of_le_length hlt]
    exact ⟨hmap, hplace⟩

/-- **Accounts are selected** by the map of the round. -/
theorem select (h : ShardLog cc maps r nd sel app) {new : Handover}
    (hstage : nd.stage = .waitReady) (hstage' : nd'.stage = .waitCollect)
    (hmap : maps[r]? = some new.modifiedMap) (hplace : new.place = placeAfter cc (maps.take r))
    (hroot : nd'.curChain.currentBlock.header.stateRoot = new.accounts) :
    ShardLog cc maps r nd' (sel ++ [new]) app := by
  have hlength : sel.length = r := by simpa [hstage] using h.selectedLength
  subst hlength
  refine ⟨by simp [hstage'], fun q e he => ?_, h.appliedLength, h.applied, fun _ e he => ?_⟩
  · rcases getElem?_append_singleton he with he | ⟨rfl, rfl⟩
    · exact h.selected q e he
    · exact ⟨hmap, hplace⟩
  · obtain rfl : new = e := by simpa using he
    exact hroot

/-- **Accounts are installed** by the map of the round. -/
theorem install (h : ShardLog cc maps r nd sel app) {new : Handover}
    (hstage : nd.stage = .waitCollect) (hstage' : nd'.stage = .idle)
    (hmap : maps[r]? = some new.modifiedMap)
    (hplace : new.place = placeAfter cc (maps.take (r + 1))) :
    ShardLog cc maps (r + 1) nd' sel (app ++ [new]) := by
  have hlength : sel.length = r + 1 := by simpa [hstage] using h.selectedLength
  refine ⟨by simp [hlength, hstage'], h.selected, by simp [h.appliedLength], fun q e he => ?_,
    fun hne => by simp [hstage'] at hne⟩
  rcases getElem?_append_singleton he with he | ⟨rfl, rfl⟩
  · exact h.applied q e he
  · rw [h.appliedLength]
    exact ⟨hmap, hplace⟩

end ShardLog

/-- What was selected, what is under way and what has arrived, in all shards. -/
structure LogSound (cc : ChainConfig H) (rounds : ℕ → ℕ) (maps : List PartitionModified)
    (s : MigrationLog H) : Prop where
  /-- the logs of the shards -/
  shard : ∀ k < cc.shardNums,
    ShardLog cc maps (rounds k) (s.net.nodes k) (s.selected k) (s.applied k)
  /-- accounts under way are those of the round of the shard that gets them -/
  sent : ∀ e ∈ s.net.flight, ∀ ast, e.2 = .accountStateAndTx ast →
    ∀ h, (s.selected ast.fromShard)[rounds e.1]? = some h → Carries ast h ast.fromShard e.1
  /-- so are those that have arrived -/
  collected : ∀ i < cc.shardNums, ∀ j ast, (s.net.nodes i).accountStateTx.lookup j = some ast →
    ∀ h, (s.selected j)[rounds i]? = some h → Carries ast h j i
  /-- the state of an account in its new home is that in its old home -/
  accounts : ∀ i < cc.shardNums, ∀ (r : ℕ) (h : Handover), (s.applied i)[r]? = some h →
    ∀ addr ∈ h.modifiedMap, h.modifiedMap.get addr = i →
      ∀ j < cc.shardNums, ∀ h' : Handover, (s.selected j)[r]? = some h' → h'.place addr = j →
        BlockChain.readAccount h.accounts 0 addr = BlockChain.readAccount h'.accounts 0 addr

omit [DecidableEq H] in
/-- The state of an account when the shards select it, read where it is at home. -/
def MigrationLog.selectedState (cc : ChainConfig H) (s : MigrationLog H)
    (maps : List PartitionModified) (r : ℕ) (addr : Address) : AccountState :=
  ((s.selected (placeAfter cc (maps.take r) addr))[r]?.map fun h =>
    BlockChain.readAccount h.accounts 0 addr).getD ⟨0, 0⟩

namespace LogSound

variable {cc : ChainConfig H} {rounds : ℕ → ℕ} {maps : List PartitionModified}
  {s t : MigrationLog H} {a : ClpaAction} {k : ℕ}

omit [DecidableEq H] in
theorem start : LogSound cc (fun _ => 0) [] (MigrationLog.start cc) where
  shard k _ := ⟨rfl, fun _ _ hq => (by cases hq), rfl, fun _ _ hq => (by cases hq),
    fun h => (by cases h)⟩
  sent e he := absurd he List.not_mem_nil
  collected i _ j ast hast := by cases hast
  accounts i _ r h hr := by cases hr

omit [DecidableEq H] in
/-- One leader changes, but for what it knows of accounts. -/
theorem quiet (hs : LogSound cc rounds maps s) {nd : ClpaNode H} {fl : List (ℕ × ClpaMessage)}
    {u c : Finset Bytes}
    (hphase : nd.stage.phase.delivered = (s.net.nodes k).stage.phase.delivered)
    (hroot : nd.stage = .waitCollect → (s.net.nodes k).stage = .waitCollect ∧
      nd.curChain.currentBlock.header.stateRoot =
        (s.net.nodes k).curChain.currentBlock.header.stateRoot)
    (hcollected : nd.accountStateTx = (s.net.nodes k).accountStateTx)
    (hfl : ∀ e ∈ fl, e ∈ s.net.flight ∨ ∀ j, e.2.isAccounts j = false) :
    LogSound cc rounds maps { s with net := ⟨Function.update s.net.nodes k nd, fl, u, c⟩ } := by
  refine ⟨fun i hi => ?_, fun e he ast hast => ?_, fun i hi => ?_, hs.accounts⟩
  · by_cases hik : i = k
    · subst hik
      simpa using (hs.shard i hi).congr hphase hroot
    · simpa [hik] using hs.shard i hi
  · rcases hfl e he with he | he
    · exact hs.sent e he ast hast
    · have := he ast.fromShard
      rw [hast] at this
      simp [ClpaMessage.isAccounts] at this
  · by_cases hik : i = k
    · subst hik
      simpa [hcollected] using hs.collected i hi
    · simpa [hik] using hs.collected i hi

omit [DecidableEq H] in
/-- New placements are sent. -/
theorem repartition (hs : LogSound cc rounds maps s) (m : PartitionModified) :
    LogSound cc rounds (maps ++ [m])
      { s with
        net := { s.net with
          flight := s.net.flight ++
            (List.range cc.shardNums).map fun sid => (sid, .partitionMsg m) } } := by
  refine ⟨fun i hi => (hs.shard i hi).append m, fun e he ast hast => ?_, hs.collected, hs.accounts⟩
  rcases List.mem_append.mp he with he | he
  · exact hs.sent e he ast hast
  · obtain ⟨sid, -, rfl⟩ := List.mem_map.mp he
    cases hast

omit [DecidableEq H] in
/-- Accounts arrive. -/
theorem receive (hs : LogSound cc rounds maps s) {i : ℕ} {ast : AccountStateAndTx}
    (he : s.net.flight[i]? = some (k, .accountStateAndTx ast)) :
    LogSound cc rounds maps
      { s with
        net := { s.net with
          nodes := Function.update s.net.nodes k
            ((s.net.nodes k).handleAccountStateAndTxMsg (cc.ofShard k) ast)
          flight := s.net.flight.eraseIdx i } } := by
  refine ⟨fun j hj => ?_, fun e he' => hs.sent e (List.mem_of_mem_eraseIdx he'),
    fun j hj j' ast' hast => ?_, hs.accounts⟩
  · by_cases hjk : j = k
    · subst hjk
      simp only [Function.update_self]
      exact (hs.shard j hj).congr rfl fun h => ⟨h, rfl⟩
    · simpa [hjk] using hs.shard j hj
  · dsimp only at hast
    by_cases hjk : j = k
    · subst hjk
      rw [Function.update_self, ClpaNode.handleAccountStateAndTxMsg] at hast
      by_cases hj' : j' = ast.fromShard
      · subst hj'
        obtain rfl := Option.some.inj ((AList.lookup_insert _).symm.trans hast)
        exact hs.sent _ (List.mem_of_getElem? he) ast rfl
      · exact hs.collected j hj j' ast' ((AList.lookup_insert_ne hj').symm.trans hast)
    · rw [Function.update_of_ne hjk] at hast
      exact hs.collected j hj j' ast' hast

omit [DecidableEq H] in
/-- All leaders are in the round of one that passes the barrier. -/
theorem rounds_eq (hb : BarrierSound cc rounds s.net) {sid j : ℕ} (hk : sid < cc.shardNums)
    (hj : j < cc.shardNums) (hstage : (s.net.nodes sid).stage = .waitReady)
    (hready : (s.net.nodes sid).getPartitionReady (cc.ofShard sid) = true) :
    rounds j = rounds sid := by
  by_cases hne : j = sid
  · rw [hne]
  · exact (hb.law.of_heard (Finset.mem_range.mpr hj) (Finset.mem_range.mpr hk) hne
      (by simp [ClpaState.barrier, hstage]) (hb.all_ready hready hj)).1

omit [DecidableEq H] in
/-- **A leader selects accounts** and sends them: all shards are in its round, and what it
sent before has been installed. -/
theorem pass (hs : LogSound cc rounds maps s) (hm : MapsSound cc rounds maps s.net)
    (hb : BarrierSound cc rounds s.net) {sid : ℕ} (hk : sid < cc.shardNums)
    (hstage : (s.net.nodes sid).stage = .waitReady)
    (hready : (s.net.nodes sid).getPartitionReady (cc.ofShard sid) = true) {nd : ClpaNode H}
    {msgs : List (ℕ × ClpaMessage)}
    (h : (s.net.nodes sid).sendAccountsAndTxs (cc.ofShard sid) = some (nd, msgs)) :
    LogSound cc rounds maps
      { s with
        net := { s.net with
          nodes := Function.update s.net.nodes sid { nd with stage := .waitCollect }
          flight := s.net.flight ++ msgs }
        selected := Function.update s.selected sid (s.selected sid ++
          ((s.net.nodes sid).modifiedMap.getLast?.map
            (MigrationLog.handover cc sid (s.net.nodes sid))).toList) } := by
  obtain ⟨m, queue, hlast, rfl, hmsgs⟩ := sendAccountsAndTxs_eq h
  obtain ⟨m', hlast', -, hmap⟩ := (hm.node sid hk).last_eq (by simp [hstage])
  obtain rfl := Option.some.inj (hlast.symm.trans hlast')
  rw [hlast, Option.map_some, Option.toList_some]
  have hlength : (s.selected sid).length = rounds sid := by
    simpa [hstage] using (hs.shard sid hk).selectedLength
  have hrounds : ∀ j < cc.shardNums, rounds j = rounds sid :=
    fun j hj => rounds_eq hb hk hj hstage hready
  have hphase : ((s.net.barrier rounds).phase sid).delivered = 0 := by
    simp [ClpaState.barrier, hstage]
  -- the other entries are as before
  have hold : ∀ {j q e}, (Function.update s.selected sid (s.selected sid ++
      [MigrationLog.handover cc sid (s.net.nodes sid) m]) j)[q]? = some e →
        (s.selected j)[q]? = some e ∨ j = sid ∧ q = rounds sid ∧
          e = MigrationLog.handover cc sid (s.net.nodes sid) m := by
    intro j q e he
    by_cases hj : j = sid
    · subst hj
      rw [Function.update_self] at he
      exact (getElem?_append_singleton he).imp_right fun h => ⟨rfl, hlength ▸ h.1, h.2.symm⟩
    · rw [Function.update_of_ne hj] at he
      exact .inl he
  refine ⟨fun i hi => ?_, fun e he ast hast h₀ hh => ?_, fun i hi j ast hast h₀ hh => ?_,
    fun i hi r h₀ hh addr haddr hget j hj h₁ hh₁ => ?_⟩
  · by_cases hik : i = sid
    · subst hik
      simp only [Function.update_self]
      exact (hs.shard i hi).select hstage rfl hmap
        (getPartitionMap_eq_placeAfter (hm.node i hi).place i) rfl
    · simpa [hik] using hs.shard i hi
  · rcases List.mem_append.mp he with he | he
    · rcases hold hh with hh | ⟨hj, hq, -⟩
      · exact hs.sent e he ast hast h₀ hh
      · -- accounts of this leader are under way to a shard that is a round behind
        obtain ⟨hto, hfrom⟩ := hb.addressed e he
        obtain ⟨-, hne⟩ := hfrom ast.fromShard (by rw [hast]; rfl)
        have hgoods := (hb.law.of_goods (k := sid) (Finset.mem_range.mpr hto)
          (Finset.mem_range.mpr hk) (by rw [← hj]; exact hne.symm)
          (underWay_pos (m := e.2) he (by simp [hast, ClpaMessage.isAccounts, hj]))).1
        rw [hphase] at hgoods
        simp only [ClpaState.barrier] at hgoods
        omega
    · obtain ⟨hto, ast', heq, hfrom, hcarries⟩ := hmsgs e he
      obtain rfl := ClpaMessage.accountStateAndTx.inj (heq.symm.trans hast)
      rcases hold hh with hh | ⟨-, -, rfl⟩
      · rw [hrounds e.1 hto, hfrom, ← hlength, List.getElem?_eq_none le_rfl] at hh
        cases hh
      · rw [hfrom]
        exact hcarries
  · have hast' : (s.net.nodes i).accountStateTx.lookup j = some ast := by
      by_cases hik : i = sid
      · subst hik
        simpa using hast
      · simpa [hik] using hast
    rcases hold hh with hh | ⟨rfl, hq, -⟩
    · exact hs.collected i hi j ast hast' h₀ hh
    · -- accounts of this leader were got by a shard that is a round behind
      have hkey : j ∈ (s.net.nodes i).accountStateTx.keys :=
        AList.lookup_isSome.mp (by rw [hast']; rfl)
      have hgot := (hb.law.of_got (k := j) (Finset.mem_range.mpr hi) (Finset.mem_range.mpr hk)
        (hb.accounts i j hkey).2.symm (List.mem_toFinset.mpr hkey)).1
      rw [hphase] at hgot
      simp only [ClpaState.barrier] at hgot
      omega
  · rcases hold hh₁ with hh₁ | ⟨-, rfl, -⟩
    · exact hs.accounts i hi r h₀ hh addr haddr hget j hj h₁ hh₁
    · have hlt := (List.getElem?_eq_some_iff.mp hh).1
      rw [(hs.shard i hi).appliedLength, hrounds i hi] at hlt
      exact absurd hlt (lt_irrefl _)

omit [DecidableEq H] in
/-- All shards select by the map of the round. -/
theorem selected_eq (hs : LogSound cc rounds maps s) {r : ℕ} {m : PartitionModified}
    (hmap : maps[r]? = some m) {j : ℕ} (hj : j < cc.shardNums) {h : Handover}
    (hh : (s.selected j)[r]? = some h) :
    h.modifiedMap = m ∧ h.place = placeAfter cc (maps.take r) := by
  obtain ⟨hmod, hplace⟩ := (hs.shard j hj).selected _ _ hh
  exact ⟨Option.some.inj (hmod.symm.trans hmap), hplace⟩

omit [DecidableEq H] in
/-- What leaves a shard is in the state that was selected, and is at home there. -/
theorem leaving_eq (hs : LogSound cc rounds maps s) {r : ℕ} {m : PartitionModified}
    (hmap : maps[r]? = some m) {j i : ℕ} (hj : j < cc.shardNums) {h : Handover}
    (hh : (s.selected j)[r]? = some h) {e : Address × AccountState} (he : e ∈ h.leaving j i) :
    e.2 = s.selectedState cc maps r e.1 ∧ e.1 ∈ m ∧ m.get e.1 = i ∧
      placeAfter cc (maps.take r) e.1 = j := by
  obtain ⟨hmod, hhome⟩ := hs.selected_eq hmap hj hh
  obtain ⟨hin, hget, -, hplace, heq⟩ := Handover.mem_leaving.mp he
  rw [hhome] at hplace
  rw [hmod] at hin hget
  refine ⟨?_, hin, hget, hplace⟩
  rw [MigrationLog.selectedState, hplace, hh]
  exact heq

omit [DecidableEq H] in
/-- Every message that has come carries what its shard has selected. -/
theorem carried (hs : LogSound cc rounds maps s) (hb : BarrierSound cc rounds s.net) {sid : ℕ}
    (hk : sid < cc.shardNums) {j : ℕ} {ast : AccountStateAndTx}
    (hast : (s.net.nodes sid).accountStateTx.lookup j = some ast) :
    ∃ h, (s.selected j)[rounds sid]? = some h ∧ j < cc.shardNums ∧ j ≠ sid ∧
      Carries ast h j sid := by
  have hkey : j ∈ (s.net.nodes sid).accountStateTx.keys :=
    AList.lookup_isSome.mp (by rw [hast]; rfl)
  obtain ⟨hj, hne⟩ := hb.accounts sid j hkey
  have hgot := (hb.law.of_got (k := j) (Finset.mem_range.mpr hk) (Finset.mem_range.mpr hj)
    hne.symm (List.mem_toFinset.mpr hkey)).1
  have hlength := (hs.shard j hj).selectedLength
  simp only [ClpaState.barrier] at hgot
  have hlt : rounds sid < (s.selected j).length := by omega
  exact ⟨_, List.getElem?_eq_getElem hlt, hj, hne,
    hs.collected sid hk j ast hast _ (List.getElem?_eq_getElem hlt)⟩

omit [DecidableEq H] in
/-- **What a leader has received**: the accounts that leave the shards whose messages have
come, as they were selected. -/
theorem received (hs : LogSound cc rounds maps s) (hb : BarrierSound cc rounds s.net) {sid : ℕ}
    (hk : sid < cc.shardNums) {m : PartitionModified} (hmap : maps[rounds sid]? = some m)
    {states : AList fun _ : Address => AccountState} {txs txs' : List Transaction}
    (hall : ClpaNode.receiveAll ((s.net.nodes sid).accountStateTx.entries.map (·.2)) ∅ txs =
      some (states, txs')) :
    (∀ addr st, states.lookup addr = some st → st = s.selectedState cc maps (rounds sid) addr) ∧
      ∀ addr, addr ∈ states ↔ ∃ j ∈ (s.net.nodes sid).accountStateTx, ∃ h,
        (s.selected j)[rounds sid]? = some h ∧ j < cc.shardNums ∧ j ≠ sid ∧
          ∃ e ∈ h.leaving j sid, e.1 = addr := by
  obtain ⟨hval, hmem⟩ := receiveAll_lookup (f := s.selectedState cc maps (rounds sid))
    (g := fun ast => ast.addrs.zip ast.accountState) hall (fun ast hast => by
      obtain ⟨⟨j, ast⟩, hentry, rfl⟩ := List.mem_map.mp hast
      obtain ⟨h, hh, hj, -, hcarries⟩ := hs.carried hb hk (AList.mem_lookup_iff.mpr hentry)
      rw [hcarries.zip_eq]
      exact ⟨hcarries.1, hcarries.2, fun e he => (hs.leaving_eq hmap hj hh he).1⟩)
    (fun addr st hst => by cases hst)
  refine ⟨hval, fun addr => (hmem addr).trans ⟨?_, ?_⟩⟩
  · rintro (hnone | ⟨ast, hast, hin⟩)
    · exact absurd hnone (AList.notMem_empty addr)
    · obtain ⟨⟨j, ast⟩, hentry, rfl⟩ := List.mem_map.mp hast
      have hlookup := AList.mem_lookup_iff.mpr hentry
      obtain ⟨h, hh, hj, hne, hcarries⟩ := hs.carried hb hk hlookup
      rw [hcarries.zip_eq] at hin
      exact ⟨j, AList.lookup_isSome.mp (by rw [hlookup]; rfl), h, hh, hj, hne,
        List.mem_map.mp hin⟩
  · rintro ⟨j, hkey, h, hh, -, -, hleave⟩
    obtain ⟨ast, hast⟩ := Option.isSome_iff_exists.mp (AList.lookup_isSome.mpr hkey)
    obtain ⟨h', hh', -, -, hcarries⟩ := hs.carried hb hk hast
    obtain rfl := Option.some.inj (hh.symm.trans hh')
    refine .inr ⟨ast, List.mem_map_of_mem (AList.mem_lookup_iff.mp hast), ?_⟩
    rw [hcarries.zip_eq]
    exact List.mem_map.mpr hleave

/-- **Accounts are installed as they were selected**: an account that stays is left alone,
one that moves comes in the message of its old home. -/
theorem installed (hs : LogSound cc rounds maps s) (hm : MapsSound cc rounds maps s.net)
    (hb : BarrierSound cc rounds s.net) {sid : ℕ} (hk : sid < cc.shardNums)
    (hstage : (s.net.nodes sid).stage = .waitCollect)
    (hover : (s.net.nodes sid).collectOver = true) {nd₁ nd₂ : ClpaNode H}
    {atm : AccountTransferMsg}
    (hprop : (s.net.nodes sid).proposePartition (cc.ofShard sid) = some (nd₁, atm))
    (hdo : nd₁.accountTransferDo (cc.ofShard sid) atm = some nd₂)
    {addr : Address} (haddr : addr ∈ atm.modifiedMap) (hget : atm.modifiedMap.get addr = sid)
    {j : ℕ} (hj : j < cc.shardNums) {h : Handover} (hh : (s.selected j)[rounds sid]? = some h)
    (hplace : h.place addr = j) :
    BlockChain.readAccount nd₂.curChain.currentBlock.header.stateRoot 0 addr =
      BlockChain.readAccount h.accounts 0 addr := by
  have hnode := hm.node sid hk
  have hwait : (s.net.nodes sid).stage ≠ .idle := by simp [hstage]
  obtain ⟨m', -, hat, hmap⟩ := hnode.last_eq hwait
  have hfinish := (hnode.finish hwait hprop hdo).place
  obtain ⟨m, states, txs, hall, hmap', rfl, rfl⟩ := proposePartition_eq hprop
  obtain rfl := Option.some.inj (hat.symm.trans hmap')
  obtain ⟨hmapped, hinstall, -⟩ := accountTransferDo_eq hdo
  rw [hnode.fresh] at hall
  obtain ⟨hval, hmem⟩ := hs.received hb hk hmap hall
  obtain ⟨hmod, hhome⟩ := hs.selected_eq hmap hj hh
  have hes : (states.entries.map fun e => (e.1, e.2)).map (·.1) = states.entries.map (·.1) :=
    List.map_map
  have hst : (states.entries.map fun e => (e.1, e.2)).map (·.2) = states.entries.map (·.2) :=
    List.map_map
  dsimp only at hinstall
  rw [← hes, ← hst, ← hmapped, hfinish] at hinstall
  -- what came is at home here from now on
  have hplaced : ∀ addr ∈ m', m'.get addr = sid →
      placeAfter cc (maps.take (rounds sid + 1)) addr = sid := by
    intro addr haddr hget
    rw [List.take_add_one, hmap, Option.toList_some, placeAfter_append cc _ haddr, hget]
  obtain ⟨hin, hout⟩ := installAccounts_lookup hinstall (hes ▸ states.nodupKeys) fun e he => by
    obtain ⟨e', he', rfl⟩ := List.mem_map.mp he
    obtain ⟨j, -, h, hh, hj, -, e, hleave, heq⟩ :=
      (hmem _).mp (AList.mem_keys.mpr (List.mem_map_of_mem he'))
    obtain ⟨-, haddr, hget, -⟩ := hs.leaving_eq hmap hj hh hleave
    rw [heq] at haddr hget
    exact (congrFun (getPartitionMap_eq_placeAfter rfl sid) _).trans (hplaced _ haddr hget)
  by_cases hjs : j = sid
  · -- it stays
    subst hjs
    have hnot : addr ∉ states := by
      intro haddr'
      obtain ⟨j', -, h', hh', hj', hne, e, hleave, rfl⟩ := (hmem addr).mp haddr'
      obtain ⟨-, -, -, hplace'⟩ := hs.leaving_eq hmap hj' hh' hleave
      rw [hhome] at hplace
      exact hne (hplace'.symm.trans hplace)
    have hlookup := hout addr (by rw [hes]; exact hnot)
    have hstill : (s.net.nodes j).curChain.currentBlock.header.stateRoot = h.accounts :=
      (hs.shard j hk).still hstage h hh
    rw [BlockChain.readAccount, hlookup, ← hstill]
    rfl
  · -- it comes from its old home
    have hkey := hb.all_accounts hk hover hj hjs
    have hleave : (addr, BlockChain.readAccount h.accounts 0 addr) ∈ h.leaving j sid :=
      Handover.mem_leaving.mpr ⟨hmod ▸ haddr, hmod ▸ hget, Ne.symm hjs, hplace, rfl⟩
    have hgot : addr ∈ states := (hmem addr).mpr ⟨j, hkey, h, hh, hj, hjs, _, hleave, rfl⟩
    obtain ⟨st, hst⟩ := Option.isSome_iff_exists.mp (AList.lookup_isSome.mpr hgot)
    have hentry : (addr, st) ∈ states.entries.map fun e => (e.1, e.2) :=
      List.mem_map.mpr ⟨⟨addr, st⟩, AList.mem_lookup_iff.mp hst, rfl⟩
    rw [BlockChain.readAccount, hin _ hentry, hval addr st hst]
    exact (hs.leaving_eq hmap hj hh hleave).1.symm

/-- **A leader finishes the round**: the shard has installed what came. -/
theorem finish (hs : LogSound cc rounds maps s) (hm : MapsSound cc rounds maps s.net)
    (hb : BarrierSound cc rounds s.net) {sid : ℕ} (hk : sid < cc.shardNums)
    (hstage : (s.net.nodes sid).stage = .waitCollect)
    (hover : (s.net.nodes sid).collectOver = true) {nd₁ nd₂ : ClpaNode H}
    {atm : AccountTransferMsg}
    (hprop : (s.net.nodes sid).proposePartition (cc.ofShard sid) = some (nd₁, atm))
    (hdo : nd₁.accountTransferDo (cc.ofShard sid) atm = some nd₂) :
    LogSound cc (Function.update rounds sid (rounds sid + 1)) maps
      { s with
        net := { s.net with
          nodes := Function.update s.net.nodes sid
            { nd₂ with stage := .idle, sequenceID := nd₂.sequenceID + 1 } }
        applied := Function.update s.applied sid
          (s.applied sid ++ [MigrationLog.handover cc sid nd₂ atm.modifiedMap]) } := by
  have hnode := hm.node sid hk
  have hwait : (s.net.nodes sid).stage ≠ .idle := by simp [hstage]
  have hmap : maps[rounds sid]? = some atm.modifiedMap := by
    obtain ⟨m', -, hat, hmap⟩ := hnode.last_eq hwait
    obtain ⟨m, states, txs, -, hmap', rfl, -⟩ := proposePartition_eq hprop
    rw [hmap, ← hat, hmap']
  have hempty : nd₂.accountStateTx = ∅ := by
    obtain ⟨-, -, hnd⟩ := accountTransferDo_eq hdo
    rw [hnd]
  refine ⟨fun i hi => ?_, fun e he ast hast h₀ hh => ?_, fun i hi j ast hast h₀ hh => ?_,
    fun i hi r h₀ hh addr haddr hget j hj h₁ hh₁ hplace => ?_⟩
  · by_cases hik : i = sid
    · subst hik
      simp only [Function.update_self]
      refine (hs.shard i hi).install hstage rfl hmap ?_
      exact getPartitionMap_eq_placeAfter (hnode.finish hwait hprop hdo).place i
    · simpa [hik] using hs.shard i hi
  · -- nothing is under way to this shard
    obtain ⟨hto, hfrom⟩ := hb.addressed e he
    obtain ⟨hj, hne⟩ := hfrom ast.fromShard (by rw [hast]; rfl)
    have hother : e.1 ≠ sid := by
      rintro rfl
      have hnone := (hb.law.of_got (k := ast.fromShard) (Finset.mem_range.mpr hto)
        (Finset.mem_range.mpr hj) hne.symm
        (List.mem_toFinset.mpr (hb.all_accounts hto hover hj hne))).2
      have hpos : 0 < underWay s.net.flight (ClpaMessage.isAccounts ast.fromShard) e.1 :=
        underWay_pos (m := e.2) he (by simp [hast, ClpaMessage.isAccounts])
      exact hpos.ne' hnone
    rw [Function.update_of_ne hother] at hh
    exact hs.sent e he ast hast h₀ hh
  · dsimp only at hast
    by_cases hik : i = sid
    · subst hik
      rw [Function.update_self, hempty] at hast
      cases hast
    · rw [Function.update_of_ne hik] at hast hh
      exact hs.collected i hi j ast hast h₀ hh
  · dsimp only at hh
    by_cases hik : i = sid
    · subst hik
      rw [Function.update_self] at hh
      rcases getElem?_append_singleton hh with hh | ⟨rfl, rfl⟩
      · exact hs.accounts i hi r h₀ hh addr haddr hget j hj h₁ hh₁ hplace
      · rw [(hs.shard i hi).appliedLength] at hh₁
        exact hs.installed hm hb hi hstage hover hprop hdo haddr hget hj hh₁ hplace
    · rw [Function.update_of_ne hik] at hh
      exact hs.accounts i hi r h₀ hh addr haddr hget j hj h₁ hh₁ hplace

/-- **Every step keeps what is selected and installed.** -/
theorem step (hs : LogSound cc rounds maps s) (hm : MapsSound cc rounds maps s.net)
    (hb : BarrierSound cc rounds s.net) (h : s.step cc a = some t) :
    LogSound cc (a.rounds rounds) (a.maps maps) t := by
  obtain ⟨net, hnet, rfl⟩ := Option.map_eq_some_iff.mp h
  cases a with
  | inject sid txs =>
    obtain ⟨-, rfl⟩ := ClpaState.step_inject hnet
    exact hs.quiet rfl (fun hstage => ⟨hstage, rfl⟩) rfl fun e he => .inl he
  | repartition m =>
    obtain rfl := ClpaState.step_repartition hnet
    exact hs.repartition m
  | commit sid miner now =>
    obtain ⟨bc, relays, hin, -, rfl⟩ := ClpaState.step_commit hnet
    refine hs.quiet rfl (fun hstage => ?_) rfl fun e he => ?_
    · exact absurd (hin.2.1.symm.trans hstage) nofun
    · rcases List.mem_append.mp he with he | he
      · exact .inl he
      · obtain ⟨e', -, rfl⟩ := List.mem_map.mp he
        exact .inr fun j => rfl
  | ready sid =>
    obtain ⟨hin, rfl⟩ := ClpaState.step_ready hnet
    refine hs.quiet (by simp [hin.2.1]) nofun rfl fun e he => ?_
    rcases List.mem_append.mp he with he | he
    · exact .inl he
    · obtain ⟨i, -, rfl⟩ := List.mem_map.mp he
      exact .inr fun j => rfl
  | sendAccounts sid =>
    obtain ⟨nd, msgs, hin, hsend, rfl⟩ := ClpaState.step_sendAccounts hnet
    exact hs.pass hm hb hin.1 hin.2.1 hin.2.2 hsend
  | transfer sid =>
    obtain ⟨nd₁, nd₂, atm, hin, hprop, hdo, rfl⟩ := ClpaState.step_transfer hnet
    have hfinish := hs.finish hm hb hin.1 hin.2.1 hin.2.2 hprop hdo
    simp only [hprop, Option.map_some, Option.toList_some, Function.update_self]
    exact hfinish
  | deliver i =>
    obtain ⟨k, m, he, rfl⟩ := ClpaState.step_deliver hnet
    have hrest : ∀ e ∈ s.net.flight.eraseIdx i,
        e ∈ s.net.flight ∨ ∀ j, e.2.isAccounts j = false :=
      fun e he => .inl (List.mem_of_mem_eraseIdx he)
    cases m with
    | relay m => exact hs.quiet rfl (fun hstage => ⟨hstage, rfl⟩) rfl hrest
    | partitionMsg m => exact hs.quiet rfl (fun hstage => ⟨hstage, rfl⟩) rfl hrest
    | partitionReady j seq => exact hs.quiet rfl (fun hstage => ⟨hstage, rfl⟩) rfl hrest
    | accountStateAndTx ast => exact hs.receive he

end LogSound

/-! ## Migrations keep accounts -/

omit [DecidableEq H] in
/-- **What the invariants are for.** -/
theorem LogSound.kept {cc : ChainConfig H} {rounds : ℕ → ℕ} {maps : List PartitionModified}
    {s : MigrationLog H} (hs : LogSound cc rounds maps s) (hm : MapsSound cc rounds maps s.net)
    (hb : BarrierSound cc rounds s.net) : MigrationKept cc s := by
  refine ⟨fun k hk r h hr j hj => ?_, fun k hk r h hr addr haddr => ?_, fun k hk h hlast => ?_,
    hs.accounts⟩
  · -- the others have passed the barrier of the round
    have hlt : r < rounds k := (hs.shard k hk).appliedLength ▸ (List.getElem?_eq_some_iff.mp hr).1
    have hpassed : rounds k ≤ rounds j + (s.net.nodes j).stage.phase.delivered := by
      by_cases hjk : j = k
      · subst hjk
        exact Nat.le_add_right _ _
      · have hlaw := hb.law.goods j (Finset.mem_range.mpr hj) k (Finset.mem_range.mpr hk) hjk
        simp only [State.received, ClpaState.barrier] at hlaw
        omega
    have hin : r < (s.selected j).length := by
      rw [(hs.shard j hj).selectedLength]
      exact hlt.trans_le hpassed
    have hsel := ((hs.shard j hj).selected r _ (List.getElem?_eq_getElem hin)).1
    have happ := ((hs.shard k hk).applied r h hr).1
    exact ⟨_, List.getElem?_eq_getElem hin, Option.some.inj (hsel.symm.trans happ)⟩
  · obtain ⟨hmap, hplace⟩ := (hs.shard k hk).applied r h hr
    rw [hplace, List.take_add_one, hmap, Option.toList_some, placeAfter_append cc _ haddr]
    refine ⟨rfl, ?_⟩
    obtain ⟨i, hi⟩ := Option.isSome_iff_exists.mp (AList.lookup_isSome.mpr haddr)
    rw [PartitionModified.get, hi]
    exact hm.shards _ (List.mem_of_getElem? hmap) _ (AList.mem_lookup_iff.mp hi)
  · have hlength := (hs.shard k hk).appliedLength
    rw [List.getLast?_eq_getElem?] at hlast
    have hpos : 0 < rounds k := by
      rw [← hlength]
      exact Nat.zero_lt_of_lt (List.getElem?_eq_some_iff.mp hlast).1
    rw [((hs.shard k hk).applied _ h hlast).2, hlength, Nat.sub_add_cancel hpos]
    exact getPartitionMap_eq_placeAfter (hm.node k hk).place k

/-- **Migrations keep accounts** where placements arrive one at a time and in order. -/
theorem migration_kept (cc : ChainConfig H) {s : MigrationLog H}
    (hr : Reaches (MigrationLog.step cc) (fun s a => a.MapsInTime cc s.net)
      (MigrationLog.start cc) s) : MigrationKept cc s := by
  obtain ⟨rounds, maps, hb, hm, hs⟩ : ∃ rounds maps, BarrierSound cc rounds s.net ∧
      MapsSound cc rounds maps s.net ∧ LogSound cc rounds maps s :=
    hr.invariant (fun s => ∃ rounds maps, BarrierSound cc rounds s.net ∧
      MapsSound cc rounds maps s.net ∧ LogSound cc rounds maps s)
      ⟨_, _, .start, .start, .start⟩ fun s a t ⟨rounds, maps, hb, hm, hs⟩ hok h => by
        obtain ⟨net, hnet, rfl⟩ := Option.map_eq_some_iff.mp h
        refine ⟨a.rounds rounds, a.maps maps, ?_, ?_, hs.step hm hb h⟩
        · have hb' := hb.step hnet
          cases a <;> exact hb'
        · have hm' := hm.step hok hnet
          cases a <;> exact hm'
  exact hs.kept hm hb

/-! ## Two shards -/

/-- Whether a shard has installed accounts by a map with an address. -/
def HasInstalled (s : MigrationLog FreeHash) (k : ℕ) (addr : Address) : Prop :=
  ∃ h ∈ s.applied k, addr ∈ h.modifiedMap

instance (s : MigrationLog FreeHash) (k : ℕ) (addr : Address) :
    Decidable (HasInstalled s k addr) :=
  inferInstanceAs (Decidable (∃ h ∈ s.applied k, addr ∈ h.modifiedMap))

/-- The sender of a transaction moves to shard 1 after it has paid. -/
theorem migration_kept_two :
    ∃ s, HasInstalled s 1 "a" ∧ MigrationKept fourNodesChain s := by
  have hend : ((runWith (MigrationLog.step fourNodesChain)
      (fun s a => a.MapsInTime fourNodesChain s.net) (MigrationLog.start fourNodesChain)
      (firstPhaseRun ++ epochRun (moveAccount "a" 1))).any
        fun s => decide (HasInstalled s 1 "a")) = true := by
    decide +kernel
  obtain ⟨s, hr, hs⟩ := Reaches.exists_of_runWith hend
  exact ⟨s, hs, migration_kept fourNodesChain hr⟩

/-- Two epochs end before the first migration. -/
def twoEpochsRun (m m' : PartitionModified) : List ClpaAction :=
  [.repartition m, .repartition m', .deliver 0, .deliver 0, .deliver 0, .deliver 0, .ready 0,
    .ready 1, .deliver 0, .deliver 0, .sendAccounts 0, .sendAccounts 1, .deliver 0, .deliver 0,
    .transfer 0, .transfer 1]

/-- **Accounts are selected by another map** than that by which they are installed: the
sender is placed in shard 1, but what it owns is not sent there. -/
theorem selected_by_another_map :
    ¬ ∀ s, Reaches (MigrationLog.step fourNodesChain) (fun _ _ => True)
      (MigrationLog.start fourNodesChain) s → MigrationKept fourNodesChain s := by
  intro h
  have hend : ((runWith (MigrationLog.step fourNodesChain) (fun _ _ => True)
      (MigrationLog.start fourNodesChain)
      (firstPhaseRun ++ twoEpochsRun (moveAccount "a" 1) (moveAccount "b" 1))).any
        fun s => decide ((∃ h ∈ (s.applied 1)[0]?, h.modifiedMap.get "a" = 1) ∧
          ∃ h ∈ (s.selected 0)[0]?, h.modifiedMap.get "a" = 0)) = true := by
    decide +kernel
  obtain ⟨s, hr, ⟨h₁, happ, hone⟩, h₀, hsel, hzero⟩ := Reaches.exists_of_runWith hend
  obtain ⟨h', hsel', heq⟩ := (h s hr).selected 1 (by decide) 0 h₁ happ 0 (by decide)
  obtain rfl := Option.some.inj (hsel.symm.trans hsel')
  rw [heq, hone] at hzero
  cases hzero

end BlockEmulator
