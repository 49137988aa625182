import BlockEmulator.BrokerCommittee
import BlockEmulator.Dispatch

/-!
# What the committees with brokers share (`committee_broker.go`, `committee_clpa_broker.go`)

There are two such committees, and most of their code is the same. They differ in where an
account is: by its address alone, or by the last partition too. All that is done for a batch
and for a confirmation is here done over given routes.

* `handleBatch_spec`, `createConfirm_spec` — **what a batch and a confirmation do**.
* `BrokerCommitteeMod.handleBatch_eq`, `handleBlockInfo_eq` — the broker committee does this
  over the routes by address.
-/

namespace BlockEmulator

open Dispatch BrokerCommitteeMod

/-- Where a committee with brokers sends transactions. -/
structure BrokerRoutes where
  /-- `fetchModifiedMap` -/
  fetchModifiedMap : Address → ℕ
  /-- `params.ShardNum` -/
  shardNum : ℕ
  /-- `params.InjectSpeed` -/
  injectSpeed : ℕ

namespace BrokerRoutes

variable (r : BrokerRoutes) (bcm : BrokerCommitteeMod)

/-- All accounts are in shards that exist. -/
def InRange : Prop := ∀ a, r.fetchModifiedMap a < r.shardNum

/-! ## Sending -/

/-- `sendersid`: the shard a transaction is sent to. -/
def senderShard (tx : Transaction) : ℕ :=
  if bcm.broker.isBroker tx.sender then r.fetchModifiedMap tx.recipient
  else r.fetchModifiedMap tx.sender

/-- `txSending`: the Inject messages; `none` where the division by `InjectSpeed` panics. -/
def txSending (txlist : List Transaction) : Option (List (ℕ × List Transaction)) :=
  if r.injectSpeed = 0 ∧ txlist ≠ [] then none
  else some (dispatch (r.senderShard bcm) r.shardNum r.injectSpeed txlist)

/-! ## First transactions -/

/-- `handleBrokerType1Mes`. -/
def handleBrokerType1Mes (brokerType1Megs : List BrokerType1Meg) (hashes : List Bytes) :
    Option (BrokerCommitteeMod × List (ℕ × List Transaction)) :=
  if hashes.length ≠ brokerType1Megs.length then none
  else
    let made := brokerType1Megs.zip hashes
    let bcm' :=
      { bcm with
        brokerConfirm1Pool := confirm1s bcm.brokerConfirm1Pool
          (made.map fun e => (e.1.rawMeg, e.2)) }
    (r.txSending bcm'
      (made.map fun e => newBroker1Tx ⟨e.1.rawMeg.tx, e.1.broker⟩ e.2)).map (bcm', ·)

/-- `handleBrokerRawMag`. -/
def handleBrokerRawMag (brokerRawMags : List BrokerRawMeg) (hashes : List Bytes) :
    Option (BrokerCommitteeMod × List (ℕ × List Transaction)) :=
  r.handleBrokerType1Mes
    { bcm with
      broker := { bcm.broker with
        brokerRawMegs := bcm.broker.brokerRawMegs ∪ brokerRawMags.toFinset } }
    (brokerRawMags.map fun meg => ⟨meg, meg.broker⟩) hashes

/-- Whether the committee makes two transactions out of one: its ends are in different
shards, and none of them is a broker. -/
def Crossing (tx : Transaction) : Prop :=
  r.fetchModifiedMap tx.recipient ≠ r.fetchModifiedMap tx.sender ∧
    ¬ bcm.broker.isBroker tx.recipient ∧ ¬ bcm.broker.isBroker tx.sender

instance (tx : Transaction) : Decidable (r.Crossing bcm tx) :=
  inferInstanceAs (Decidable (_ ∧ _ ∧ _))

/-- The loop of `dealTxByBroker`: the raw messages, and what is sent as it is; `none`
where there is no broker. -/
def sortTxs : List Transaction → Option (List BrokerRawMeg × List Transaction)
  | [] => some ([], [])
  | tx :: txs =>
    if r.Crossing bcm tx then
      bcm.broker.brokerAddress.head?.bind fun broker =>
        (sortTxs txs).map fun s => (⟨tx, broker⟩ :: s.1, s.2)
    else (sortTxs txs).map fun s => (s.1, markBroker bcm tx :: s.2)

/-- `dealTxByBroker`: the committee after it, the first transactions it has sent, and
the transactions it returns. -/
def dealTxByBroker (txs : List Transaction) (hashes : List Bytes) :
    Option (BrokerCommitteeMod × List (ℕ × List Transaction) × List Transaction) :=
  (r.sortTxs bcm txs).bind fun s =>
    if s.1 ≠ [] then (r.handleBrokerRawMag bcm s.1 hashes).map fun t => (t.1, t.2, s.2)
    else some (bcm, [], s.2)

/-- `dealTxByBroker`, and the transactions it returns are sent. -/
def handleBatch (txlist : List Transaction) (hashes : List Bytes) :
    Option (BrokerCommitteeMod × List (ℕ × List Transaction)) :=
  (r.dealTxByBroker bcm txlist hashes).bind fun s =>
    (r.txSending s.1 s.2.2).map fun sent => (s.1, s.2.1 ++ sent)

/-! ## Second transactions -/

/-- `handleBrokerType2Mes`. -/
def handleBrokerType2Mes (brokerType2Megs : List BrokerType2Meg) (hashes : List Bytes) :
    Option (BrokerCommitteeMod × List (ℕ × List Transaction)) :=
  if hashes.length ≠ brokerType2Megs.length then none
  else
    let made := brokerType2Megs.zip hashes
    let bcm' :=
      { bcm with
        brokerConfirm2Pool := made.foldl
          (fun pool e => Function.update pool e.2 (some ⟨e.2, e.1.rawMeg⟩))
          bcm.brokerConfirm2Pool }
    (r.txSending bcm'
      (made.map fun e => newBroker2Tx ⟨e.1.rawMeg.tx, e.1.broker⟩ e.2)).map (bcm', ·)

/-- `handleTx1ConfirmMag`. -/
def handleTx1ConfirmMag (mag1confirms : List Mag1Confirm) (hashes : List Bytes) :
    Option (BrokerCommitteeMod × List (ℕ × List Transaction)) :=
  (confirmLoop bcm mag1confirms).bind fun s => r.handleBrokerType2Mes s.1 s.2 hashes

/-- `createConfirm`. -/
def createConfirm (txs : List Transaction) (hashes : List Bytes) :
    Option (BrokerCommitteeMod × List (ℕ × List Transaction)) :=
  let confirm1s := txs.filterMap fun tx => bcm.brokerConfirm1Pool tx.txHash
  let confirm2s := txs.filterMap fun tx => bcm.brokerConfirm2Pool tx.txHash
  (if confirm1s ≠ [] then r.handleTx1ConfirmMag bcm confirm1s hashes
    else some (bcm, [])).map fun s =>
    (if confirm2s ≠ [] then handleTx2ConfirmMag s.1 confirm2s else s.1, s.2)

/-! ## What a batch does -/

variable {r} {bcm}

theorem InRange.senderShard_lt (h : r.InRange) (tx : Transaction) :
    r.senderShard bcm tx < r.shardNum := by
  rw [senderShard]
  split
  · exact h _
  · exact h _

/-- **What is sent**: every transaction once, each to its shard. -/
theorem txSending_spec (hr : r.InRange) {txs : List Transaction}
    {sent : List (ℕ × List Transaction)} (h : r.txSending bcm txs = some sent) :
    (sent.flatMap (·.2)).Perm txs ∧
      ∀ e ∈ sent, e.1 < r.shardNum ∧ ∀ tx ∈ e.2, r.senderShard bcm tx = e.1 := by
  rw [txSending] at h
  split at h
  · cases h
  obtain rfl := Option.some.inj h
  exact ⟨dispatch_perm fun tx _ => hr.senderShard_lt tx, fun e he => dispatch_route he⟩

/-- How a batch is sorted: every transaction becomes a raw message or is sent as it is. -/
theorem sortTxs_spec {txs plain : List Transaction} {raws : List BrokerRawMeg}
    (h : r.sortTxs bcm txs = some (raws, plain)) :
    (∀ m ∈ raws, m.tx ∈ txs ∧ r.Crossing bcm m.tx ∧
        bcm.broker.brokerAddress.head? = some m.broker) ∧
      (∀ tx ∈ plain, ∃ t ∈ txs, ¬ r.Crossing bcm t ∧ tx = markBroker bcm t) ∧
      (raws.map (·.tx.txHash) ++ plain.map (·.txHash)).Perm (txs.map (·.txHash)) := by
  induction txs generalizing raws plain with
  | nil =>
    obtain ⟨rfl, rfl⟩ := Prod.mk.inj (Option.some.inj h)
    simp
  | cons tx txs ih =>
    rw [sortTxs] at h
    split at h
    · rename_i hcross
      obtain ⟨broker, hbroker, h⟩ := Option.bind_eq_some_iff.mp h
      obtain ⟨⟨raws', plain'⟩, hsort, heq⟩ := Option.map_eq_some_iff.mp h
      obtain ⟨rfl, rfl⟩ := Prod.mk.inj heq
      obtain ⟨hraws, hplain, hperm⟩ := ih hsort
      refine ⟨fun m hm => ?_, fun t ht => ?_, ?_⟩
      · rcases List.mem_cons.mp hm with rfl | hm
        · exact ⟨List.mem_cons_self, hcross, hbroker⟩
        · obtain ⟨hmem, hrest⟩ := hraws m hm
          exact ⟨List.mem_cons_of_mem _ hmem, hrest⟩
      · obtain ⟨t', ht', hrest⟩ := hplain t ht
        exact ⟨t', List.mem_cons_of_mem _ ht', hrest⟩
      · simpa using hperm
    · rename_i hcross
      obtain ⟨⟨raws', plain'⟩, hsort, heq⟩ := Option.map_eq_some_iff.mp h
      obtain ⟨rfl, rfl⟩ := Prod.mk.inj heq
      obtain ⟨hraws, hplain, hperm⟩ := ih hsort
      refine ⟨fun m hm => ?_, fun t ht => ?_, ?_⟩
      · obtain ⟨hmem, hrest⟩ := hraws m hm
        exact ⟨List.mem_cons_of_mem _ hmem, hrest⟩
      · rcases List.mem_cons.mp ht with rfl | ht
        · exact ⟨tx, List.mem_cons_self, hcross, rfl⟩
        · obtain ⟨t', ht', hrest⟩ := hplain t ht
          exact ⟨t', List.mem_cons_of_mem _ ht', hrest⟩
      · rw [List.map_cons, List.map_cons, markBroker_txHash]
        exact List.perm_middle.trans (hperm.cons _)

/-- **What a batch does**: the raw messages are kept, a first transaction is made and
noted for each of them, and all that is not raw is sent as it is. -/
theorem handleBatch_spec (hr : r.InRange) {txs : List Transaction} {hashes : List Bytes}
    {bcm' : BrokerCommitteeMod} {sent : List (ℕ × List Transaction)}
    (h : r.handleBatch bcm txs hashes = some (bcm', sent)) :
    ∃ raws plain, r.sortTxs bcm txs = some (raws, plain) ∧ raws.length ≤ hashes.length ∧
      bcm' = { bcm with
        broker := { bcm.broker with brokerRawMegs := bcm.broker.brokerRawMegs ∪ raws.toFinset }
        brokerConfirm1Pool := confirm1s bcm.brokerConfirm1Pool (raws.zip hashes) } ∧
      (sent.flatMap (·.2)).Perm
        ((raws.zip hashes).map (fun e => newBroker1Tx e.1 e.2) ++ plain) ∧
      ∀ e ∈ sent, e.1 < r.shardNum ∧ ∀ tx ∈ e.2, r.senderShard bcm tx = e.1 := by
  rw [handleBatch] at h
  obtain ⟨⟨bcm₁, sent₁, plain⟩, hdeal, h⟩ := Option.bind_eq_some_iff.mp h
  obtain ⟨sent₂, hsend, heq⟩ := Option.map_eq_some_iff.mp h
  obtain ⟨rfl, rfl⟩ := Prod.mk.inj heq
  obtain ⟨hperm₂, hroute₂⟩ := txSending_spec hr hsend
  rw [dealTxByBroker] at hdeal
  obtain ⟨⟨raws, plain'⟩, hsort, hdeal⟩ := Option.bind_eq_some_iff.mp hdeal
  split at hdeal
  · obtain ⟨⟨bcm₂, sent₃⟩, hraw, heq⟩ := Option.map_eq_some_iff.mp hdeal
    obtain ⟨rfl, rfl, rfl⟩ : bcm₂ = bcm₁ ∧ sent₃ = sent₁ ∧ plain' = plain := by simpa using heq
    rw [handleBrokerRawMag, handleBrokerType1Mes] at hraw
    split at hraw
    · cases hraw
    rename_i hlen
    obtain ⟨sent₄, hsend₁, heq⟩ := Option.map_eq_some_iff.mp hraw
    obtain ⟨rfl, rfl⟩ := Prod.mk.inj heq
    obtain ⟨hperm₁, hroute₁⟩ := txSending_spec hr hsend₁
    rw [List.zip_map_left, List.map_map] at hperm₁
    refine ⟨raws, plain', hsort, ?_, ?_, ?_, fun e he => ?_⟩
    · rw [not_not, List.length_map] at hlen
      exact hlen.ge
    · have hmade : ((raws.zip hashes).map
          (Prod.map (fun meg => (⟨meg, meg.broker⟩ : BrokerType1Meg)) id)).map
            (fun e => (e.1.rawMeg, e.2)) = raws.zip hashes := by
        rw [List.map_map]
        exact List.map_id _
      rw [List.zip_map_left, hmade]
    · rw [List.flatMap_append]
      exact hperm₁.append hperm₂
    · rcases List.mem_append.mp he with he | he
      · exact hroute₁ e he
      · exact hroute₂ e he
  · rename_i hnone
    obtain rfl : raws = [] := not_not.mp hnone
    obtain ⟨rfl, rfl, rfl⟩ : bcm = bcm₁ ∧ [] = sent₁ ∧ plain' = plain := by simpa using hdeal
    refine ⟨[], plain', hsort, Nat.zero_le _, ?_, hperm₂, hroute₂⟩
    simp [confirm1s]

/-! ## What a confirmation does -/

/-- Second transactions are made and sent. -/
theorem handleBrokerType2Mes_spec (hr : r.InRange) {megs : List BrokerType2Meg}
    {hashes : List Bytes} {bcm' : BrokerCommitteeMod} {sent : List (ℕ × List Transaction)}
    (hbroker : ∀ g ∈ megs, g.broker = g.rawMeg.broker)
    (h : r.handleBrokerType2Mes bcm megs hashes = some (bcm', sent)) :
    megs.length = hashes.length ∧ (∃ pool, bcm' = { bcm with brokerConfirm2Pool := pool }) ∧
      (sent.flatMap (·.2)).Perm
        (((megs.map (·.rawMeg)).zip hashes).map fun e => newBroker2Tx e.1 e.2) ∧
      ∀ e ∈ sent, e.1 < r.shardNum ∧ ∀ tx ∈ e.2, r.senderShard bcm tx = e.1 := by
  rw [handleBrokerType2Mes] at h
  split at h
  · cases h
  rename_i hlen
  obtain ⟨sent', hsend, heq⟩ := Option.map_eq_some_iff.mp h
  obtain ⟨rfl, rfl⟩ := Prod.mk.inj heq
  obtain ⟨hperm, hroute⟩ := txSending_spec hr hsend
  refine ⟨(not_not.mp hlen).symm, ⟨_, rfl⟩, hperm.trans (List.Perm.of_eq ?_), hroute⟩
  rw [List.zip_map_left, List.map_map]
  refine List.map_congr_left fun e he => ?_
  have hsame : (⟨e.1.rawMeg.tx, e.1.broker⟩ : BrokerRawMeg) = e.1.rawMeg := by
    rw [hbroker e.1 (List.of_mem_zip he).1]
  rw [hsame]
  rfl

/-- The raw messages whose first transactions are listed. -/
def listedRaws (bcm : BrokerCommitteeMod) (txs : List Transaction) : List BrokerRawMeg :=
  (txs.filterMap fun tx => bcm.brokerConfirm1Pool tx.txHash).map (·.rawMeg)

/-- **What a confirmation does**: a second transaction is made for each of the first
transactions listed that are known, executed or not, confirmed before or not. -/
theorem createConfirm_spec (hr : r.InRange) {txs : List Transaction} {hashes : List Bytes}
    {bcm' : BrokerCommitteeMod} {sent : List (ℕ × List Transaction)}
    (hknown : ∀ m ∈ listedRaws bcm txs, m ∈ bcm.broker.brokerRawMegs ∧
      bcm.broker.brokerAddress.head? = some m.broker)
    (h : r.createConfirm bcm txs hashes = some (bcm', sent)) :
    (listedRaws bcm txs).length ≤ hashes.length ∧
      (∃ notes pool, bcm' = { bcm with
        broker := { bcm.broker with rawTx2BrokerTx := notes }
        brokerConfirm2Pool := pool }) ∧
      (sent.flatMap (·.2)).Perm
        (((listedRaws bcm txs).zip hashes).map fun e => newBroker2Tx e.1 e.2) ∧
      ∀ e ∈ sent, e.1 < r.shardNum ∧ ∀ tx ∈ e.2, r.senderShard bcm tx = e.1 := by
  rw [createConfirm] at h
  rw [listedRaws] at hknown ⊢
  obtain ⟨⟨bcm₁, sent₁⟩, h₁, heq⟩ := Option.map_eq_some_iff.mp h
  obtain ⟨rfl, rfl⟩ := Prod.mk.inj heq
  -- second transactions that are confirmed are noted, and nothing else
  have hnoted : ∀ cs : List Mag2Confirm, ∃ notes,
      (if cs ≠ [] then handleTx2ConfirmMag bcm₁ cs else bcm₁) =
        { bcm₁ with broker := { bcm₁.broker with rawTx2BrokerTx := notes } } := by
    intro cs
    split
    · exact handleTx2ConfirmMag_eq bcm₁ cs
    · exact ⟨_, rfl⟩
  obtain ⟨notes, hnotes⟩ := hnoted (txs.filterMap fun tx => bcm.brokerConfirm2Pool tx.txHash)
  rw [hnotes]
  split at h₁
  · rw [handleTx1ConfirmMag] at h₁
    obtain ⟨⟨bcm₂, megs⟩, hloop, h₁⟩ := Option.bind_eq_some_iff.mp h₁
    obtain ⟨hmegs, hbrokers, notes', rfl⟩ := confirmLoop_spec
      (fun c hc => (hknown c.rawMeg (List.mem_map_of_mem hc)).1) hloop
    have hsame : ∀ g ∈ megs, g.broker = g.rawMeg.broker := by
      intro g hg
      have hraw : g.rawMeg ∈ megs.map (·.rawMeg) := List.mem_map_of_mem hg
      rw [hmegs] at hraw
      exact Option.some.inj ((hbrokers g hg).symm.trans (hknown g.rawMeg hraw).2)
    obtain ⟨hlen, ⟨pool, rfl⟩, hperm, hroute⟩ := handleBrokerType2Mes_spec hr hsame h₁
    rw [hmegs] at hperm
    refine ⟨?_, ⟨notes, pool, rfl⟩, hperm, hroute⟩
    rw [← hmegs, List.length_map, hlen]
  · rename_i hnone
    obtain ⟨rfl, rfl⟩ := Prod.mk.inj (Option.some.inj h₁)
    rw [not_not.mp hnone]
    exact ⟨Nat.zero_le _, ⟨notes, _, rfl⟩, List.Perm.nil, fun _ h => absurd h List.not_mem_nil⟩

end BrokerRoutes

/-! ## The broker committee -/

/-- The routes of the broker committee: by address. -/
def BrokerParams.routes {H : Type} (p : BrokerParams H) : BrokerRoutes :=
  ⟨BrokerCommitteeMod.fetchModifiedMap p, p.shardNum, p.injectSpeed⟩

namespace BrokerCommitteeMod

variable {H : Type} {p : BrokerParams H} {bcm : BrokerCommitteeMod}

theorem routes_inRange (hpos : 0 < p.shardNum) : p.routes.InRange :=
  fun _ => addr2ShardWithShardNum_lt _ _ hpos

/-- What the loop of `txSending` sends. -/
theorem txSendingLoop_eq (idx : ℕ) (held txs : List Transaction) :
    txSendingLoop p bcm idx (fun k => held.filter fun tx => senderShard p bcm tx = k) txs =
      (cuts p.injectSpeed idx held txs).flatMap (parcels (senderShard p bcm) p.shardNum) := by
  induction txs generalizing idx held with
  | nil =>
    rw [txSendingLoop, cuts]
    split
    · rw [List.flatMap_singleton]
      rfl
    · rfl
  | cons tx txs ih =>
    have hadd : ∀ l : List Transaction,
        Function.update (fun k => l.filter fun t => senderShard p bcm t = k)
          (senderShard p bcm tx)
          ((l.filter fun t => senderShard p bcm t = senderShard p bcm tx) ++ [tx]) =
          fun k => (l ++ [tx]).filter fun t => senderShard p bcm t = k := by
      intro l
      funext k
      rw [List.filter_append, Function.update_apply]
      split
      · rename_i hk
        simp [hk]
      · rename_i hk
        simp [Ne.symm hk]
    rw [txSendingLoop, cuts]
    split
    · rw [List.flatMap_cons, ← ih]
      exact congrArg _ (congrArg (txSendingLoop p bcm (idx + 1) · txs) (hadd []))
    · rw [← ih]
      exact congrArg (txSendingLoop p bcm (idx + 1) · txs) (hadd held)

theorem txSending_eq (txs : List Transaction) : txSending p bcm txs = p.routes.txSending bcm txs := by
  rw [txSending, BrokerRoutes.txSending]
  exact ite_congr rfl (fun _ => rfl) fun _ => congrArg some (txSendingLoop_eq 0 [] txs)

theorem sortTxs_eq (txs : List Transaction) : sortTxs p bcm txs = p.routes.sortTxs bcm txs := by
  induction txs with
  | nil => rfl
  | cons tx txs ih =>
    rw [sortTxs, BrokerRoutes.sortTxs, ih]
    rfl

/-- **A batch** of the broker committee is handled over its routes. -/
theorem handleBatch_eq (txs : List Transaction) (hashes : List Bytes) :
    handleBatch p bcm txs hashes = p.routes.handleBatch bcm txs hashes := by
  have htype1 : ∀ (b : BrokerCommitteeMod) (megs : List BrokerType1Meg),
      handleBrokerType1Mes p b megs hashes = p.routes.handleBrokerType1Mes b megs hashes := by
    intro b megs
    rw [handleBrokerType1Mes, BrokerRoutes.handleBrokerType1Mes]
    simp only [txSending_eq, confirm1s, List.foldl_map]
  simp only [handleBatch, BrokerRoutes.handleBatch, dealTxByBroker, BrokerRoutes.dealTxByBroker,
    handleBrokerRawMag, BrokerRoutes.handleBrokerRawMag, sortTxs_eq, htype1, txSending_eq]

/-- **A block information** of the broker committee is handled over its routes. -/
theorem handleBlockInfo_eq (b : BrokerInfoMsg) (hashes : List Bytes) :
    handleBlockInfo p bcm b hashes =
      if b.blockBodyLength = 0 then some (bcm, [])
      else p.routes.createConfirm bcm (b.broker1Txs ++ b.broker2Txs) hashes := by
  have htype2 : ∀ (b : BrokerCommitteeMod) (megs : List BrokerType2Meg),
      handleBrokerType2Mes p b megs hashes = p.routes.handleBrokerType2Mes b megs hashes := by
    intro b megs
    rw [handleBrokerType2Mes, BrokerRoutes.handleBrokerType2Mes]
    simp only [txSending_eq]
  simp only [handleBlockInfo, createConfirm, BrokerRoutes.createConfirm, handleTx1ConfirmMag,
    BrokerRoutes.handleTx1ConfirmMag, htype2]

/-- How a batch is sorted. -/
theorem sortTxs_spec {txs plain : List Transaction} {raws : List BrokerRawMeg}
    (h : sortTxs p bcm txs = some (raws, plain)) :
    (∀ m ∈ raws, m.tx ∈ txs ∧ Crossing p bcm m.tx ∧
        bcm.broker.brokerAddress.head? = some m.broker) ∧
      (∀ tx ∈ plain, ∃ t ∈ txs, ¬ Crossing p bcm t ∧ tx = markBroker bcm t) ∧
      (raws.map (·.tx.txHash) ++ plain.map (·.txHash)).Perm (txs.map (·.txHash)) :=
  BrokerRoutes.sortTxs_spec ((sortTxs_eq txs).symm.trans h)

/-- What a batch does. -/
theorem handleBatch_spec (hpos : 0 < p.shardNum) {txs : List Transaction} {hashes : List Bytes}
    {bcm' : BrokerCommitteeMod} {sent : List (ℕ × List Transaction)}
    (h : handleBatch p bcm txs hashes = some (bcm', sent)) :
    ∃ raws plain, sortTxs p bcm txs = some (raws, plain) ∧ raws.length ≤ hashes.length ∧
      bcm' = { bcm with
        broker := { bcm.broker with brokerRawMegs := bcm.broker.brokerRawMegs ∪ raws.toFinset }
        brokerConfirm1Pool := confirm1s bcm.brokerConfirm1Pool (raws.zip hashes) } ∧
      (sent.flatMap (·.2)).Perm
        ((raws.zip hashes).map (fun e => newBroker1Tx e.1 e.2) ++ plain) ∧
      ∀ e ∈ sent, e.1 < p.shardNum ∧ ∀ tx ∈ e.2, senderShard p bcm tx = e.1 := by
  rw [handleBatch_eq] at h
  obtain ⟨raws, plain, hsort, hrest⟩ := BrokerRoutes.handleBatch_spec (routes_inRange hpos) h
  exact ⟨raws, plain, (sortTxs_eq txs).trans hsort, hrest⟩

/-- What a block information does. -/
theorem handleBlockInfo_spec (hpos : 0 < p.shardNum) {b : BrokerInfoMsg} {hashes : List Bytes}
    {bcm' : BrokerCommitteeMod} {sent : List (ℕ × List Transaction)}
    (hknown : ∀ m ∈ namedRaws bcm b, m ∈ bcm.broker.brokerRawMegs ∧
      bcm.broker.brokerAddress.head? = some m.broker)
    (h : handleBlockInfo p bcm b hashes = some (bcm', sent)) :
    (namedRaws bcm b).length ≤ hashes.length ∧
      (∃ notes pool, bcm' = { bcm with
        broker := { bcm.broker with rawTx2BrokerTx := notes }
        brokerConfirm2Pool := pool }) ∧
      (sent.flatMap (·.2)).Perm
        (((namedRaws bcm b).zip hashes).map fun e => newBroker2Tx e.1 e.2) ∧
      ∀ e ∈ sent, e.1 < p.shardNum ∧ ∀ tx ∈ e.2, senderShard p bcm tx = e.1 := by
  rw [handleBlockInfo_eq] at h
  rw [namedRaws] at hknown ⊢
  split at h
  · rename_i hempty
    obtain ⟨rfl, rfl⟩ := Prod.mk.inj (Option.some.inj h)
    rw [if_pos hempty]
    exact ⟨Nat.zero_le _, ⟨_, _, rfl⟩, List.Perm.nil, fun _ h => absurd h List.not_mem_nil⟩
  · rename_i hbody
    rw [if_neg hbody] at hknown ⊢
    exact BrokerRoutes.createConfirm_spec (routes_inRange hpos) hknown h

end BrokerCommitteeMod

end BlockEmulator
