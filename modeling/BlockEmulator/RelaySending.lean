import BlockEmulator.Dispatch
import BlockEmulator.PlacementTable

/-!
# How the relay committee sends a batch (`committee_relay.go`, `txSending`)

The placement of the batch comes first, unless addresses are placed by their hash. Then the
loop goes over the batch, sorting the transactions by the shard of their sender, and sends
what it holds before every `InjectSpeed`-th transaction and at the end, where it runs one
index past the last transaction.

* `txSendingLoop_eq` — the rounds are the chunks of the batch, each in one parcel a shard.
* `txSending_sends` — **what each shard gets, and how large the rounds are**.
* `txSending_loses_nothing` — all of the batch is sent, once.
-/

namespace BlockEmulator

open Dispatch

/-- `message.InjectTxs`, sent to every node of the shard. -/
structure RelayInject where
  /-- `Txs` -/
  txs : List Transaction
  /-- `ToShardID` -/
  toShardID : ℕ
  /-- `PlacementMap`; `none` is the nil map -/
  placementMap : Option BatchPlacement

/-- What the loop sends at one time. -/
structure SendingRound where
  /-- the messages, one for each shard -/
  messages : List RelayInject
  /-- `chunkTxCount`, which the pacer waits for -/
  chunkTxCount : ℕ

/-- The transactions of one round. -/
def SendingRound.carried (r : SendingRound) : List Transaction := r.messages.flatMap (·.txs)

variable {H : Type} (E : SpringEnv H) (injectSpeed : ℕ)

namespace RelaySending

/-- One round of messages. -/
def sendRound (placementMap : Option BatchPlacement) (sendToShard : ℕ → List Transaction)
    (idx lastSentIdx : ℕ) : SendingRound where
  messages := (List.range E.p.shardNum).map fun sid => ⟨sendToShard sid, sid, placementMap⟩
  chunkTxCount := idx - lastSentIdx

/-- The loop of `txSending`, from the index `idx` on. -/
def txSendingLoop (sendersid : Transaction → ℕ) (placementMap : Option BatchPlacement) :
    ℕ → ℕ → (ℕ → List Transaction) → List Transaction → List SendingRound
  | idx, lastSentIdx, sendToShard, [] =>
    if 0 < idx then [sendRound E placementMap sendToShard idx lastSentIdx] else []
  | idx, lastSentIdx, sendToShard, tx :: txs =>
    let sid := sendersid tx
    if 0 < idx ∧ idx % injectSpeed = 0 then
      sendRound E placementMap sendToShard idx lastSentIdx ::
        txSendingLoop sendersid placementMap (idx + 1) idx
          (Function.update (fun _ => []) sid [tx]) txs
    else
      txSendingLoop sendersid placementMap (idx + 1) lastSentIdx
        (Function.update sendToShard sid (sendToShard sid ++ [tx])) txs

/-- `sendersid`: by the placement table where there is a placement, else by the hash. -/
def sendersid (st : PlacementState) (tx : Transaction) : ℕ :=
  if E.p.springMode ≠ 0 then (st.springAddrShard.lookup tx.sender).getD 0
  else E.addr2Shard tx.sender

/-- `txSending`: the rounds, and the state after the placement; `none` where the placement
panics, or the division by `InjectSpeed`. -/
def txSending (st : PlacementState) (txlist : List Transaction) :
    Option (PlacementState × List SendingRound) :=
  if E.p.springMode ≠ 0 then
    (springPreparePlacement E st txlist).bind fun s =>
      if injectSpeed = 0 ∧ txlist ≠ [] then none
      else some (s.1,
        txSendingLoop E injectSpeed (sendersid E s.1) (some s.2) 0 0 (fun _ => []) txlist)
  else if injectSpeed = 0 ∧ txlist ≠ [] then none
  else some (st, txSendingLoop E injectSpeed (sendersid E st) none 0 0 (fun _ => []) txlist)

/-- The transactions that the rounds send to a shard, in the order of sending. -/
def sentTo (sid : ℕ) (rounds : List SendingRound) : List Transaction :=
  rounds.flatMap fun r => (r.messages.filter (·.toShardID = sid)).flatMap (·.txs)

variable {E injectSpeed}

/-! ## The rounds are chunks -/

/-- The round for a chunk. -/
def chunkRound (route : Transaction → ℕ) (n : ℕ) (placementMap : Option BatchPlacement)
    (chunk : List Transaction) : SendingRound where
  messages := (parcels route n chunk).map fun e => ⟨e.2, e.1, placementMap⟩
  chunkTxCount := chunk.length

theorem sendRound_eq (route : Transaction → ℕ) (placementMap : Option BatchPlacement)
    {idx lastSentIdx : ℕ} {held : List Transaction} (hheld : idx = lastSentIdx + held.length) :
    sendRound E placementMap (fun k => held.filter fun tx => route tx = k) idx lastSentIdx =
      chunkRound route E.p.shardNum placementMap held := by
  have hcount : idx - lastSentIdx = held.length := by omega
  rw [sendRound, chunkRound, parcels, List.map_map, hcount]
  rfl

/-- One transaction more in the chunk of its shard. -/
theorem update_filter (route : Transaction → ℕ) (held : List Transaction) (tx : Transaction) :
    Function.update (fun k => held.filter fun t => route t = k) (route tx)
        ((held.filter fun t => route t = route tx) ++ [tx]) =
      fun k => (held ++ [tx]).filter fun t => route t = k := by
  funext k
  rw [List.filter_append, Function.update_apply]
  split
  · rename_i hk
    simp [hk]
  · rename_i hk
    simp [Ne.symm hk]

/-- **The rounds are the chunks of the batch**: the loop holds what has come since the
last round, sorted by shard. -/
theorem txSendingLoop_eq (route : Transaction → ℕ) (placementMap : Option BatchPlacement)
    {idx lastSentIdx : ℕ} {held : List Transaction} (hheld : idx = lastSentIdx + held.length)
    (txs : List Transaction) :
    txSendingLoop E injectSpeed route placementMap idx lastSentIdx
        (fun k => held.filter fun tx => route tx = k) txs =
      (cuts injectSpeed idx held txs).map (chunkRound route E.p.shardNum placementMap) := by
  induction txs generalizing idx lastSentIdx held with
  | nil =>
    rw [txSendingLoop, cuts, sendRound_eq route placementMap hheld]
    split <;> rfl
  | cons tx txs ih =>
    rw [txSendingLoop, cuts, sendRound_eq route placementMap hheld]
    split
    · have hlater : idx + 1 = idx + [tx].length := rfl
      rw [List.map_cons, ← ih hlater]
      exact congrArg _ (congrArg (txSendingLoop E injectSpeed route placementMap (idx + 1) idx · txs)
        (update_filter route [] tx))
    · have hlater : idx + 1 = lastSentIdx + (held ++ [tx]).length := by
        rw [List.length_append, List.length_singleton]
        omega
      rw [← ih hlater]
      exact congrArg (txSendingLoop E injectSpeed route placementMap (idx + 1) lastSentIdx · txs)
        (update_filter route held tx)

/-- What a successful call sends: the chunks, by the routes after the placement. -/
theorem txSending_eq_some {st st' : PlacementState} {txlist : List Transaction}
    {rounds : List SendingRound} (h : txSending E injectSpeed st txlist = some (st', rounds)) :
    (∃ placementMap, rounds = (cuts injectSpeed 0 [] txlist).map
        (chunkRound (sendersid E st') E.p.shardNum placementMap)) ∧
      if E.p.springMode = 0 then st' = st
      else ∃ batch, springPreparePlacement E st txlist = some (st', batch) := by
  have hrounds : ∀ (s : PlacementState) (pm : Option BatchPlacement),
      txSendingLoop E injectSpeed (sendersid E s) pm 0 0 (fun _ => []) txlist =
        (cuts injectSpeed 0 [] txlist).map (chunkRound (sendersid E s) E.p.shardNum pm) :=
    fun s pm => txSendingLoop_eq (sendersid E s) pm
      (show 0 = 0 + ([] : List Transaction).length from rfl) txlist
  by_cases hmode : E.p.springMode = 0
  · rw [txSending, if_neg (not_not.mpr hmode)] at h
    rw [if_pos hmode]
    split at h
    · cases h
    · cases h
      exact ⟨⟨none, hrounds st none⟩, rfl⟩
  · rw [txSending, if_pos hmode] at h
    rw [if_neg hmode]
    obtain ⟨s, hs, hsend⟩ := Option.bind_eq_some_iff.mp h
    split at hsend
    · cases hsend
    · cases hsend
      exact ⟨⟨some s.2, hrounds s.1 (some s.2)⟩, s.2, hs⟩

/-- The call returns wherever the placement does. -/
theorem txSending_isSome_iff (hspeed : 0 < injectSpeed) {st : PlacementState}
    {txlist : List Transaction} :
    (txSending E injectSpeed st txlist).isSome ↔
      E.p.springMode = 0 ∨ (springPreparePlacement E st txlist).isSome := by
  have hdiv : ¬ (injectSpeed = 0 ∧ txlist ≠ []) := fun h => by omega
  by_cases hmode : E.p.springMode = 0
  · rw [txSending, if_neg (not_not.mpr hmode), if_neg hdiv]
    exact ⟨fun _ => .inl hmode, fun _ => rfl⟩
  · rw [txSending, if_pos hmode]
    simp only [if_neg hdiv, hmode, false_or]
    cases springPreparePlacement E st txlist <;> rfl

/-! ## What is sent -/

theorem sentTo_chunkRounds {route : Transaction → ℕ} {n : ℕ}
    {placementMap : Option BatchPlacement} {sid : ℕ} (chunks : List (List Transaction)) :
    sentTo sid (chunks.map (chunkRound route n placementMap)) =
      chunks.flatMap fun chunk =>
        ((parcels route n chunk).filter (·.1 = sid)).flatMap (·.2) := by
  rw [sentTo, List.flatMap_map]
  congr 1
  funext chunk
  rw [chunkRound, List.filter_map, List.flatMap_map]
  rfl

theorem carried_chunkRound (route : Transaction → ℕ) (n : ℕ)
    (placementMap : Option BatchPlacement) (chunk : List Transaction) :
    (chunkRound route n placementMap chunk).carried.Perm
      (chunk.filter fun tx => route tx < n) := by
  rw [SendingRound.carried, chunkRound, List.flatMap_map, parcels, List.flatMap_map]
  exact flatMap_range_perm chunk n

/-- The least number of rounds for a batch. -/
theorem ceilDiv_of_dvd {n speed : ℕ} (hspeed : 0 < speed) (h : speed ∣ n) :
    (n + (speed - 1)) / speed = n / speed := by
  obtain ⟨k, rfl⟩ := h
  rw [Nat.mul_add_div hspeed, Nat.div_eq_of_lt (by omega), Nat.mul_div_cancel_left _ hspeed,
    Nat.add_zero]

/-- **What `txSending` sends**: each shard gets exactly the transactions whose sender is
routed to it, in the order of the batch; a round carries between one transaction and
`InjectSpeed` of them; and there are no more rounds than that takes. -/
theorem txSending_sends (hspeed : 0 < injectSpeed) {st st' : PlacementState}
    {txlist : List Transaction} {rounds : List SendingRound}
    (h : txSending E injectSpeed st txlist = some (st', rounds)) :
    (∀ sid < E.p.shardNum,
      sentTo sid rounds = txlist.filter fun tx => sendersid E st' tx = sid) ∧
      (∀ r ∈ rounds, r.carried.length ≤ injectSpeed ∧
        0 < r.chunkTxCount ∧ r.chunkTxCount ≤ injectSpeed) ∧
      rounds.length = (txlist.length + (injectSpeed - 1)) / injectSpeed ∧
      (injectSpeed ∣ txlist.length → rounds.length = txlist.length / injectSpeed) := by
  obtain ⟨⟨placementMap, rfl⟩, -⟩ := txSending_eq_some h
  have hlength : ((cuts injectSpeed 0 [] txlist).map
      (chunkRound (sendersid E st') E.p.shardNum placementMap)).length =
        (txlist.length + (injectSpeed - 1)) / injectSpeed := by
    rw [List.length_map, length_cuts hspeed (held_start _), List.length_nil, Nat.zero_add]
  refine ⟨fun sid hsid => ?_, fun r hr => ?_, hlength, fun hdvd => ?_⟩
  · rw [sentTo_chunkRounds, parcels_in_order hsid]
  · obtain ⟨chunk, hchunk, rfl⟩ := List.mem_map.mp hr
    obtain ⟨hpos, hle⟩ := mem_cuts_length hspeed (held_start _) hchunk
    refine ⟨?_, hpos, hle⟩
    rw [(carried_chunkRound _ _ _ _).length_eq]
    exact (List.length_filter_le _ _).trans hle
  · rw [hlength, ceilDiv_of_dvd hspeed hdvd]

/-- Two transactions of one sender, one a round, placed by the candidate rule. -/
theorem txSending_sends_two :
    let txlist := [plainTransaction, { plainTransaction with nonce := 1 }]
    ∃ st rounds, txSending tableEnv 1 (.new tableEnv.p) txlist = some (st, rounds) ∧
      rounds.length = 2 ∧ ∀ sid < 2,
        sentTo sid rounds = txlist.filter fun tx => sendersid tableEnv st tx = sid := by
  intro txlist
  obtain ⟨⟨st, rounds⟩, h⟩ := Option.isSome_iff_exists.mp (by decide +kernel :
    (txSending tableEnv 1 (.new tableEnv.p) txlist).isSome = true)
  obtain ⟨hsent, -, -, hcount⟩ := txSending_sends Nat.one_pos h
  exact ⟨st, rounds, h, (hcount (Nat.one_dvd _)).trans (Nat.div_one _), hsent⟩

/-- Senders are routed to shards that exist. -/
theorem sendersid_lt (hp : 0 < E.p.shardNum) {st : PlacementState} (hst : TableOk E st)
    (tx : Transaction) : sendersid E st tx < E.p.shardNum := by
  rw [sendersid]
  split
  · cases hsid : st.springAddrShard.lookup tx.sender with
    | none => exact hp
    | some sid => exact hst.range _ _ hsid
  · exact addr2ShardWithShardNum_lt _ _ hp

/-- **Nothing is lost**: with a table of shards that exist, the whole batch is sent, once. -/
theorem txSending_loses_nothing (hp : 0 < E.p.shardNum) {st st' : PlacementState}
    (hst : TableOk E st) {txlist : List Transaction} {rounds : List SendingRound}
    (h : txSending E injectSpeed st txlist = some (st', rounds)) :
    (rounds.flatMap SendingRound.carried).Perm txlist := by
  obtain ⟨⟨placementMap, rfl⟩, hplaced⟩ := txSending_eq_some h
  have hst' : TableOk E st' := by
    split at hplaced
    · rw [hplaced]
      exact hst
    · obtain ⟨batch, hbatch⟩ := hplaced
      have hgrows := (springPreparePlacement_spec hp hbatch).1
      exact (hgrows.ok ⟨hst, by simp⟩).table
  have hall : ((dispatch (sendersid E st') E.p.shardNum injectSpeed txlist).flatMap (·.2)).Perm
      txlist := dispatch_perm fun tx _ => sendersid_lt hp hst' tx
  rw [List.flatMap_map]
  rw [dispatch, List.flatMap_assoc] at hall
  refine (List.Perm.of_eq ?_).trans hall
  congr 1
  funext chunk
  rw [SendingRound.carried, chunkRound, List.flatMap_map]

end RelaySending

end BlockEmulator
