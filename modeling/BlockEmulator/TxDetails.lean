import BlockEmulator.MetadataRecovery

/-!
# Transaction details (`measure_TxDetail.go`)

While a relay run goes on, the supervisor notes for each transaction, by its hash, who it
is and in which shards its phases were committed, from the block infos as they arrive. After
the run the same columns are recovered from the block databases.

* `leaderRound_blockInfo` — the block info of a block says for each of its transactions
  which phase it was.
* `txDetails_recovered` — **both ways give the same rows** after every finished run, in
  whatever order the block infos arrived.

The columns of times are those of the latency measures, and are left out here.
-/

namespace BlockEmulator

open StepSystem

/-! ## The measure -/

/-- `txMetricDetailTime`, without the times. -/
structure TxMetricDetail where
  /-- `MetadataKnown` -/
  metadataKnown : Bool
  /-- `Nonce` -/
  nonce : ℕ
  /-- `DatasetRowIndex` -/
  datasetRowIndex : ℕ
  /-- `Sender` -/
  sender : Address
  /-- `Recipient` -/
  recipient : Address
  /-- `SenderShard` -/
  senderShard : ℕ
  /-- `RecipientShard` -/
  recipientShard : ℕ
  /-- `SenderShardKnown` -/
  senderShardKnown : Bool
  /-- `RecipientShardKnown` -/
  recipientShardKnown : Bool
  deriving DecidableEq

/-- `&txMetricDetailTime{}`. -/
def TxMetricDetail.new : TxMetricDetail := ⟨false, 0, 0, "", "", 0, 0, false, false⟩

/-- `captureIdentity`, with the global parameters. -/
def TxMetricDetail.captureIdentity (run : RunFiles) (detail : TxMetricDetail) (tx : Transaction) :
    TxMetricDetail :=
  if run.springIOTMode ≠ 1 ∨ run.springIOTIdentityMode ≠ 2 then detail
  else
    { detail with
      metadataKnown := true
      nonce := tx.nonce
      datasetRowIndex := run.datasetStartTx.toNat + tx.nonce
      sender := tx.sender
      recipient := tx.recipient }

/-- `metadataCSV`. -/
def TxMetricDetail.metadataCSV (detail : TxMetricDetail) : List String :=
  if detail.metadataKnown = false then List.replicate 7 ""
  else
    let senderShard := if detail.senderShardKnown then Nat.repr detail.senderShard else ""
    let recipientShard := if detail.recipientShardKnown then Nat.repr detail.recipientShard else ""
    let cross :=
      if detail.senderShardKnown ∧ detail.recipientShardKnown then
        if detail.senderShard ≠ detail.recipientShard then "1" else "0"
      else ""
    [Nat.repr detail.nonce, Nat.repr detail.datasetRowIndex, detail.sender, detail.recipient,
      senderShard, recipientShard, cross]

/-- The three loops of `UpdateMeasureRecord` that a relay shard has transactions for. -/
inductive DetailKind where
  /-- over `b.InnerShardTxs` -/
  | inner
  /-- over `b.Relay1Txs` -/
  | relay1
  /-- over `b.Relay2Txs` -/
  | relay2
  deriving DecidableEq

/-- A round of one of the loops, for a block of a shard. -/
structure DetailEvent where
  /-- the loop -/
  kind : DetailKind
  /-- `b.SenderShardID` -/
  senderShardID : ℕ
  /-- the transaction -/
  tx : Transaction
  deriving DecidableEq

/-- What a round does to the detail of its transaction, which is new if there is none. -/
def updateDetail (run : RunFiles) (detail : Option TxMetricDetail) (e : DetailEvent) :
    TxMetricDetail :=
  let detail := (detail.getD .new).captureIdentity run e.tx
  match e.kind with
  | .inner =>
    { detail with
      senderShard := e.senderShardID, recipientShard := e.senderShardID
      senderShardKnown := true, recipientShardKnown := true }
  | .relay1 => { detail with senderShard := e.senderShardID, senderShardKnown := true }
  | .relay2 => { detail with recipientShard := e.senderShardID, recipientShardKnown := true }

/-- The rounds for a block info, one loop after the other. -/
def BlockInfoMsg.events (b : BlockInfoMsg) : List DetailEvent :=
  b.innerShardTxs.map (fun tx => ⟨.inner, b.senderShardID, tx⟩) ++
    b.relay1Txs.map (fun tx => ⟨.relay1, b.senderShardID, tx⟩) ++
    b.relay2Txs.map (fun tx => ⟨.relay2, b.senderShardID, tx⟩)

/-- `txHash2DetailTime`. -/
abbrev TxDetails : Type := AList fun _ : Bytes => TxMetricDetail

/-- `UpdateMeasureRecord` of `TestTxDetail`. -/
def TxDetails.updateMeasureRecord (run : RunFiles) (details : TxDetails) (b : BlockInfoMsg) :
    TxDetails :=
  -- an empty block
  if b.blockBodyLength = 0 then details
  else b.events.foldl (KeyedUpdates.updateAt (·.tx.txHash) (updateDetail run)) details

/-- What was noted when some block infos have arrived. -/
def txDetails (run : RunFiles) (infos : List BlockInfoMsg) : TxDetails :=
  infos.foldl (TxDetails.updateMeasureRecord run) ∅

/-- The rows of `writeToCSV`, without the columns of times. -/
def TxDetails.rows (details : TxDetails) : List (List String) :=
  details.entries.map fun e => Nat.repr (setBytes e.1) :: e.2.metadataCSV

/-! ## The block infos of a run -/

variable {H : Type} [DecidableEq H]

/-- What a leader tells the supervisor in a round. -/
def leaderBlockInfos (cc : ChainConfig H) (miner seqID : ℕ) (now : Time) (bc : BlockChain H) :
    List BlockInfoMsg :=
  match RawRelay.handleinPropose cc miner now bc with
  | none => []
  | some r =>
    match RawRelay.handleinCommit cc true seqID r.2 r.1 with
    | .done _ outs => outs.filterMap Outgoing.toBlockInfo
    | _ => []

/-- What an action tells the supervisor. -/
def NetAction.blockInfos (sys : RelaySystem H) (s : NetState H) : NetAction → List BlockInfoMsg
  | .commit sid miner seqID now => leaderBlockInfos (sys.cc sid) miner seqID now (s.chains sid)
  | _ => []

/-- What a run tells the supervisor. -/
def runBlockInfos (sys : RelaySystem H) : NetState H → List NetAction → List BlockInfoMsg
  | _, [] => []
  | s, a :: as =>
    a.blockInfos sys s ++
      match s.step sys a with
      | none => []
      | some t => runBlockInfos sys t as

/-- The round for a transaction of a block in a shard. -/
def eventOf (place : Address → ℕ) (e : ℕ × Transaction) : DetailEvent :=
  if place e.2.recipient ≠ e.1 then ⟨.relay1, e.1, e.2.second⟩
  else if e.2.relayed then ⟨.relay2, e.1, e.2⟩
  else ⟨.inner, e.1, e.2⟩

@[simp] theorem eventOf_txHash (place : Address → ℕ) (e : ℕ × Transaction) :
    (eventOf place e).tx.txHash = e.2.txHash := by
  rw [eventOf]
  split
  · rfl
  · split <;> rfl

omit [DecidableEq H] in
/-- The loop of `HandleinCommit` sorts the transactions into one list each. -/
theorem routeTxs_events {cc : ChainConfig H} {bc : BlockChain H} {txs : List Transaction}
    {pool pool' : TxPool} {acc acc' : Routed} (length epoch : ℕ)
    (h : RawRelay.routeTxs cc bc (txs.map some) pool acc = some (pool', acc')) :
    (BlockInfoMsg.events ⟨length, acc'.interShardTxs, epoch, acc'.relay1Txs, acc'.relay2Txs,
        cc.shardID⟩).Perm
      (BlockInfoMsg.events ⟨length, acc.interShardTxs, epoch, acc.relay1Txs, acc.relay2Txs,
        cc.shardID⟩ ++ txs.map fun tx => eventOf (bc.getPartitionMap cc) (cc.shardID, tx)) := by
  induction txs generalizing pool acc with
  | nil =>
    obtain ⟨-, rfl⟩ := Prod.mk.inj (Option.some.inj h)
    rw [List.map_nil, List.append_nil]
  | cons tx txs ih =>
    rw [List.map_cons, RawRelay.routeTxs] at h
    split at h
    · cases h
    split at h
    · cases h
    rw [List.map_cons, eventOf]
    dsimp only
    split at h
    · rename_i hne
      obtain ⟨pool₁, -, h⟩ := Option.bind_eq_some_iff.mp h
      refine (ih h).trans ?_
      rw [if_pos hne]
      simp only [BlockInfoMsg.events, List.map_append, List.map_cons, List.map_nil,
        List.append_assoc, List.cons_append, List.nil_append, Transaction.second]
      exact ((List.perm_middle.symm.append_left _).append_left _)
    · rename_i heq
      split at h
      · rename_i hrel
        refine (ih h).trans ?_
        rw [if_neg heq, if_pos hrel]
        simp only [BlockInfoMsg.events, List.map_append, List.map_cons, List.map_nil,
          List.append_assoc, List.cons_append, List.nil_append]
        exact List.Perm.refl _
      · rename_i hrel
        refine (ih h).trans ?_
        rw [if_neg heq, if_neg hrel]
        simp only [BlockInfoMsg.events, List.map_append, List.map_cons, List.map_nil,
          List.append_assoc, List.cons_append, List.nil_append]
        exact (List.perm_middle.symm.trans (List.perm_middle.symm.append_left _)).append_left _

/-- **What a block info says**: the phases of the transactions of its block. -/
theorem leaderRound_blockInfo {cc : ChainConfig H} {bc bc' : BlockChain H} {miner seqID : ℕ}
    {now : Time} {relays : List (ℕ × Relay)} {packed : List Transaction}
    (h : leaderRound cc miner seqID now bc = some (bc', relays))
    (hpacked : BlockChain.filterFreshTransactions bc (BlockChain.packForBlock cc bc).1 = packed) :
    ∃ info, leaderBlockInfos cc miner seqID now bc = [info] ∧
      info.blockBodyLength = packed.length ∧
      info.events.Perm (packed.map fun tx => eventOf (bc.getPartitionMap cc) (cc.shardID, tx)) := by
  rw [leaderRound] at h
  obtain ⟨⟨r, bc₁⟩, hprop, h⟩ := Option.bind_eq_some_iff.mp h
  obtain ⟨⟨b, bc₂⟩, hgen, heq⟩ := Option.map_eq_some_iff.mp hprop
  obtain ⟨rfl, rfl⟩ := Prod.mk.inj heq
  obtain ⟨hbody, -, -, -, -, -, -, -, hbc⟩ := BlockChain.generateBlock_eq_some hgen
  rw [hpacked] at hbody
  dsimp only at h
  split at h
  · rename_i bc₃ outs hcm
    obtain ⟨b', bc₄, hb', hadd, ⟨-, hrelay⟩ | ⟨hm, -, -⟩⟩ := RawRelay.handleinCommit_eq_done hcm
    · obtain rfl : b = b' := by simpa using hb'
      obtain ⟨_, storage, -, -, -, rfl⟩ := BlockChain.addBlock_eq_ok hadd
      obtain ⟨pool, acc, hroute, -, rfl⟩ := RawRelay.relayBlock_eq_some hrelay
      rw [hbody] at hroute
      have hevents := routeTxs_events b.body.length b.header.number hroute
      have hplace : ∀ bc₂ : BlockChain H, bc₂.partitionMap = bc.partitionMap →
          bc₂.getPartitionMap cc = bc.getPartitionMap cc := fun bc₂ hmap => by
        funext a
        rw [BlockChain.getPartitionMap, BlockChain.getPartitionMap, hmap]
      rw [hplace _ (by rw [hbc])] at hevents
      rw [leaderBlockInfos, hprop]
      dsimp only
      rw [hcm]
      dsimp only
      refine ⟨_, ?_, ?_, hevents⟩
      · rw [List.filterMap_append, RawRelay.relayMsgSend, List.filterMap_map]
        simp [Function.comp_def, Outgoing.toBlockInfo]
      · rw [hbody, List.length_map]
    · cases hm
  · cases h

/-! ## What was reported -/

/-- A block of a shard adds its transactions to the phases. -/
theorem phases_update {sids : List ℕ} {executed : ℕ → List Transaction} {sid : ℕ}
    {packed : List Transaction} (hnd : sids.Nodup) (hmem : sid ∈ sids) :
    (phases sids (Function.update executed sid (packed ++ executed sid))).Perm
      (phases sids executed ++ packed.map fun tx => (sid, tx)) := by
  induction sids with
  | nil => cases hmem
  | cons k sids ih =>
    obtain ⟨hk, hnd'⟩ := List.nodup_cons.mp hnd
    rw [phases, phases, List.flatMap_cons, List.flatMap_cons]
    rcases List.mem_cons.mp hmem with rfl | hmem
    · rw [Function.update_self, List.map_append]
      have hrest : (sids.flatMap fun i =>
          (Function.update executed sid (packed ++ executed sid) i).map fun tx => (i, tx)) =
          sids.flatMap fun i => (executed i).map fun tx => (i, tx) :=
        List.flatMap_congr fun i hi => by
          rw [Function.update_of_ne (ne_of_mem_of_not_mem hi hk)]
      rw [hrest, List.append_assoc]
      exact List.perm_append_comm
    · rw [Function.update_of_ne (ne_of_mem_of_not_mem hmem hk).symm, List.append_assoc]
      exact (ih hnd' hmem).append_left _

/-- The chains of all shards, with what the supervisor was told of them. -/
def Reported (sys : RelaySystem H) (s : NetState H) (txs : List Transaction)
    (infos : List BlockInfoMsg) : Prop :=
  ∃ blocks executed, Archived sys s txs blocks executed ∧
    (∀ b ∈ infos, b.blockBodyLength = 0 → b.events = []) ∧
    (infos.flatMap BlockInfoMsg.events).Perm
      ((phases (List.range sys.shardNums) executed).map (eventOf sys.place))

variable {sys : RelaySystem H} {s t : NetState H} {txs : List Transaction}
  {infos : List BlockInfoMsg}

/-- Every step tells the supervisor what it executes. -/
theorem Reported.step (hinj : Function.Injective sys.chainConfig.hash.headerHash)
    (h : Reported sys s txs infos) (hs : Settling sys s txs) {a : NetAction}
    (hstep : s.step sys a = some t) :
    Reported sys t (txs ++ a.injected) (infos ++ a.blockInfos sys s) := by
  obtain ⟨blocks, executed, harch, hempty, hperm⟩ := h
  cases a with
  | inject sid new =>
    obtain ⟨-, rfl⟩ := NetState.step_inject hstep
    rw [NetAction.blockInfos.eq_def, List.append_nil]
    exact ⟨blocks, executed, harch.received, hempty, hperm⟩
  | deliver k =>
    obtain ⟨e, -, rfl⟩ := NetState.step_deliver hstep
    rw [NetAction.blockInfos.eq_def, List.append_nil]
    exact ⟨blocks, executed, harch.received, hempty, hperm⟩
  | commit sid miner seqID now =>
    have hnil : txs ++ (NetAction.commit sid miner seqID now).injected = txs := List.append_nil txs
    obtain ⟨packed, rest, hc⟩ := hs.sound.committed hstep
    have harch' := harch.commit hinj hs hstep hc
    rw [NetState.step, if_pos hc.shard] at hstep
    obtain ⟨⟨bc, relays⟩, hround, -⟩ := Option.map_eq_some_iff.mp hstep
    obtain ⟨info, hinfo, hlen, hevents⟩ := leaderRound_blockInfo hround hc.filtered
    have hplace : (s.chains sid).getPartitionMap (sys.cc sid) = sys.place := by
      funext a
      rw [BlockChain.getPartitionMap, hs.sound.placed]
      rfl
    rw [hplace] at hevents
    rw [hnil, NetAction.blockInfos, hinfo]
    refine ⟨_, _, harch', fun b hb hzero => ?_, ?_⟩
    · rcases List.mem_append.mp hb with hb | hb
      · exact hempty b hb hzero
      · obtain rfl := List.mem_singleton.mp hb
        rw [hlen] at hzero
        rw [List.eq_nil_of_length_eq_zero hzero] at hevents
        exact hevents.eq_nil
    · rw [List.flatMap_append, List.flatMap_singleton]
      refine (hperm.append hevents).trans ?_
      refine (((phases_update List.nodup_range (List.mem_range.mpr hc.shard)).map _).trans ?_).symm
      rw [List.map_append, List.map_map]
      exact List.Perm.refl _

/-- **The supervisor is told of every phase once**, in every run. -/
theorem Reported.run (hinj : Function.Injective sys.chainConfig.hash.headerHash)
    (h : Reported sys s txs infos) (hs : Settling sys s txs) {as : List NetAction}
    (hrun : runWith (NetState.step sys) (fun _ _ => True) s as = some t) :
    Reported sys t (txs ++ as.flatMap NetAction.injected)
      (infos ++ runBlockInfos sys s as) := by
  induction as generalizing s txs infos with
  | nil =>
    obtain rfl := Option.some.inj hrun
    rw [List.flatMap_nil, List.append_nil, runBlockInfos, List.append_nil]
    exact h
  | cons a as ih =>
    rw [runWith, if_pos trivial] at hrun
    obtain ⟨u, hu, hrun⟩ := Option.bind_eq_some_iff.mp hrun
    rw [runBlockInfos, hu, List.flatMap_cons, ← List.append_assoc, ← List.append_assoc]
    exact ih (h.step hinj hs hu) (hs.step hu) hrun

omit [DecidableEq H] in
/-- Block infos may arrive in another order. -/
theorem Reported.of_perm [DecidableEq H] {infos' : List BlockInfoMsg}
    (h : Reported sys s txs infos) (hperm : infos'.Perm infos) : Reported sys s txs infos' := by
  obtain ⟨blocks, executed, harch, hempty, hevents⟩ := h
  exact ⟨blocks, executed, harch, fun b hb => hempty b (hperm.mem_iff.mp hb),
    (hperm.flatMap_right _).trans hevents⟩

/-- What a run from the start has told, in whatever order it arrived. -/
theorem Reported.of_run (hinj : Function.Injective sys.chainConfig.hash.headerHash)
    {as : List NetAction}
    (hrun : runWith (NetState.step sys) (fun _ _ => True) (NetState.start sys) as = some s)
    (hinfos : infos.Perm (runBlockInfos sys (NetState.start sys) as)) :
    Reported sys s (as.flatMap NetAction.injected) infos := by
  have h : Reported sys (NetState.start sys) [] [] :=
    ⟨_, _, Archived.start, nofun, by simp [phases]⟩
  exact (h.run hinj .start hrun).of_perm hinfos

/-! ## The rows -/

/-- What is known of a transaction that was executed where it should. -/
def settledDetail (datasetStartTx : ℕ) (place : Address → ℕ) (tx : Transaction) :
    TxMetricDetail :=
  ⟨true, tx.nonce, datasetStartTx + tx.nonce, tx.sender, tx.recipient, place tx.sender,
    place tx.recipient, true, true⟩

/-- Its columns are those that recovery gives. -/
theorem settledDetail_row (datasetStartTx : ℕ) (place : Address → ℕ) (tx : Transaction) :
    Nat.repr (setBytes tx.txHash) :: (settledDetail datasetStartTx place tx).metadataCSV =
      settledRow datasetStartTx place tx := by
  rw [settledRow, metadataRow, settledDetail, TxMetricDetail.metadataCSV]
  by_cases hcross : place tx.sender = place tx.recipient
  · simp [hcross]
    rfl
  · simp [hcross]
    exact ⟨rfl, rfl⟩

/-- What the rounds for the phases of a transaction make of its detail, whichever comes
first. -/
theorem foldl_updateDetail {run : RunFiles} {place : Address → ℕ} {start : ℕ}
    {tx : Transaction} {es : List DetailEvent} {ps : List (ℕ × Transaction)}
    (hmode : run.springIOTMode = 1) (hidentity : run.springIOTIdentityMode = 2)
    (hstart : run.datasetStartTx = start) (hrel : tx.relayed = false)
    (hps : ps.Perm (if place tx.sender = place tx.recipient then [(place tx.sender, tx)]
      else [(place tx.sender, tx), (place tx.recipient, tx.second)]))
    (hes : es.Perm (ps.map (eventOf place))) :
    es.foldl (fun o e => some (updateDetail run o e)) none =
      some (settledDetail start place tx) := by
  replace hes := hes.trans (hps.map _)
  split at hes
  · rename_i hhome
    rw [List.map_singleton] at hes
    rw [hes.eq_singleton]
    simp [eventOf, updateDetail, TxMetricDetail.captureIdentity, settledDetail, hmode, hidentity,
      hstart, hrel, hhome]
  · rename_i hcross
    rw [List.map_cons, List.map_singleton] at hes
    rcases List.perm_pair.mp hes with heq | heq
    · rw [heq]
      simp [eventOf, updateDetail, TxMetricDetail.captureIdentity, settledDetail, hmode,
        hidentity, hstart, Transaction.second, Ne.symm hcross]
    · rw [heq]
      simp [eventOf, updateDetail, TxMetricDetail.captureIdentity, settledDetail, hmode,
        hidentity, hstart, Transaction.second, Ne.symm hcross]

/-- The measure sees the rounds of all block infos, one after the other. -/
theorem txDetails_eq (run : RunFiles) (h : ∀ b ∈ infos, b.blockBodyLength = 0 → b.events = [])
    (details : TxDetails) :
    infos.foldl (TxDetails.updateMeasureRecord run) details =
      (infos.flatMap BlockInfoMsg.events).foldl
        (KeyedUpdates.updateAt (·.tx.txHash) (updateDetail run)) details := by
  induction infos generalizing details with
  | nil => rfl
  | cons b infos ih =>
    have hb : TxDetails.updateMeasureRecord run details b =
        b.events.foldl (KeyedUpdates.updateAt (·.tx.txHash) (updateDetail run)) details := by
      rw [TxDetails.updateMeasureRecord]
      split
      · rename_i hzero
        rw [h b List.mem_cons_self hzero, List.foldl_nil]
      · rfl
    rw [List.foldl_cons, hb, ih fun c hc => h c (List.mem_cons_of_mem _ hc), List.flatMap_cons,
      List.foldl_append]

/-- At rest there is one row for each transaction. -/
theorem Reported.rows (h : Reported sys s txs infos) (hs : Settling sys s txs)
    (hrest : s.AtRest sys) {run : RunFiles} {start : ℕ} (hmode : run.springIOTMode = 1)
    (hidentity : run.springIOTIdentityMode = 2) (hstart : run.datasetStartTx = start) :
    (txDetails run infos).rows.Perm (txs.map (settledRow start sys.place)) := by
  obtain ⟨blocks, executed, harch, hempty, hperm⟩ := h
  have hevents : ∀ b : Bytes, ((infos.flatMap BlockInfoMsg.events).filter
      fun e => e.tx.txHash = b).Perm
        (((phases (List.range sys.shardNums) executed).filter fun e => e.2.txHash = b).map
          (eventOf sys.place)) := by
    intro b
    refine (hperm.filter _).trans ?_
    rw [List.filter_map]
    simp only [Function.comp_def, eventOf_txHash]
    exact List.Perm.refl _
  have hlookup : ∀ tx ∈ txs, (txDetails run infos).lookup tx.txHash =
      some (settledDetail start sys.place tx) := by
    intro tx htx
    rw [txDetails, txDetails_eq run hempty, KeyedUpdates.lookup_foldl, AList.lookup_empty]
    exact foldl_updateDetail hmode hidentity hstart (hs.injected tx htx).2.1
      (harch.settled (·.txHash) (fun _ => rfl) hs hs.distinct htx
        (hs.done_of_atRest hrest htx)) (hevents tx.txHash)
  have hmem : ∀ b, b ∈ txDetails run infos → ∃ tx ∈ txs, tx.txHash = b := by
    intro b hb
    rw [txDetails, txDetails_eq run hempty, KeyedUpdates.mem_foldl] at hb
    rcases hb with hb | ⟨e, he, rfl⟩
    · cases hb
    · obtain ⟨⟨k, tx⟩, htx, rfl⟩ := List.mem_map.mp (hperm.mem_iff.mp he)
      rw [eventOf_txHash]
      rcases harch.origin k tx (mem_phases.mp htx).2 with ⟨htx, -⟩ | ⟨t, ht, rfl, -⟩
      · exact ⟨tx, htx, rfl⟩
      · exact ⟨t, ht, rfl⟩
  have hentries : (txDetails run infos).entries.Perm
      (txs.map fun tx => ⟨tx.txHash, settledDetail start sys.place tx⟩) := by
    refine (List.perm_ext_iff_of_nodup ?_ ?_).mpr ?_
    · exact (txDetails run infos).nodupKeys.nodup
    · exact List.Nodup.of_map Sigma.fst (by rw [List.map_map]; exact hs.distinct)
    · rintro ⟨b, detail⟩
      rw [← AList.mem_lookup_iff, List.mem_map]
      constructor
      · intro hb
        obtain ⟨tx, htx, rfl⟩ := hmem b (AList.lookup_isSome.mp (by rw [Option.mem_def.mp hb]; rfl))
        rw [hlookup tx htx] at hb
        obtain rfl := Option.mem_some_iff.mp hb
        exact ⟨tx, htx, rfl⟩
      · rintro ⟨tx, htx, heq⟩
        obtain ⟨rfl, hd⟩ := Sigma.mk.inj heq
        rw [hlookup tx htx, eq_of_heq hd]
        rfl
  rw [TxDetails.rows]
  refine (hentries.map _).trans ?_
  rw [List.map_map]
  simp only [Function.comp_def, settledDetail_row]
  exact List.Perm.refl _

/-- **Both ways give the same rows**: after a finished run, what the supervisor noted of all
transactions while block infos arrived, in whatever order, is what is recovered from the
chains of the shards, but for the order of the rows. -/
theorem txDetails_recovered (sys : RelaySystem H)
    (hinj : Function.Injective sys.chainConfig.hash.headerHash) (as : List NetAction)
    (s : NetState H)
    (hrun : runWith (NetState.step sys) (fun _ _ => True) (NetState.start sys) as = some s)
    (hrest : s.AtRest sys) (infos : List BlockInfoMsg)
    (hinfos : infos.Perm (runBlockInfos sys (NetState.start sys) as))
    (dataset : List Transaction) (hdata : dataset.Perm (as.flatMap NetAction.injected))
    (hnonce : dataset.map (·.nonce) = List.range dataset.length)
    (hlen : ∀ tx ∈ dataset, tx.txHash.length = 32) (run : RunFiles) (start : ℕ)
    (hfiles : run.Completed sys.shardNums start dataset.length) :
    ∃ rows, recoverRows run (fun k => (s.chains k).storage) = .ok (metadataHeader :: rows) ∧
      (txDetails run infos).rows.Perm rows := by
  have hs : Settling sys s (as.flatMap NetAction.injected) := Settling.start.run hrun
  have h := Reported.of_run hinj hrun hinfos
  obtain ⟨blocks, executed, harch, -⟩ := id h
  refine ⟨_, harch.recoverRows hs hrest hdata hnonce hlen hfiles, ?_⟩
  exact (h.rows hs hrest hfiles.springIOTMode hfiles.springIOTIdentityMode
    hfiles.datasetStartTx).trans (hdata.map _).symm

/-- A payment from shard to shard, whose block infos arrive in the other order. -/
theorem txDetails_recovered_cross :
    ∃ s rows, runWith (NetState.step twoShards) (fun _ _ => True) (NetState.start twoShards)
        (crossRun longHashed ++ [.deliver 0]) = some s ∧
      recoverRows ⟨1, 2, 3, 7, 1, 2, 4, "completed"⟩ (fun k => (s.chains k).storage) =
        .ok (metadataHeader :: rows) ∧
      (txDetails ⟨1, 2, 3, 7, 1, 2, 4, "completed"⟩ (runBlockInfos twoShards
        (NetState.start twoShards) (crossRun longHashed ++ [.deliver 0])).reverse).rows.Perm
          rows := by
  obtain ⟨s, hs, hrest⟩ := (Option.any_eq_true _ _).mp
    (show (runWith (NetState.step twoShards) (fun _ _ => True) (NetState.start twoShards)
      (crossRun longHashed ++ [.deliver 0])).any (fun s => decide (s.AtRest twoShards)) =
        true by decide +kernel)
  obtain ⟨rows, hrec, hrows⟩ := txDetails_recovered twoShards freeHash_injective _ s hs
    (of_decide_eq_true hrest) _ (List.reverse_perm _) [longHashed] (List.Perm.refl _) rfl
    (by decide) ⟨1, 2, 3, 7, 1, 2, 4, "completed"⟩ 7
    ⟨rfl, rfl, rfl, rfl, ⟨rfl, by decide⟩, by decide, rfl, rfl, by decide⟩
  exact ⟨s, rows, hs, hrec, hrows⟩

end BlockEmulator
