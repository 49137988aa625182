import BlockEmulator.MsgSending
import BlockEmulator.PlacementTable
import BlockEmulator.SpringFeedback

/-!
# Batch numbers and nonces

A nonce counts the valid rows, a batch number counts the calls of `springPreparePlacement`,
and `springCollectDecisionBatchIDs` computes the second from the first. So the rows must be
cut into batches at multiples of the batch size, and every batch must be counted once.

* `relayLoop_aligned` — **the batches are cut** at multiples of the batch size, whatever the
  rows and the total are.
* `springPreparePlacement_counted` — a call counts once.
* `batch_number_of_nonce` — **the batch of a nonce**, in any run.
-/

namespace BlockEmulator

open StepSystem Batching

/-! ## The cuts -/

namespace SendingConfig

variable {cfg : SendingConfig} {broken : Bool} {rows : List Row} {nowDataNum : ℕ}
  {txlist : List Transaction}

/-- The scene row gives the accounts only. -/
theorem springApplyIOTTxIdentity_nonce {tx tx' : Transaction}
    (h : cfg.springApplyIOTTxIdentity tx = some tx') : tx'.nonce = tx.nonce := by
  obtain ⟨feature, -, h⟩ := Option.bind_eq_some_iff.mp h
  split at h
  · cases h
  · split at h
    · split at h
      · cases h
        rfl
      · cases h
    · cases h
      rfl

/-- `data2tx` gives the nonce it is called with. -/
theorem data2txOf_nonce {real : Bool} {data : Row} {nonce : ℕ} {txHash : Bytes}
    {tx : Transaction} (h : data2txOf real data nonce txHash = some tx) : tx.nonce = nonce := by
  unfold data2txOf BlockEmulator.data2tx at h
  split at h
  · cases h
  · split at h
    · obtain ⟨val, -, h⟩ := Option.bind_eq_some_iff.mp h
      split at h
      · cases h
      · rw [← Option.some.inj h]
        rfl
    · cases h

/-- The transaction of a row has the number of the row. -/
theorem relayRow_nonce {data : Row} {tx : Transaction}
    (h : cfg.relayRow data nowDataNum = some (some tx)) : tx.nonce = nowDataNum := by
  unfold relayRow at h
  split at h
  next tx' htx' =>
    have hnonce : tx'.nonce = nowDataNum := data2txOf_nonce htx'
    split at h
    · obtain ⟨tx'', hid, heq⟩ := Option.map_eq_some_iff.mp h
      obtain rfl := Option.some.inj heq
      rw [springApplyIOTTxIdentity_nonce hid, hnonce]
    · obtain rfl := Option.some.inj (Option.some.inj h)
      exact hnonce
  next =>
    split at h
    · cases h
    · exact absurd (Option.some.inj h).symm (Option.some_ne_none tx)

/-- Behind the loop there is at most what is held. -/
theorem relayEnd_aligned {k : ℕ} (hheld : ∀ tx ∈ txlist, tx.nonce / cfg.batchDataNum = k) :
    Batching.Aligned cfg.batchDataNum Transaction.nonce k (cfg.relayEnd nowDataNum txlist).batches := by
  unfold relayEnd
  split
  · trivial
  · split
    · exact ⟨hheld, trivial⟩
    · trivial

/-- Where the total is reached, what is held is the last batch. -/
theorem last_aligned {k : ℕ} (hheld : ∀ tx ∈ txlist, tx.nonce / cfg.batchDataNum = k) :
    Batching.Aligned cfg.batchDataNum Transaction.nonce k
      (Sending.after (.batch txlist) (cfg.relayEnd nowDataNum [])).batches :=
  ⟨hheld, relayEnd_aligned fun _ htx => absurd htx List.not_mem_nil⟩

/-- A row that is not valid is not held, but the total may be reached there. -/
theorem relayLoop_cons_invalid {data : Row} (hrow : cfg.relayRow data nowDataNum = some none) :
    cfg.relayLoop broken (data :: rows) nowDataNum txlist =
      if txlist.length = cfg.batchDataNum ∨ nowDataNum = cfg.dataTotalNum then
        .after (.batch txlist) <|
          if nowDataNum = cfg.dataTotalNum then cfg.relayEnd nowDataNum []
          else cfg.relayLoop broken rows nowDataNum []
      else cfg.relayLoop broken rows nowDataNum txlist := by
  simp only [relayLoop, hrow, Option.toList_none, List.append_nil, List.length_nil, add_zero]

/-- **The batches are cut at multiples of the batch size**: `nowDataNum` is a multiple, and
what is held. A row that is not valid moves neither. -/
theorem relayLoop_aligned {k : ℕ} (hnow : nowDataNum = cfg.batchDataNum * k + txlist.length)
    (hlen : txlist.length < cfg.batchDataNum)
    (hheld : ∀ tx ∈ txlist, tx.nonce / cfg.batchDataNum = k) :
    Batching.Aligned cfg.batchDataNum Transaction.nonce k
      (cfg.relayLoop broken rows nowDataNum txlist).batches := by
  induction rows generalizing nowDataNum txlist k with
  | nil =>
    rw [relayLoop]
    split
    · trivial
    · exact relayEnd_aligned hheld
  | cons data rows ih =>
    cases hrow : cfg.relayRow data nowDataNum with
    | none =>
      rw [relayLoop, hrow]
      trivial
    | some row =>
      cases row with
      | none =>
        rw [relayLoop_cons_invalid hrow]
        by_cases htotal : nowDataNum = cfg.dataTotalNum
        · rw [if_pos (.inr htotal), if_pos htotal]
          exact last_aligned hheld
        · rw [if_neg (not_or.mpr ⟨hlen.ne, htotal⟩)]
          exact ih hnow hlen hheld
      | some tx =>
        have hlen' : (txlist ++ [tx]).length = txlist.length + 1 := List.length_append
        have hheld' : ∀ t ∈ txlist ++ [tx], t.nonce / cfg.batchDataNum = k := by
          intro t ht
          rcases List.mem_append.mp ht with ht | ht
          · exact hheld t ht
          · rw [List.mem_singleton.mp ht, relayRow_nonce hrow, hnow]
            exact div_eq_of_lt hlen
        rw [relayLoop_cons_some hrow]
        by_cases htotal : nowDataNum + 1 = cfg.dataTotalNum
        · rw [if_pos (.inr htotal), if_pos htotal]
          exact last_aligned hheld'
        · rw [if_neg htotal]
          by_cases hfull : txlist.length + 1 = cfg.batchDataNum
          · -- the next block starts
            have hnext : nowDataNum + 1 = cfg.batchDataNum * (k + 1) := by
              rw [Nat.mul_succ, hnow, ← hfull]
              omega
            rw [if_pos (.inl hfull)]
            exact ⟨hheld', ih hnext ((Nat.zero_le _).trans_lt hlen)
              fun _ htx => absurd htx List.not_mem_nil⟩
          · rw [if_neg (not_or.mpr ⟨hfull, htotal⟩)]
            exact ih (by omega) (by omega) hheld'

/-- The batches of the relay committee. -/
theorem relayMsgSendingControl_aligned (hbatch : 0 < cfg.batchDataNum) (file : DataFile) :
    Batching.Aligned cfg.batchDataNum Transaction.nonce 0 (cfg.relayMsgSendingControl file).batches := by
  unfold relayMsgSendingControl
  split
  · trivial
  · exact relayLoop_aligned (by simp) hbatch fun _ htx => absurd htx List.not_mem_nil

end SendingConfig

/-! ## The counter -/

variable {H : Type} {E : SpringEnv H}

/-- No batch is counted, and none is enqueued. -/
structure Uncounted (st st' : PlacementState) : Prop where
  /-- `springTxBatchSeq` -/
  seq : st'.springTxBatchSeq = st.springTxBatchSeq
  /-- the calls of `springEnqueueTrainActionsLocked` -/
  enqueued : st'.enqueued = st.enqueued

theorem Uncounted.refl (st : PlacementState) : Uncounted st st := ⟨rfl, rfl⟩

theorem Uncounted.trans {st st' st'' : PlacementState} (h : Uncounted st st')
    (h' : Uncounted st' st'') : Uncounted st st'' :=
  ⟨h'.seq.trans h.seq, h'.enqueued.trans h.enqueued⟩

theorem commitPlacement_uncounted {s s' : Placing} {addr : Address} {sid : ℕ}
    (h : commitPlacement s addr sid = some s') : Uncounted s.1 s'.1 := by
  unfold commitPlacement at h
  split at h
  · cases h
    exact ⟨rfl, rfl⟩
  · cases h

theorem Aside.uncounted {st st' : PlacementState} (h : Aside st st') : Uncounted st st' :=
  ⟨h.seq, h.enqueued⟩

/-- A placement is not counted, whatever else is done before and after it. -/
theorem PlacesOne.uncounted {s s' : Placing} {addr : Address} (h : PlacesOne s addr s') :
    Uncounted s.1 s'.1 := by
  cases h with
  | known => exact .refl _
  | placed hnew hbefore hcommit hafter =>
    exact (hbefore.uncounted.trans (commitPlacement_uncounted hcommit)).trans hafter.uncounted

theorem PlacesUnlessEmpty.uncounted {s s' : Placing} {addr : Address}
    (h : PlacesUnlessEmpty s addr s') : Uncounted s.1 s'.1 := by
  rcases h with ⟨-, rfl⟩ | h
  · exact .refl _
  · exact h.uncounted

theorem placeReal_uncounted {B : RealBatch} {s s' : Placing × List SpringTrainAction}
    {e : Address × Address} (h : placeReal E B s e = some s') : Uncounted s.1.1 s'.1.1 := by
  rcases placeReal_places h with ⟨-, h⟩ | h
  · exact h.uncounted
  · exact h.uncounted

theorem seedAnchor_uncounted (s : Placing) (anchor : Address) :
    Uncounted s.1 (seedAnchor E s anchor).1 := by
  unfold seedAnchor
  split
  · exact .refl _
  · split
    · exact .refl _
    · exact ⟨rfl, rfl⟩

/-- A loop of writes that are not counted is not counted. -/
theorem foldl_uncounted {α : Type} {f : Placing → α → Placing}
    (hf : ∀ s a, Uncounted s.1 (f s a).1) (l : List α) (s : Placing) :
    Uncounted s.1 (l.foldl f s).1 := by
  induction l generalizing s with
  | nil => exact .refl _
  | cons a l ih => exact (hf s a).trans (ih (f s a))

/-- The same of a loop that may panic; `proj` is the call in progress. -/
theorem foldlM_uncounted {α σ : Type} {f : σ → α → Option σ} (proj : σ → Placing)
    (hf : ∀ s a s', f s a = some s' → Uncounted (proj s).1 (proj s').1) {l : List α} {s s' : σ}
    (h : l.foldlM f s = some s') : Uncounted (proj s).1 (proj s').1 := by
  induction l generalizing s with
  | nil =>
    obtain rfl : s = s' := by simpa using h
    exact .refl _
  | cons a l ih =>
    rw [List.foldlM_cons] at h
    obtain ⟨t, ht, hl⟩ := Option.bind_eq_some_iff.mp h
    exact (hf s a t ht).trans (ih hl)

/-! ## One call -/

/-- A batch is counted once, and is enqueued under its number or not at all. -/
structure Counted (st st' : PlacementState) (txs : List Transaction) : Prop where
  /-- `springTxBatchSeq` -/
  seq : st'.springTxBatchSeq = st.springTxBatchSeq + 1
  /-- the calls of `springEnqueueTrainActionsLocked` -/
  enqueued : ∀ e ∈ st'.enqueued,
    e ∈ st.enqueued ∨ (e.batchID = st'.springTxBatchSeq ∧ e.txCount = txs.length)

/-- The counter is moved, the addresses are placed. -/
theorem Uncounted.counted {st st' : PlacementState} {txs : List Transaction}
    (h : Uncounted { st with springTxBatchSeq := st.springTxBatchSeq + 1 } st') :
    Counted st st' txs where
  seq := h.seq
  enqueued e he := by
    rw [h.enqueued] at he
    exact .inl he

/-- And the actions are enqueued. -/
theorem Uncounted.enqueue_counted {st st' : PlacementState} {txs : List Transaction}
    {actions : List SpringTrainAction}
    (h : Uncounted { st with springTxBatchSeq := st.springTxBatchSeq + 1 } st') :
    Counted st (enqueue E st' (st.springTxBatchSeq + 1) actions txs) txs := by
  unfold enqueue
  split
  · refine ⟨h.seq, fun e he => ?_⟩
    rcases List.mem_append.mp he with he | he
    · rw [h.enqueued] at he
      exact .inl he
    · rw [List.mem_singleton.mp he]
      exact .inr ⟨h.seq.symm, rfl⟩
  · exact h.counted

theorem springPreparePlacementPPOBatch_counted {s s' : Placing} {txs : List Transaction}
    (h : springPreparePlacementPPOBatch E s txs = some s') : Counted s.1 s'.1 txs := by
  unfold springPreparePlacementPPOBatch at h
  obtain ⟨r, hr, rfl⟩ := Option.map_eq_some_iff.mp h
  apply Uncounted.enqueue_counted
  split at hr
  · have hloop := foldlM_uncounted (fun t : Placing × List SpringTrainAction => t.1)
      (fun t tx t' ht => by
        obtain ⟨u, hu, rfl⟩ := Option.map_eq_some_iff.mp ht
        exact (springPlaceAddressPPOSequential_places hu).uncounted) hr
    exact (foldl_uncounted seedAnchor_uncounted _ _).trans hloop
  · exact foldlM_uncounted (fun t : Placing × List SpringTrainAction => t.1)
      (fun t e t' ht => by
        obtain ⟨u, hu, rfl⟩ := Option.map_eq_some_iff.mp ht
        exact (springPlaceAddressPPOSequential_places hu).uncounted) hr

theorem springPreparePlacementCandidateOnlyBatch_counted {s s' : Placing}
    {txs : List Transaction} (h : springPreparePlacementCandidateOnlyBatch E s txs = some s') :
    Counted s.1 s'.1 txs := by
  apply Uncounted.counted
  unfold springPreparePlacementCandidateOnlyBatch at h
  dsimp only at h
  split at h
  · have hloop := foldlM_uncounted id
      (fun t tx t' ht => (springPlaceAddressCandidateOnlySequential_places ht).uncounted) h
    exact (foldl_uncounted seedAnchor_uncounted _ _).trans hloop
  · exact foldlM_uncounted id
      (fun t e t' ht => (springPlaceAddressCandidateOnlySequential_places ht).uncounted) h

/-- What was touched is looked up: the state stays. -/
theorem springPrepareRealAccountPlacement_counted {st : PlacementState} {s' : Placing}
    {txs : List Transaction} (hmode : E.p.springMode ≠ 0)
    (h : springPrepareRealAccountPlacement E st txs = some s') : Counted st s'.1 txs := by
  unfold springPrepareRealAccountPlacement at h
  rw [if_neg hmode] at h
  split at h
  · cases h
  · obtain ⟨scenes, -, h⟩ := Option.bind_eq_some_iff.mp h
    obtain ⟨r, hr, rfl⟩ := Option.map_eq_some_iff.mp h
    have hloop := foldlM_uncounted (fun t : Placing × List SpringTrainAction => t.1)
      (fun t e t' ht => placeReal_uncounted ht) hr
    rw [springFillTouchedPlacement_state]
    split
    · exact Uncounted.enqueue_counted hloop
    · exact hloop.counted

/-- The parameters under which batches are counted: the policy and its baseline, and all
modes with real accounts. -/
def CountsBatches (p : SpringConfig) : Prop :=
  p.springMode = 2 ∨ p.springMode = 7 ∨ springRealAccountsEnabled p = true ∧ p.springMode ≠ 0

/-- **A call counts once.** -/
theorem springPreparePlacement_counted (hmode : CountsBatches E.p) {st : PlacementState}
    {s' : Placing} {txs : List Transaction} (h : springPreparePlacement E st txs = some s') :
    Counted st s'.1 txs := by
  unfold springPreparePlacement at h
  cases hreal : springRealAccountsEnabled E.p with
  | true =>
    have hne : E.p.springMode ≠ 0 := by
      rcases hmode with hmode | hmode | hmode
      · omega
      · omega
      · exact hmode.2
    rw [if_pos hreal] at h
    exact springPrepareRealAccountPlacement_counted hne h
  | false =>
    rw [if_neg (by simp [hreal])] at h
    rcases hmode with hmode | hmode | hmode
    · rw [hmode] at h
      obtain ⟨s, hs, rfl⟩ := Option.map_eq_some_iff.mp h
      rw [springFillTouchedPlacement_state]
      exact springPreparePlacementPPOBatch_counted hs
    · rw [hmode] at h
      obtain ⟨s, hs, rfl⟩ := Option.map_eq_some_iff.mp h
      rw [springFillTouchedPlacement_state]
      exact springPreparePlacementCandidateOnlyBatch_counted hs
    · rw [hreal] at hmode
      exact absurd hmode.1 Bool.false_ne_true

/-! ## Runs -/

/-- A call of `springPreparePlacement`. -/
structure PlacementCall where
  /-- `txBatchID` -/
  seq : ℕ
  /-- `txlist` -/
  txs : List Transaction

/-- A call placed a transaction; the nonce tells which it is. -/
def PlacementCall.Places (call : PlacementCall) (tx : Transaction) : Prop :=
  ∃ t ∈ call.txs, t.nonce = tx.nonce

instance (call : PlacementCall) (tx : Transaction) : Decidable (call.Places tx) :=
  inferInstanceAs (Decidable (∃ t ∈ call.txs, _))

/-- The relay committee: `MsgSendingControl` and `HandleBlockInfo` work on it in turn. -/
structure CommitteeRun where
  /-- what the placement works on -/
  placement : PlacementState
  /-- what the feedback works on -/
  feedback : FeedbackState
  /-- the batches that `MsgSendingControl` is still to hand on -/
  toSend : List (List Transaction)
  /-- the calls so far, with the number that each was counted under -/
  placed : List PlacementCall
  /-- the blocks reported so far -/
  reported : List BlockInfoMsg

/-- What happens next. -/
inductive CommitteeEvent where
  /-- `txSending` places the next batch -/
  | send
  /-- `HandleBlockInfo` -/
  | report (b : BlockInfoMsg)

namespace CommitteeRun

/-- Before the first batch. -/
def start (E : SpringEnv H) (cfg : SendingConfig) (file : DataFile) : CommitteeRun where
  placement := .new E.p
  feedback := .new
  toSend := (cfg.relayMsgSendingControl file).batches
  placed := []
  reported := []

/-- One step; a call that panics is none. Both parts read the same `springStats`. -/
def step (E : SpringEnv H) (exp : ℚ → ℚ) (s : CommitteeRun) : CommitteeEvent → Option CommitteeRun
  | .send =>
    match s.toSend with
    | [] => none
    | txs :: toSend => (springPreparePlacement E s.placement txs).map fun r =>
      { s with
        placement := r.1
        toSend := toSend
        placed := s.placed ++ [⟨r.1.springTxBatchSeq, txs⟩] }
  | .report b =>
    let feedback := (handleBlockInfo E.p E.rows exp s.feedback b).1
    some { s with
      placement := { s.placement with springStats := feedback.springStats }
      feedback := feedback
      reported := s.reported ++ [b] }

/-- The transactions for which a block is looked up. -/
def decided (b : BlockInfoMsg) : List Transaction := b.innerShardTxs ++ b.relay1Txs

/-- The blocks hold transactions that were sent. -/
def Commits (s : CommitteeRun) : CommitteeEvent → Prop
  | .send => True
  | .report b => ∀ tx ∈ decided b, ∃ call ∈ s.placed, call.Places tx

instance (s : CommitteeRun) : ∀ a, Decidable (s.Commits a)
  | .send => .isTrue trivial
  | .report b => inferInstanceAs (Decidable (∀ tx ∈ decided b, ∃ call ∈ s.placed, call.Places tx))

/-- The calls so far are those for the first batches, in order. -/
structure Lined (batches : List (List Transaction)) (s : CommitteeRun) : Prop where
  /-- the others are still to be handed on -/
  batches : s.placed.map (·.txs) ++ s.toSend = batches
  /-- all calls are counted -/
  count : s.placement.springTxBatchSeq = s.placed.length
  /-- each has its number -/
  seq : ∀ i call, s.placed[i]? = some call → call.seq = i + 1
  /-- what is enqueued belongs to a call -/
  enqueued : ∀ e ∈ s.placement.enqueued,
    ∃ call ∈ s.placed, e.batchID = call.seq ∧ e.txCount = call.txs.length
  /-- what is reported was placed -/
  reported : ∀ b ∈ s.reported, ∀ tx ∈ decided b, ∃ call ∈ s.placed, call.Places tx

theorem start_lined (E : SpringEnv H) (cfg : SendingConfig) (file : DataFile) :
    Lined (cfg.relayMsgSendingControl file).batches (start E cfg file) where
  batches := rfl
  count := rfl
  seq i call h := by cases h
  enqueued e he := absurd he List.not_mem_nil
  reported b hb := absurd hb List.not_mem_nil

variable {batches : List (List Transaction)} {s s' : CommitteeRun} {exp : ℚ → ℚ}

/-- The next batch gets the next number. -/
theorem Lined.send (hmode : CountsBatches E.p) (hs : Lined batches s)
    (h : step E exp s .send = some s') : Lined batches s' := by
  unfold step at h
  cases hnext : s.toSend with
  | nil =>
    rw [hnext] at h
    cases h
  | cons txs toSend =>
    rw [hnext] at h
    obtain ⟨r, hr, rfl⟩ := Option.map_eq_some_iff.mp h
    have hcounted := springPreparePlacement_counted hmode hr
    have hlater : ∀ call ∈ s.placed, call ∈ s.placed ++ [⟨r.1.springTxBatchSeq, txs⟩] :=
      fun call hcall => List.mem_append_left _ hcall
    refine ⟨?_, ?_, fun i call hi => ?_, fun e he => ?_, fun b hb tx htx => ?_⟩
    · rw [← hs.batches, hnext, List.map_append, List.append_assoc]
      rfl
    · rw [hcounted.seq, hs.count, List.length_append]
      rfl
    · by_cases hi' : i < s.placed.length
      · rw [List.getElem?_append_left hi'] at hi
        exact hs.seq i call hi
      · -- this call
        obtain ⟨hlt, -⟩ := List.getElem?_eq_some_iff.mp hi
        rw [List.length_append, List.length_singleton] at hlt
        obtain rfl : i = s.placed.length := by omega
        rw [List.getElem?_append_right le_rfl, Nat.sub_self] at hi
        obtain rfl := Option.some.inj hi
        rw [hcounted.seq, hs.count]
    · rcases hcounted.enqueued e he with he | ⟨hid, hcount⟩
      · obtain ⟨call, hcall, hnames⟩ := hs.enqueued e he
        exact ⟨call, hlater call hcall, hnames⟩
      · exact ⟨_, List.mem_append_right _ (List.mem_singleton_self _), hid, hcount⟩
    · obtain ⟨call, hcall, hplaced⟩ := hs.reported b hb tx htx
      exact ⟨call, hlater call hcall, hplaced⟩

/-- A report counts nothing. -/
theorem Lined.report {b : BlockInfoMsg} (hs : Lined batches s) (hok : s.Commits (.report b))
    (h : step E exp s (.report b) = some s') : Lined batches s' := by
  obtain rfl := Option.some.inj h
  refine ⟨hs.batches, hs.count, hs.seq, hs.enqueued, fun b' hb' tx htx => ?_⟩
  rcases List.mem_append.mp hb' with hb' | hb'
  · exact hs.reported b' hb' tx htx
  · rw [List.mem_singleton.mp hb'] at htx
    exact hok tx htx

theorem Lined.of_reaches (hmode : CountsBatches E.p) {cfg : SendingConfig} {file : DataFile}
    (hr : Reaches (step E exp) Commits (start E cfg file) s) :
    Lined (cfg.relayMsgSendingControl file).batches s := by
  apply hr.invariant (Lined _) (start_lined E cfg file)
  intro s a s' hs hok hstep
  cases a with
  | send => exact hs.send hmode hstep
  | report b => exact hs.report hok hstep

/-- Where the batches are cut at multiples of a size, the number of a call is that of the
nonces it places. -/
theorem Lined.seq_eq {size : ℕ} (hs : Lined batches s)
    (haligned : Batching.Aligned size Transaction.nonce 0 batches) {call : PlacementCall}
    (hcall : call ∈ s.placed) {tx : Transaction} (htx : tx ∈ call.txs) :
    call.seq = tx.nonce / size + 1 := by
  obtain ⟨i, hi⟩ := List.mem_iff_getElem?.mp hcall
  have hbatch : batches[i]? = some call.txs := by
    have hlt : i < (s.placed.map (·.txs)).length := by
      rw [List.length_map]
      exact (List.getElem?_eq_some_iff.mp hi).1
    rw [← hs.batches, List.getElem?_append_left hlt, List.getElem?_map, hi]
    rfl
  rw [hs.seq i call hi, haligned.div_eq hbatch htx, zero_add]

end CommitteeRun

/-- `springCollectDecisionBatchIDs` has the batch number of each nonce, and no other. -/
theorem mem_springCollectDecisionBatchIDs {p : SpringConfig} (hpos : 0 < p.txBatchSize)
    {txGroups : List (List Transaction)} {bid : ℕ} :
    bid ∈ springCollectDecisionBatchIDs p txGroups ↔
      ∃ tx ∈ txGroups.flatten, tx.nonce / p.txBatchSize + 1 = bid := by
  rw [springCollectDecisionBatchIDs, if_neg hpos.ne', sortedKeys, List.mem_mergeSort,
    List.mem_dedup, List.mem_map]

open CommitteeRun in
/-- **The batch of a nonce**: in every run of the relay committee, the call that places a
transaction is counted under the number that its nonce gives; its actions are enqueued
under that number; and a block that is reported names exactly the calls that placed its
transactions. -/
theorem batch_number_of_nonce (E : SpringEnv H) (exp : ℚ → ℚ) (cfg : SendingConfig)
    (file : DataFile) (hmode : CountsBatches E.p) (hbatch : cfg.batchDataNum = E.p.txBatchSize)
    (hpos : 0 < E.p.txBatchSize) {s : CommitteeRun}
    (hr : Reaches (step E exp) Commits (start E cfg file) s) :
    s.placed.map (·.txs) ++ s.toSend = (cfg.relayMsgSendingControl file).batches ∧
    (∀ call ∈ s.placed, ∀ tx ∈ call.txs, call.seq = tx.nonce / E.p.txBatchSize + 1) ∧
    (∀ e ∈ s.placement.enqueued,
      ∃ call ∈ s.placed, e.batchID = call.seq ∧ e.txCount = call.txs.length) ∧
    ∀ b ∈ s.reported, ∀ bid, bid ∈ (springBlockStat E.p E.rows b).decisionBatchIDs ↔
      ∃ tx ∈ decided b, ∃ call ∈ s.placed, call.Places tx ∧ call.seq = bid := by
  have hs := Lined.of_reaches hmode hr
  have haligned := cfg.relayMsgSendingControl_aligned (hbatch ▸ hpos) file
  rw [hbatch] at haligned
  have hseq : ∀ call ∈ s.placed, ∀ tx ∈ call.txs, call.seq = tx.nonce / E.p.txBatchSize + 1 :=
    fun call hcall tx htx => hs.seq_eq haligned hcall htx
  refine ⟨hs.batches, hseq, hs.enqueued, fun b hb bid => ?_⟩
  have hmem : bid ∈ (springBlockStat E.p E.rows b).decisionBatchIDs ↔
      ∃ tx ∈ decided b, tx.nonce / E.p.txBatchSize + 1 = bid := by
    rw [springBlockStat, mem_springCollectDecisionBatchIDs hpos, List.flatten_cons,
      List.flatten_singleton, decided]
  rw [hmem]
  constructor
  · rintro ⟨tx, htx, hbid⟩
    obtain ⟨call, hcall, hplaced⟩ := hs.reported b hb tx htx
    obtain ⟨t, ht, hnonce⟩ := id hplaced
    refine ⟨tx, htx, call, hcall, hplaced, ?_⟩
    rw [hseq call hcall t ht, hnonce, hbid]
  · rintro ⟨tx, htx, call, hcall, ⟨t, ht, hnonce⟩, hbid⟩
    refine ⟨tx, htx, ?_⟩
    rw [← hbid, hseq call hcall t ht, hnonce]

/-- Candidate placement on two shards, in batches of two. -/
def pairEnv : SpringEnv FreeHash :=
  { tableEnv with p := { tableEnv.p with txBatchSize := 2 } }

/-- Batches of two, and five transactions. -/
def askPairs : SendingConfig := { askFive 2 with p := pairEnv.p }

/-- A file with four transactions; the second row is none. -/
def gapRows : DataFile := ⟨threeRows.rows.take 1 ++ [] :: threeRows.rows, false⟩

/-- A block that reports the third transaction. -/
def thirdReported : BlockInfoMsg where
  blockBodyLength := 1
  innerShardTxs := [{ plainTransaction with nonce := 2 }]
  epoch := 1
  relay1Txs := []
  relay2Txs := []
  senderShardID := 0

open CommitteeRun in
/-- The third transaction is placed by the second call, and reported to it. -/
theorem second_batch_of_third : ∃ s : CommitteeRun,
    (∃ call ∈ s.placed, call.Places { plainTransaction with nonce := 2 } ∧ call.seq = 2) ∧
      2 ∈ (springBlockStat pairEnv.p pairEnv.rows thirdReported).decisionBatchIDs := by
  have hrun : (runWith (step pairEnv id) Commits (start pairEnv askPairs gapRows)
      [.send, .send, .report thirdReported]).any (fun s => decide (thirdReported ∈ s.reported ∧
        ∃ call ∈ s.placed, call.Places { plainTransaction with nonce := 2 })) = true := by
    decide +kernel
  obtain ⟨s, hr, hreported, call, hcall, hplaces⟩ := Reaches.exists_of_runWith hrun
  obtain ⟨-, hseq, -, hnames⟩ := batch_number_of_nonce pairEnv id askPairs gapRows
    (.inr (.inl rfl)) rfl (by decide) hr
  obtain ⟨t, ht, hnonce⟩ := id hplaces
  have htwo : call.seq = 2 := by
    rw [hseq call hcall t ht, hnonce]
    rfl
  exact ⟨s, ⟨call, hcall, hplaces, htwo⟩, (hnames thirdReported hreported 2).mpr
    ⟨_, List.mem_cons_self, call, hcall, hplaces, htwo⟩⟩

end BlockEmulator
