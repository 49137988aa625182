import BlockEmulator.EpochSeries
import BlockEmulator.PairedPhases
import Mathlib.Algebra.Group.Action.Defs
import Mathlib.Algebra.Group.InjSurj
import Mathlib.Algebra.Group.Pi.Basic
import Mathlib.Algebra.Group.Prod
import Mathlib.Algebra.Order.Field.Rat

/-!
# Confirm latencies (`measure_TCL_relay.go`, `measure_TCL_Broker.go`)

The supervisor adds up the latencies of the transactions of each epoch as the block infos
arrive. A cross-shard transaction is confirmed in two blocks; its latencies need what was
recorded when the first one arrived.

Times are nanoseconds since the zero time, and sums are exact. What is written to the files
is the records.

* `TCLRelay.run_eq`, `TCLBroker.run_eq` — what the modules have when some block infos have
  arrived.
* `confirmLatency_perm_iff` — **when the measures do not depend on the order of arrival**.
* `TCLRelay.epochs_eq_of_forward`, `TCLBroker.epochs_eq_of_forward` — two orders in which first
  phases arrive first.
-/

namespace BlockEmulator.Measure

open EpochSeries PairedPhases

/-! ## Block infos -/

/-- `core.Transaction`, as far as the measures read it. -/
structure Transaction (η : Type) where
  /-- `Time` -/
  time : ℕ
  /-- `TxHash` -/
  txHash : η
  /-- `RawTxHash` -/
  rawTxHash : η
  deriving DecidableEq

/-- `message.BlockInfoMsg`; epochs are numbered from 0. -/
structure BlockInfoMsg (η : Type) where
  /-- `BlockBodyLength` -/
  blockBodyLength : ℕ
  /-- `Epoch` -/
  epoch : ℕ
  /-- `ProposeTime` -/
  proposeTime : ℕ
  /-- `CommitTime` -/
  commitTime : ℕ
  /-- `InnerShardTxs` -/
  innerShardTxs : List (Transaction η)
  /-- `Relay1Txs` -/
  relay1Txs : List (Transaction η)
  /-- `Relay2Txs` -/
  relay2Txs : List (Transaction η)
  /-- `Broker1Txs` -/
  broker1Txs : List (Transaction η)
  /-- `Broker2Txs` -/
  broker2Txs : List (Transaction η)
  deriving DecidableEq

/-- `t.Sub(u)`; a `Duration` has 64 bits, and the difference stops at its bounds. -/
def durationSub (t u : ℕ) : ℤ := max (-2 ^ 63) (min (2 ^ 63 - 1) ((t : ℤ) - u))

/-- `Milliseconds()`, rounded towards 0. -/
def milliseconds (d : ℤ) : ℤ := d.tdiv 1000000

/-- `Seconds()`. -/
def seconds (d : ℤ) : ℚ := d / 1000000000

/-- The block infos that are not skipped as empty. -/
def reported {η : Type} (blocks : List (BlockInfoMsg η)) : List (BlockInfoMsg η) :=
  blocks.filter fun b => b.blockBodyLength ≠ 0

theorem reported_concat {η : Type} (blocks : List (BlockInfoMsg η)) (b : BlockInfoMsg η) :
    reported (blocks ++ [b]) =
      if b.blockBodyLength = 0 then reported blocks else reported blocks ++ [b] := by
  rw [reported, List.filter_append]
  split <;> simp_all [reported]

/-! ## The modules -/

/-- The entries of one epoch in the slices of `TestModule_TCL_Relay` and of
`TestModule_TCL_Broker`; phase 1 and 2 are `relay1` and `relay2`, or `broker1` and `broker2`. -/
@[ext]
structure LatencyRecord where
  /-- `txNum` -/
  txNum : ℚ
  /-- `totTxLatencyEpoch` -/
  totTxLatency : ℚ
  /-- `relay1CommitLatency` -/
  phase1CommitLatency : ℤ
  /-- `relay2CommitLatency` -/
  phase2CommitLatency : ℤ
  /-- `ctxCommitLatency` -/
  ctxCommitLatency : ℤ
  /-- `normalTxCommitLatency` -/
  normalTxCommitLatency : ℤ
  /-- `normalTxNum` -/
  normalTxNum : ℕ
  /-- `relay1TxNum` -/
  phase1TxNum : ℕ
  /-- `relay2TxNum` -/
  phase2TxNum : ℕ
  deriving DecidableEq

instance : Zero LatencyRecord := ⟨⟨0, 0, 0, 0, 0, 0, 0, 0, 0⟩⟩

/-- The slices, and `relay1CommitTS` or `brokerTxMap`. The slices have one length, one more
than `epochID`. -/
structure TCLState (η : Type) where
  /-- The slices. -/
  epochs : List LatencyRecord
  /-- The map. -/
  phase1Times : η → Option ℕ

/-- `NewTestModule_TCL_Relay`, `NewTestModule_TCL_Broker`. -/
def TCLState.new {η : Type} : TCLState η := ⟨[], fun _ => none⟩

variable {η : Type} [DecidableEq η]

/-- The counts of a block. -/
def countTxs (inner phase1 phase2 : List (Transaction η)) (r : LatencyRecord) : LatencyRecord :=
  { r with
    normalTxNum := r.normalTxNum + inner.length
    phase1TxNum := r.phase1TxNum + phase1.length
    phase2TxNum := r.phase2TxNum + phase2.length
    txNum := r.txNum + ((inner.length : ℚ) + ((phase1.length + phase2.length : ℕ) : ℚ) / 2) }

/-- The loop over the transactions of the first phase: the latency. -/
def phase1Tx (b : BlockInfoMsg η) (r : LatencyRecord) (tx : Transaction η) : LatencyRecord :=
  { r with
    phase1CommitLatency :=
      r.phase1CommitLatency + milliseconds (durationSub b.commitTime tx.time) }

/-- The loop over `b.InnerShardTxs`. -/
def normalTx (b : BlockInfoMsg η) (r : LatencyRecord) (tx : Transaction η) : LatencyRecord :=
  { r with
    totTxLatency := r.totTxLatency + seconds (durationSub b.commitTime tx.time)
    normalTxCommitLatency :=
      r.normalTxCommitLatency + milliseconds (durationSub b.commitTime tx.time) }

namespace TCLRelay

/-- The loop over `b.Relay2Txs`. -/
def relay2Tx (relay1CommitTS : η → Option ℕ) (b : BlockInfoMsg η) (r : LatencyRecord)
    (tx : Transaction η) : LatencyRecord :=
  let r := { r with totTxLatency := r.totTxLatency + seconds (durationSub b.commitTime tx.time) }
  match relay1CommitTS tx.txHash with
  | some r1CommitTime =>
    { r with
      phase2CommitLatency :=
        r.phase2CommitLatency + milliseconds (durationSub b.commitTime r1CommitTime)
      ctxCommitLatency :=
        r.ctxCommitLatency + milliseconds (durationSub b.commitTime tx.time) }
  | none => r

/-- `UpdateMeasureRecord` of `TestModule_TCL_Relay`. -/
def updateMeasureRecord (s : TCLState η) (b : BlockInfoMsg η) : TCLState η :=
  if b.blockBodyLength = 0 then s
  else
    -- the loop over `b.Relay1Txs`: the commit times
    let relay1CommitTS := b.relay1Txs.foldl (fun (times : η → Option ℕ) tx =>
      Function.update times tx.txHash (some b.commitTime)) s.phase1Times
    { epochs := record 0 b.epoch (fun r =>
        b.innerShardTxs.foldl (normalTx b) (b.relay2Txs.foldl (relay2Tx relay1CommitTS b)
          (b.relay1Txs.foldl (phase1Tx b)
            (countTxs b.innerShardTxs b.relay1Txs b.relay2Txs r)))) s.epochs
      phase1Times := relay1CommitTS }

/-- What the module has when the block infos have arrived. -/
def run (blocks : List (BlockInfoMsg η)) : TCLState η := blocks.foldl updateMeasureRecord .new

end TCLRelay

namespace TCLBroker

/-- The loop over `b.Broker2Txs`. -/
def broker2Tx (brokerTxMap : η → Option ℕ) (b : BlockInfoMsg η) (r : LatencyRecord)
    (tx : Transaction η) : LatencyRecord :=
  let r :=
    match brokerTxMap tx.rawTxHash with
    | some b1txProposeTime =>
      { r with
        totTxLatency := r.totTxLatency + seconds (durationSub b.commitTime b1txProposeTime)
        ctxCommitLatency :=
          r.ctxCommitLatency + milliseconds (durationSub b.commitTime b1txProposeTime) }
    -- `Missing a broker1 tx.`
    | none => r
  { r with
    phase2CommitLatency :=
      r.phase2CommitLatency + milliseconds (durationSub b.commitTime tx.time) }

/-- `UpdateMeasureRecord` of `TestModule_TCL_Broker`. -/
def updateMeasureRecord (s : TCLState η) (b : BlockInfoMsg η) : TCLState η :=
  if b.blockBodyLength = 0 then s
  else
    -- the loop over `b.Broker1Txs`: the propose times
    let brokerTxMap := b.broker1Txs.foldl (fun (times : η → Option ℕ) tx =>
      Function.update times tx.rawTxHash (some tx.time)) s.phase1Times
    { epochs := record 0 b.epoch (fun r =>
        b.broker2Txs.foldl (broker2Tx brokerTxMap b) (b.broker1Txs.foldl (phase1Tx b)
          (b.innerShardTxs.foldl (normalTx b)
            (countTxs b.innerShardTxs b.broker1Txs b.broker2Txs r)))) s.epochs
      phase1Times := brokerTxMap }

/-- What the module has when the block infos have arrived. -/
def run (blocks : List (BlockInfoMsg η)) : TCLState η := blocks.foldl updateMeasureRecord .new

end TCLBroker

/-! ## Records are added up -/

namespace LatencyRecord

instance : Add LatencyRecord := ⟨fun r s =>
  ⟨r.txNum + s.txNum, r.totTxLatency + s.totTxLatency,
    r.phase1CommitLatency + s.phase1CommitLatency, r.phase2CommitLatency + s.phase2CommitLatency,
    r.ctxCommitLatency + s.ctxCommitLatency, r.normalTxCommitLatency + s.normalTxCommitLatency,
    r.normalTxNum + s.normalTxNum, r.phase1TxNum + s.phase1TxNum,
    r.phase2TxNum + s.phase2TxNum⟩⟩

instance : SMul ℕ LatencyRecord := ⟨fun n r =>
  ⟨n • r.txNum, n • r.totTxLatency, n • r.phase1CommitLatency, n • r.phase2CommitLatency,
    n • r.ctxCommitLatency, n • r.normalTxCommitLatency, n • r.normalTxNum, n • r.phase1TxNum,
    n • r.phase2TxNum⟩⟩

theorem zero_eq : (0 : LatencyRecord) = ⟨0, 0, 0, 0, 0, 0, 0, 0, 0⟩ := rfl

theorem add_eq (r s : LatencyRecord) : r + s =
    ⟨r.txNum + s.txNum, r.totTxLatency + s.totTxLatency,
      r.phase1CommitLatency + s.phase1CommitLatency,
      r.phase2CommitLatency + s.phase2CommitLatency, r.ctxCommitLatency + s.ctxCommitLatency,
      r.normalTxCommitLatency + s.normalTxCommitLatency, r.normalTxNum + s.normalTxNum,
      r.phase1TxNum + s.phase1TxNum, r.phase2TxNum + s.phase2TxNum⟩ := rfl

/-- The entries as a tuple. -/
def entries (r : LatencyRecord) : ℚ × ℚ × ℤ × ℤ × ℤ × ℤ × ℕ × ℕ × ℕ :=
  (r.txNum, r.totTxLatency, r.phase1CommitLatency, r.phase2CommitLatency, r.ctxCommitLatency,
    r.normalTxCommitLatency, r.normalTxNum, r.phase1TxNum, r.phase2TxNum)

theorem entries_injective : Function.Injective entries := by
  intro r s h
  simp only [entries, Prod.mk.injEq] at h
  obtain ⟨h1, h2, h3, h4, h5, h6, h7, h8, h9⟩ := h
  exact LatencyRecord.ext h1 h2 h3 h4 h5 h6 h7 h8 h9

instance : AddCancelCommMonoid LatencyRecord :=
  entries_injective.addCancelCommMonoid entries rfl (fun _ _ => rfl) fun _ _ => rfl

/-- A loop whose rounds add something adds all of it. -/
theorem foldl_eq_add {α : Type} {f : LatencyRecord → α → LatencyRecord}
    (hf : ∀ r x, f r x = r + f 0 x) (l : List α) (r : LatencyRecord) :
    l.foldl f r = r + (l.map (f 0)).sum := by
  induction l generalizing r with
  | nil => rw [List.foldl_nil, List.map_nil, List.sum_nil, add_zero]
  | cons x l ih => rw [List.foldl_cons, ih, hf, List.map_cons, List.sum_cons, add_assoc]

end LatencyRecord

section Rounds

variable (b : BlockInfoMsg η) (r : LatencyRecord) (tx : Transaction η)

omit [DecidableEq η] in
theorem countTxs_eq (inner phase1 phase2 : List (Transaction η)) :
    countTxs inner phase1 phase2 r = r + countTxs inner phase1 phase2 0 := by
  simp [countTxs, LatencyRecord.add_eq, LatencyRecord.zero_eq]

omit [DecidableEq η] in
theorem phase1Tx_eq : phase1Tx b r tx = r + phase1Tx b 0 tx := by
  simp [phase1Tx, LatencyRecord.add_eq, LatencyRecord.zero_eq]

omit [DecidableEq η] in
theorem normalTx_eq : normalTx b r tx = r + normalTx b 0 tx := by
  simp [normalTx, LatencyRecord.add_eq, LatencyRecord.zero_eq]

end Rounds

/-! ## A module that pairs two phases -/

section Module

variable (firsts : BlockInfoMsg η → List (η × ℕ)) (own : BlockInfoMsg η → LatencyRecord)
  (gains : BlockInfoMsg η → List (η × (ℕ → LatencyRecord)))

/-- What a block adds to an epoch by itself. -/
def ownAt (e : ℕ) (b : BlockInfoMsg η) : LatencyRecord := if b.epoch = e then own b else 0

/-- What the second phases of a block add to an epoch. -/
def gainsAt (e : ℕ) (b : BlockInfoMsg η) : List (η × (ℕ → LatencyRecord)) :=
  if b.epoch = e then gains b else []

/-- What an epoch has when the block infos have arrived. -/
def measured (blocks : List (BlockInfoMsg η)) (e : ℕ) : LatencyRecord :=
  (total firsts (ownAt own e) (gainsAt gains e) blocks).2

/-- What is known when the block infos have arrived. -/
def known (blocks : List (BlockInfoMsg η)) : η → Option ℕ :=
  blocks.foldl (learn firsts) fun _ => none

variable {firsts own gains} {blocks : List (BlockInfoMsg η)}

theorem known_concat (blocks : List (BlockInfoMsg η)) (b : BlockInfoMsg η) :
    known firsts (blocks ++ [b]) = learn firsts (known firsts blocks) b := by
  rw [known, List.foldl_append]
  rfl

/-- What is known does not depend on what is added up. -/
theorem total_fst (e : ℕ) :
    (total firsts (ownAt own e) (gainsAt gains e) blocks).1 = known firsts blocks := by
  induction blocks using List.reverseRecOn with
  | nil => rfl
  | append_singleton blocks b ih => rw [total_concat, known_concat, ih]

theorem measured_concat (blocks : List (BlockInfoMsg η)) (b : BlockInfoMsg η) (e : ℕ) :
    measured firsts own gains (blocks ++ [b]) e = measured firsts own gains blocks e +
      if b.epoch = e then gain own gains (known firsts (blocks ++ [b])) b else 0 := by
  rw [measured, total_concat, total_fst, known_concat]
  by_cases he : b.epoch = e <;> simp [measured, gain, ownAt, gainsAt, he]

/-- An epoch that no block has reached has nothing. -/
theorem measured_of_top_le {e : ℕ} (h : top BlockInfoMsg.epoch blocks ≤ e) :
    measured firsts own gains blocks e = 0 := by
  induction blocks using List.reverseRecOn with
  | nil => rfl
  | append_singleton blocks b ih =>
    rw [top_concat] at h
    rw [measured_concat, ih (by omega), if_neg (by omega), add_zero]

/-- **What a module has when the block infos have arrived.** -/
theorem run_eq_measured {update : TCLState η → BlockInfoMsg η → TCLState η}
    (hupdate : ∀ s b, update s b = if b.blockBodyLength = 0 then s
      else
        ⟨record 0 b.epoch (· + gain own gains (learn firsts s.phase1Times b) b) s.epochs,
          learn firsts s.phase1Times b⟩) (blocks : List (BlockInfoMsg η)) :
    blocks.foldl update .new =
      ⟨upTo (top BlockInfoMsg.epoch (reported blocks)) (measured firsts own gains (reported blocks)),
        known firsts (reported blocks)⟩ := by
  induction blocks using List.reverseRecOn with
  | nil => rfl
  | append_singleton blocks b ih =>
    rw [List.foldl_append, ih, List.foldl_cons, List.foldl_nil, hupdate, reported_concat]
    by_cases hempty : b.blockBodyLength = 0
    · rw [if_pos hempty, if_pos hempty]
    · rw [if_neg hempty, if_neg hempty, known_concat,
        record_upTo fun e he => measured_of_top_le he, top_concat]
      refine congrArg (TCLState.mk · _) (upTo_inj.mpr fun e _ => ?_)
      rw [measured_concat, known_concat]
      by_cases he : b.epoch = e
      · subst he
        rw [Function.update_self, if_pos rfl]
      · rw [Function.update_of_ne (Ne.symm he), if_neg he, add_zero]

/-- Two blocks of one epoch add the same by each other; of two epochs, nothing. -/
def Even (firsts : BlockInfoMsg η → List (η × ℕ))
    (gains : BlockInfoMsg η → List (η × (ℕ → LatencyRecord))) (a b : BlockInfoMsg η) : Prop :=
  if a.epoch = b.epoch then link firsts gains a b = link firsts gains b a
  else link firsts gains a b = 0 ∧ link firsts gains b a = 0

theorem even_iff {a b : BlockInfoMsg η} : Even firsts gains a b ↔
    ∀ e, link firsts (gainsAt gains e) a b = link firsts (gainsAt gains e) b a := by
  have hat : ∀ (e : ℕ) (a b : BlockInfoMsg η), link firsts (gainsAt gains e) a b =
      if b.epoch = e then link firsts gains a b else 0 := fun e a b => by
    rw [link, gainsAt]
    split <;> rfl
  simp only [hat, Even]
  split
  · next h =>
    rw [h]
    refine ⟨fun heq e => by rw [heq], fun hall => ?_⟩
    simpa using hall b.epoch
  · next h =>
    refine ⟨fun hzero e => by rw [hzero.1, hzero.2, ite_self, ite_self], fun hall => ⟨?_, ?_⟩⟩
    · simpa [h] using hall b.epoch
    · simpa [Ne.symm h] using (hall a.epoch).symm

/-- **The measures are the same in every order just when all pairs of blocks are even.** -/
theorem measured_perm_iff (hkeys : ((blocks.flatMap firsts).map (·.1)).Nodup) :
    (∀ blocks', blocks'.Perm blocks →
        measured firsts own gains blocks' = measured firsts own gains blocks) ↔
      blocks.Pairwise (Even firsts gains) := by
  have hepoch : ∀ e, (∀ blocks', blocks'.Perm blocks →
      measured firsts own gains blocks' e = measured firsts own gains blocks e) ↔
      blocks.Pairwise fun a b =>
        link firsts (gainsAt gains e) a b = link firsts (gainsAt gains e) b a :=
    fun e => total_perm_iff hkeys
  simp only [List.pairwise_iff_forall_sublist, even_iff] at hepoch ⊢
  constructor
  · intro h a b hsub e
    exact (hepoch e).mp (fun blocks' hperm => congrFun (h blocks' hperm) e) hsub
  · intro h blocks' hperm
    funext e
    exact (hepoch e).mpr (fun hsub => h hsub e) blocks' hperm

/-- **Two orders in which no second phase arrives before its first one.** -/
theorem measured_eq_of_forward {blocks' : List (BlockInfoMsg η)}
    (hkeys : ((blocks.flatMap firsts).map (·.1)).Nodup) (hperm : blocks.Perm blocks')
    (h : blocks.Pairwise fun a b => link firsts gains b a = 0)
    (h' : blocks'.Pairwise fun a b => link firsts gains b a = 0) :
    measured firsts own gains blocks = measured firsts own gains blocks' := by
  have hat : ∀ (e : ℕ) (a b : BlockInfoMsg η), link firsts gains b a = 0 →
      link firsts (gainsAt gains e) b a = 0 := fun e a b hzero => by
    rw [link, gainsAt]
    split
    · exact hzero
    · rfl
  funext e
  exact total_eq_of_forward hkeys hperm (h.imp fun {a b} => hat e a b) (h'.imp fun {a b} => hat e a b)

/-- What the measures of two orders have in common, for a module. -/
theorem epochs_eq_iff {update : TCLState η → BlockInfoMsg η → TCLState η}
    (hupdate : ∀ s b, update s b = if b.blockBodyLength = 0 then s
      else
        ⟨record 0 b.epoch (· + gain own gains (learn firsts s.phase1Times b) b) s.epochs,
          learn firsts s.phase1Times b⟩) {blocks' : List (BlockInfoMsg η)}
    (hperm : blocks'.Perm blocks) :
    (blocks'.foldl update .new).epochs = (blocks.foldl update .new).epochs ↔
      measured firsts own gains (reported blocks') =
        measured firsts own gains (reported blocks) := by
  have hreported : (reported blocks').Perm (reported blocks) := hperm.filter _
  rw [run_eq_measured hupdate, run_eq_measured hupdate, top_eq_of_perm hreported, upTo_inj]
  refine ⟨fun h => funext fun e => ?_, fun h e _ => by rw [h]⟩
  by_cases he : e < top BlockInfoMsg.epoch (reported blocks)
  · exact h e he
  · rw [measured_of_top_le (Nat.not_lt.mp he),
      measured_of_top_le (by rw [top_eq_of_perm hreported]; exact Nat.not_lt.mp he)]

/-- **The slices of a module are the same in every order just when all pairs of blocks are
even.** -/
theorem epochs_perm_iff {update : TCLState η → BlockInfoMsg η → TCLState η}
    (hupdate : ∀ s b, update s b = if b.blockBodyLength = 0 then s
      else
        ⟨record 0 b.epoch (· + gain own gains (learn firsts s.phase1Times b) b) s.epochs,
          learn firsts s.phase1Times b⟩)
    (hkeys : (((reported blocks).flatMap firsts).map (·.1)).Nodup) :
    (∀ blocks' : List (BlockInfoMsg η), blocks'.Perm blocks →
        (blocks'.foldl update .new).epochs = (blocks.foldl update .new).epochs) ↔
      (reported blocks).Pairwise (Even firsts gains) := by
  have hmeasured : (∀ l : List (BlockInfoMsg η), l.Perm (reported blocks) →
      measured firsts own gains l = measured firsts own gains (reported blocks)) ↔
      (reported blocks).Pairwise (Even firsts gains) := measured_perm_iff hkeys
  rw [← hmeasured]
  constructor
  · intro h l hl
    -- the skipped blocks arrive last
    have hperm : (l ++ blocks.filter fun b => !decide (b.blockBodyLength ≠ 0)).Perm blocks :=
      (hl.append_right _).trans (List.filter_append_perm _ blocks)
    have hsame := (epochs_eq_iff hupdate hperm).mp (h _ hperm)
    have hkept : reported (l ++ blocks.filter fun b => !decide (b.blockBodyLength ≠ 0)) = l := by
      have hl' : ∀ b ∈ l, b.blockBodyLength ≠ 0 := fun b hb =>
        of_decide_eq_true (List.mem_filter.mp (hl.mem_iff.mp hb)).2
      rw [reported, List.filter_append, List.filter_filter]
      simpa using hl'
    rwa [hkept] at hsame
  · exact fun h blocks' hperm => (epochs_eq_iff hupdate hperm).mpr (h _ (hperm.filter _))

end Module

/-! ## The two modules -/

namespace TCLRelay

/-- What a block adds to `relay1CommitTS`. -/
def firsts (b : BlockInfoMsg η) : List (η × ℕ) :=
  b.relay1Txs.map fun tx => (tx.txHash, b.commitTime)

/-- What a relay2 transaction adds when the commit time of its relay1 is known. -/
def relay2Gain (b : BlockInfoMsg η) (tx : Transaction η) (r1CommitTime : ℕ) : LatencyRecord :=
  { (0 : LatencyRecord) with
    phase2CommitLatency := milliseconds (durationSub b.commitTime r1CommitTime)
    ctxCommitLatency := milliseconds (durationSub b.commitTime tx.time) }

/-- What the relay2 transactions of a block add. -/
def gains (b : BlockInfoMsg η) : List (η × (ℕ → LatencyRecord)) :=
  b.relay2Txs.map fun tx => (tx.txHash, relay2Gain b tx)

/-- What a block adds whatever is known. -/
def own (b : BlockInfoMsg η) : LatencyRecord :=
  countTxs b.innerShardTxs b.relay1Txs b.relay2Txs 0 + (b.relay1Txs.map (phase1Tx b 0)).sum +
    (b.relay2Txs.map (relay2Tx (fun _ => none) b 0)).sum + (b.innerShardTxs.map (normalTx b 0)).sum

omit [DecidableEq η] in
theorem relay2Tx_eq (times : η → Option ℕ) (b : BlockInfoMsg η) (r : LatencyRecord)
    (tx : Transaction η) : relay2Tx times b r tx = r + relay2Tx times b 0 tx := by
  simp only [relay2Tx]
  cases times tx.txHash <;> simp [LatencyRecord.add_eq, LatencyRecord.zero_eq]

omit [DecidableEq η] in
theorem relay2Tx_split (times : η → Option ℕ) (b : BlockInfoMsg η) (tx : Transaction η) :
    relay2Tx times b 0 tx =
      relay2Tx (fun _ => none) b 0 tx + (times tx.txHash).elim 0 (relay2Gain b tx) := by
  simp only [relay2Tx]
  cases times tx.txHash <;> simp [relay2Gain, LatencyRecord.add_eq, LatencyRecord.zero_eq]

/-- One block. -/
theorem updateMeasureRecord_eq (s : TCLState η) (b : BlockInfoMsg η) :
    updateMeasureRecord s b = if b.blockBodyLength = 0 then s
      else
        ⟨record 0 b.epoch (· + gain own gains (learn firsts s.phase1Times b) b) s.epochs,
          learn firsts s.phase1Times b⟩ := by
  have hlearn : b.relay1Txs.foldl (fun (times : η → Option ℕ) tx =>
      Function.update times tx.txHash (some b.commitTime)) s.phase1Times =
        learn firsts s.phase1Times b := by
    rw [learn, firsts, List.foldl_map]
  rw [updateMeasureRecord, hlearn]
  refine if_congr Iff.rfl rfl (congrArg (TCLState.mk · _) (congrArg (record 0 b.epoch · _) ?_))
  funext r
  rw [LatencyRecord.foldl_eq_add (normalTx_eq b), LatencyRecord.foldl_eq_add (relay2Tx_eq _ b),
    LatencyRecord.foldl_eq_add (phase1Tx_eq b), countTxs_eq, gain, own, gains, List.map_map,
    List.map_congr_left fun tx _ => relay2Tx_split _ b tx, List.sum_map_add]
  simp only [Function.comp_def]
  abel

/-- **What the relay module has when the block infos have arrived.** -/
theorem run_eq (blocks : List (BlockInfoMsg η)) :
    run blocks = ⟨upTo (top BlockInfoMsg.epoch (reported blocks))
      (measured firsts own gains (reported blocks)), known firsts (reported blocks)⟩ :=
  run_eq_measured updateMeasureRecord_eq blocks

end TCLRelay

namespace TCLBroker

/-- What a block adds to `brokerTxMap`. -/
def firsts (b : BlockInfoMsg η) : List (η × ℕ) :=
  b.broker1Txs.map fun tx => (tx.rawTxHash, tx.time)

/-- What a broker2 transaction adds when the propose time of its broker1 is known. -/
def broker2Gain (b : BlockInfoMsg η) (b1txProposeTime : ℕ) : LatencyRecord :=
  { (0 : LatencyRecord) with
    totTxLatency := seconds (durationSub b.commitTime b1txProposeTime)
    ctxCommitLatency := milliseconds (durationSub b.commitTime b1txProposeTime) }

/-- What the broker2 transactions of a block add. -/
def gains (b : BlockInfoMsg η) : List (η × (ℕ → LatencyRecord)) :=
  b.broker2Txs.map fun tx => (tx.rawTxHash, broker2Gain b)

/-- What a block adds whatever is known. -/
def own (b : BlockInfoMsg η) : LatencyRecord :=
  countTxs b.innerShardTxs b.broker1Txs b.broker2Txs 0 + (b.innerShardTxs.map (normalTx b 0)).sum +
    (b.broker1Txs.map (phase1Tx b 0)).sum + (b.broker2Txs.map (broker2Tx (fun _ => none) b 0)).sum

omit [DecidableEq η] in
theorem broker2Tx_eq (times : η → Option ℕ) (b : BlockInfoMsg η) (r : LatencyRecord)
    (tx : Transaction η) : broker2Tx times b r tx = r + broker2Tx times b 0 tx := by
  simp only [broker2Tx]
  cases times tx.rawTxHash <;> simp [LatencyRecord.add_eq, LatencyRecord.zero_eq]

omit [DecidableEq η] in
theorem broker2Tx_split (times : η → Option ℕ) (b : BlockInfoMsg η) (tx : Transaction η) :
    broker2Tx times b 0 tx =
      broker2Tx (fun _ => none) b 0 tx + (times tx.rawTxHash).elim 0 (broker2Gain b) := by
  simp only [broker2Tx]
  cases times tx.rawTxHash <;> simp [broker2Gain, LatencyRecord.add_eq, LatencyRecord.zero_eq]

/-- One block. -/
theorem updateMeasureRecord_eq (s : TCLState η) (b : BlockInfoMsg η) :
    updateMeasureRecord s b = if b.blockBodyLength = 0 then s
      else
        ⟨record 0 b.epoch (· + gain own gains (learn firsts s.phase1Times b) b) s.epochs,
          learn firsts s.phase1Times b⟩ := by
  have hlearn : b.broker1Txs.foldl (fun (times : η → Option ℕ) tx =>
      Function.update times tx.rawTxHash (some tx.time)) s.phase1Times =
        learn firsts s.phase1Times b := by
    rw [learn, firsts, List.foldl_map]
  rw [updateMeasureRecord, hlearn]
  refine if_congr Iff.rfl rfl (congrArg (TCLState.mk · _) (congrArg (record 0 b.epoch · _) ?_))
  funext r
  rw [LatencyRecord.foldl_eq_add (broker2Tx_eq _ b), LatencyRecord.foldl_eq_add (phase1Tx_eq b),
    LatencyRecord.foldl_eq_add (normalTx_eq b), countTxs_eq, gain, own, gains, List.map_map,
    List.map_congr_left fun tx _ => broker2Tx_split _ b tx, List.sum_map_add]
  simp only [Function.comp_def]
  abel

/-- **What the broker module has when the block infos have arrived.** -/
theorem run_eq (blocks : List (BlockInfoMsg η)) :
    run blocks = ⟨upTo (top BlockInfoMsg.epoch (reported blocks))
      (measured firsts own gains (reported blocks)), known firsts (reported blocks)⟩ :=
  run_eq_measured updateMeasureRecord_eq blocks

end TCLBroker

/-! ## The order of arrival -/

/-- The block infos of a run: a transaction has its first phase once. -/
structure BlockRun (η : Type) where
  /-- The block infos. -/
  blocks : List (BlockInfoMsg η)
  relay1_once : ((reported blocks).flatMap fun b => b.relay1Txs.map (·.txHash)).Nodup
  broker1_once : ((reported blocks).flatMap fun b => b.broker1Txs.map (·.rawTxHash)).Nodup

namespace BlockRun

variable (run : BlockRun η)

omit [DecidableEq η] in
theorem relay_keys : (((reported run.blocks).flatMap TCLRelay.firsts).map (·.1)).Nodup := by
  have h := run.relay1_once
  simpa only [List.map_flatMap, TCLRelay.firsts, List.map_map, Function.comp_def] using h

omit [DecidableEq η] in
theorem broker_keys : (((reported run.blocks).flatMap TCLBroker.firsts).map (·.1)).Nodup := by
  have h := run.broker1_once
  simpa only [List.map_flatMap, TCLBroker.firsts, List.map_map, Function.comp_def] using h

end BlockRun

/-- **The measures do not depend on the order of arrival just when all pairs of blocks are
even**: what the second phases of the one add by the first phases of the other is the same both
ways in one epoch, and nothing in two. -/
theorem confirmLatency_perm_iff (run : BlockRun η) :
    ((∀ blocks' : List (BlockInfoMsg η), blocks'.Perm run.blocks →
        (TCLRelay.run blocks').epochs = (TCLRelay.run run.blocks).epochs) ↔
      (reported run.blocks).Pairwise (Even TCLRelay.firsts TCLRelay.gains)) ∧
    ((∀ blocks' : List (BlockInfoMsg η), blocks'.Perm run.blocks →
        (TCLBroker.run blocks').epochs = (TCLBroker.run run.blocks).epochs) ↔
      (reported run.blocks).Pairwise (Even TCLBroker.firsts TCLBroker.gains)) :=
  ⟨epochs_perm_iff TCLRelay.updateMeasureRecord_eq run.relay_keys,
    epochs_perm_iff TCLBroker.updateMeasureRecord_eq run.broker_keys⟩

/-- **Two orders in which no second phase arrives before its first one** give the same
measures. -/
theorem TCLRelay.epochs_eq_of_forward (run : BlockRun η) {blocks' : List (BlockInfoMsg η)}
    (hperm : blocks'.Perm run.blocks)
    (h : (reported run.blocks).Pairwise fun a b => link firsts gains b a = 0)
    (h' : (reported blocks').Pairwise fun a b => link firsts gains b a = 0) :
    (TCLRelay.run blocks').epochs = (TCLRelay.run run.blocks).epochs :=
  (epochs_eq_iff updateMeasureRecord_eq hperm).mpr
    (measured_eq_of_forward run.relay_keys (hperm.symm.filter _) h h').symm

/-- **Two orders in which no second phase arrives before its first one** give the same
measures. -/
theorem TCLBroker.epochs_eq_of_forward (run : BlockRun η) {blocks' : List (BlockInfoMsg η)}
    (hperm : blocks'.Perm run.blocks)
    (h : (reported run.blocks).Pairwise fun a b => link firsts gains b a = 0)
    (h' : (reported blocks').Pairwise fun a b => link firsts gains b a = 0) :
    (TCLBroker.run blocks').epochs = (TCLBroker.run run.blocks).epochs :=
  (epochs_eq_iff updateMeasureRecord_eq hperm).mpr
    (measured_eq_of_forward run.broker_keys (hperm.symm.filter _) h h').symm

/-- Two blocks with the phases of a transaction, proposed at 0 s and committed at 2 s and 5 s. -/
def twoPhases : BlockRun ℕ where
  blocks := [⟨1, 0, 1000000000, 2000000000, [], [⟨0, 1, 1⟩], [], [⟨0, 1, 1⟩], []⟩,
    ⟨1, 0, 3000000000, 5000000000, [], [], [⟨0, 1, 1⟩], [], [⟨0, 1, 1⟩]⟩]
  relay1_once := by decide
  broker1_once := by decide

/-- The latencies of the second phase are lost when it arrives first. -/
theorem twoPhases_reversed :
    ((TCLRelay.run twoPhases.blocks).epochs.map fun r =>
        (r.phase2CommitLatency, r.ctxCommitLatency)) = [(3000, 5000)] ∧
      ((TCLRelay.run twoPhases.blocks.reverse).epochs.map fun r =>
        (r.phase2CommitLatency, r.ctxCommitLatency)) = [(0, 0)] ∧
      ((TCLBroker.run twoPhases.blocks).epochs.map fun r =>
        (r.totTxLatency, r.ctxCommitLatency)) = [(5, 5000)] ∧
      ((TCLBroker.run twoPhases.blocks.reverse).epochs.map fun r =>
        (r.totTxLatency, r.ctxCommitLatency)) = [(0, 0)] := by
  decide +kernel

end BlockEmulator.Measure
