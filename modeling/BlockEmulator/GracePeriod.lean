import BlockEmulator.BatchNonces
import BlockEmulator.TrainedOnce

/-!
# The grace period of pending batches

A batch without feedback is pruned by the difference of the epoch and its number. The
epochs count the rounds of the consensus, the numbers count the batches that are injected,
and nothing ties one to the other. A batch has its full time where, when it is enqueued, the
epochs are not ahead of its number.

* `GraceSound` — the invariant.
* `grace_period` — **no batch is pruned before its time** in a run that keeps the epochs
  back, and one can be as soon as they get ahead.
-/

namespace BlockEmulator

open StepSystem

variable (p : SpringConfig) (sort : List SpringTrainBatch → List SpringTrainBatch)

/-! ## Runs with a clock -/

/-- The arguments of `springEnqueueTrainActionsLocked`, but for the number. -/
structure BatchActions where
  /-- `actions` -/
  actions : List OnlineAction
  /-- `txStartNonce` -/
  txStartNonce : ℕ
  /-- `txEndNonce` -/
  txEndNonce : ℕ
  /-- `txCount` -/
  txCount : ℕ
  /-- `isFinalBatch` -/
  isFinalBatch : Bool

/-- A batch that was pruned without feedback. -/
structure PrunedBatch where
  /-- `BatchID` -/
  batchID : ℕ
  /-- `currentEpoch` -/
  epoch : ℕ
  deriving DecidableEq

/-- The training of a policy, with the clock. -/
structure GraceRun where
  /-- the training -/
  training : TrainingRun
  /-- `springTxBatchSeq` -/
  springTxBatchSeq : ℕ
  /-- the last epoch that was completed -/
  clock : ℕ
  /-- the epoch at which a batch was enqueued -/
  enqueuedAt : ℕ → ℕ
  /-- the batches that were pruned without feedback -/
  pruned : List PrunedBatch

/-- What happens next. -/
inductive GraceEvent where
  /-- a batch is placed -/
  | batch (a : BatchActions)
  /-- an epoch is evaluated, with the progress of the data -/
  | evaluated (nowDataNum dataTotalNum : ℕ) (rewardRecord : SpringFeedbackRewardRecord)
  /-- an epoch has no record -/
  | skipped (epoch : ℕ)

/-- The batches that are pending before a record, have no feedback, also not by the record,
and are not pending after it. -/
def unanswered (before after : List SpringTrainBatch) (record : SpringFeedbackRewardRecord) :
    List PrunedBatch :=
  (before.filter fun b => b.feedbackAggregate.count = 0 ∧ b.batchID ∉ record.decisionBatchIDs ∧
    b.batchID ∉ after.map (·.batchID)).map fun b => ⟨b.batchID, record.epoch⟩

namespace GraceRun

/-- Before the first batch. -/
def new : GraceRun := ⟨.new, 0, 0, fun _ => 0, []⟩

/-- The number of the next batch. -/
def nextID (s : GraceRun) : ℕ := s.springTxBatchSeq + 1

/-- The call that enqueues the next batch. -/
def enqueueArgs (s : GraceRun) (a : BatchActions) : TrainBatchArgs :=
  ⟨s.nextID, a.actions, a.txStartNonce, a.txEndNonce, a.txCount, a.isFinalBatch⟩

/-- One step. -/
def step (s : GraceRun) : GraceEvent → Option GraceRun
  | .batch a =>
    let moved := { s with springTxBatchSeq := s.nextID }
    if a.actions = [] then some moved
    else (s.training.step p sort (.enqueue (s.enqueueArgs a))).map fun training =>
      { moved with
        training := training
        enqueuedAt := Function.update s.enqueuedAt s.nextID s.clock }
  | .evaluated nowDataNum dataTotalNum record =>
    (s.training.step p sort (.feedback nowDataNum dataTotalNum record)).map fun training =>
      { s with
        training := training
        clock := max s.clock record.epoch
        pruned := s.pruned ++ unanswered s.training.state.springPendingTrainBatches
          training.state.springPendingTrainBatches record }
  | .skipped epoch => some { s with clock := max s.clock epoch }

/-- The epochs are not ahead of the batch that is enqueued. -/
def InTime (s : GraceRun) : GraceEvent → Prop
  | .batch a => a.actions = [] ∨ s.clock ≤ s.nextID + 1
  | .evaluated _ _ _ | .skipped _ => True

/-- No batch was pruned before its time. -/
def FullGrace (s : GraceRun) : Prop :=
  ∀ e ∈ s.pruned, s.enqueuedAt e.batchID + springPendingFeedbackTTL ≤ e.epoch

instance (s : GraceRun) : Decidable s.FullGrace :=
  inferInstanceAs (Decidable (∀ e ∈ s.pruned, _))

instance (s : GraceRun) : ∀ a, Decidable (s.InTime a)
  | .batch a => inferInstanceAs (Decidable (a.actions = [] ∨ _))
  | .evaluated _ _ _ | .skipped _ => .isTrue trivial

end GraceRun

/-! ## Numbers that are given once -/

/-- The numbers of the batches that some calls enqueue. -/
def enqueuedIDs (calls : List TrainingCall) : List ℕ :=
  calls.filterMap fun call => match call with
    | .enqueue args => some args.batchID
    | .feedback _ _ _ | .prune _ => none

@[simp] theorem enqueuedIDs_append (calls calls' : List TrainingCall) :
    enqueuedIDs (calls ++ calls') = enqueuedIDs calls ++ enqueuedIDs calls' :=
  List.filterMap_append

@[simp] theorem enqueuedIDs_enqueue (args : TrainBatchArgs) (calls : List TrainingCall) :
    enqueuedIDs (.enqueue args :: calls) = args.batchID :: enqueuedIDs calls := rfl

/-- A batch is enqueued, and nothing that follows names it. -/
def Unfed (calls : List TrainingCall) (bid : ℕ) : Prop :=
  ∃ earlier args later, calls = earlier ++ TrainingCall.enqueue args :: later ∧
    args.batchID = bid ∧ recordsFor bid later = []

/-- A pending batch without feedback. -/
theorem ComesFrom.unfed {calls : List TrainingCall} {batch : SpringTrainBatch}
    {records : List SpringFeedbackRewardRecord} (h : ComesFrom calls batch records)
    (hcount : batch.feedbackAggregate.count = 0) : Unfed calls batch.batchID := by
  have hnil : records = [] := List.length_eq_zero_iff.mp (h.count_eq.1 ▸ hcount)
  obtain ⟨earlier, args, later, hcalls, -, hrecords, rfl⟩ := h
  rw [SpringTrainBatch.collected_batchID]
  exact ⟨earlier, args, later, hcalls, rfl, hrecords.symm.trans hnil⟩

theorem Unfed.mem {calls : List TrainingCall} {bid : ℕ} (h : Unfed calls bid) :
    bid ∈ enqueuedIDs calls := by
  obtain ⟨earlier, args, later, rfl, rfl, -⟩ := h
  simp

/-- A record that does not name it changes nothing. -/
theorem Unfed.append_feedback {calls : List TrainingCall} {bid : ℕ} (h : Unfed calls bid)
    (nowDataNum dataTotalNum : ℕ) {record : SpringFeedbackRewardRecord}
    (hnot : bid ∉ record.decisionBatchIDs) :
    Unfed (calls ++ [.feedback nowDataNum dataTotalNum record]) bid := by
  obtain ⟨earlier, args, later, rfl, rfl, hnil⟩ := h
  refine ⟨earlier, args, later ++ [.feedback nowDataNum dataTotalNum record], by simp, rfl, ?_⟩
  rw [recordsFor, List.filterMap_append, List.filter_append]
  rw [recordsFor] at hnil
  simp [hnil, TrainingCall.record, hnot]

/-- A number is given in one call. -/
theorem later_eq_of_nodup {earlier earlier' later later' : List TrainingCall}
    {args args' : TrainBatchArgs}
    (h : earlier ++ .enqueue args :: later = earlier' ++ .enqueue args' :: later')
    (hid : args.batchID = args'.batchID)
    (hnodup : (enqueuedIDs (earlier ++ .enqueue args :: later)).Nodup) : later = later' := by
  induction earlier generalizing earlier' with
  | nil =>
    cases earlier' with
    | nil => exact (List.cons.inj h).2
    | cons call earlier' =>
      obtain ⟨rfl, rfl⟩ := List.cons.inj h
      simp [hid] at hnodup
  | cons call earlier ih =>
    cases earlier' with
    | nil =>
      obtain ⟨rfl, rfl⟩ := List.cons.inj h
      simp [hid] at hnodup
    | cons call' earlier' =>
      refine ih (List.cons.inj h).2 ?_
      rw [List.cons_append, ← List.singleton_append, enqueuedIDs_append] at hnodup
      exact (List.nodup_append.mp hnodup).2.1

/-- Where every number is given once, what is emitted is fed. -/
theorem Unfed.not_emitted {calls : List TrainingCall} {bid : ℕ} (h : Unfed calls bid)
    (hnodup : (enqueuedIDs calls).Nodup) {u : SpringOnlineUpdateInput}
    (hu : EmittedFrom p calls u) : bid ∉ u.matchedBatchIDs := by
  obtain ⟨ready, -, hids, -, hfrom⟩ := hu
  intro hmem
  rw [hids] at hmem
  obtain ⟨b, hb, rfl⟩ := List.mem_map.mp hmem
  obtain ⟨part, records, ⟨rest, hpart⟩, hcomes, hone, -⟩ := hfrom b hb
  obtain ⟨earlier, args, later, rfl, -, hrecords, rfl⟩ := hcomes
  obtain ⟨earlier', args', later', hcalls, hid, hnil⟩ := h
  rw [SpringTrainBatch.collected_batchID] at hid hnil
  have hsplit : earlier ++ .enqueue args :: (later ++ rest) =
      earlier' ++ .enqueue args' :: later' := by
    rw [← hcalls, ← hpart, List.append_assoc, List.cons_append]
  have hlater : later ++ rest = later' := by
    refine later_eq_of_nodup hsplit hid.symm ?_
    rwa [hsplit, ← hcalls]
  rw [← hlater, recordsFor, List.filterMap_append, List.filter_append] at hnil
  have hempty : records = [] := hrecords.trans (List.append_eq_nil_iff.mp hnil).1
  rw [hempty] at hone
  exact absurd hone (Nat.not_succ_le_zero 0)

/-! ## The invariant -/

/-- What holds after any steps. -/
structure GraceSound (p : SpringConfig) (s : GraceRun) : Prop where
  /-- the training -/
  training : TrainingSound p s.training
  /-- the numbers are those that were counted -/
  ids : ∀ bid ∈ enqueuedIDs s.training.calls, bid ≤ s.springTxBatchSeq
  /-- each is given once -/
  nodup : (enqueuedIDs s.training.calls).Nodup
  /-- what was pruned was enqueued -/
  pruned : ∀ e ∈ s.pruned, e.batchID ∈ enqueuedIDs s.training.calls

/-- What holds where the epochs are not ahead. -/
structure GraceStamped (s : GraceRun) : Prop where
  /-- the epoch at which a batch was enqueued -/
  stamped : ∀ bid ∈ enqueuedIDs s.training.calls, s.enqueuedAt bid ≤ bid + 1
  /-- and the claim itself -/
  full : s.FullGrace

variable {p sort} {s s' : GraceRun}

theorem GraceSound.new (p : SpringConfig) : GraceSound p .new where
  training := .new p
  ids _ hbid := absurd hbid List.not_mem_nil
  nodup := List.nodup_nil
  pruned _ he := absurd he List.not_mem_nil

theorem GraceStamped.new : GraceStamped .new where
  stamped _ hbid := absurd hbid List.not_mem_nil
  full _ he := absurd he List.not_mem_nil

/-- The calls are kept in order. -/
theorem calls_of_step {run run' : TrainingRun} {call : TrainingCall}
    (h : run.step p sort call = some run') : run'.calls = run.calls ++ [call] := by
  cases call with
  | enqueue args => rw [← Option.some.inj h]
  | feedback nowDataNum dataTotalNum record => rw [← Option.some.inj h]
  | prune currentEpoch => rw [← Option.some.inj h]

/-- A record enqueues nothing. -/
theorem enqueuedIDs_feedback {run run' : TrainingRun} {nowDataNum dataTotalNum : ℕ}
    {record : SpringFeedbackRewardRecord}
    (h : run.step p sort (.feedback nowDataNum dataTotalNum record) = some run') :
    enqueuedIDs run'.calls = enqueuedIDs run.calls := by
  rw [calls_of_step h, enqueuedIDs_append]
  exact List.append_nil _

/-- A batch is enqueued under the next number. -/
theorem enqueuedIDs_batch {a : BatchActions} {training : TrainingRun}
    (h : s.training.step p sort (.enqueue (s.enqueueArgs a)) = some training) :
    enqueuedIDs training.calls = enqueuedIDs s.training.calls ++ [s.nextID] := by
  rw [calls_of_step h, enqueuedIDs_append]
  rfl

/-- What is logged as pruned was pending without feedback, and its number is nobody's. -/
theorem mem_unanswered {before after : List SpringTrainBatch}
    {record : SpringFeedbackRewardRecord} {e : PrunedBatch} :
    e ∈ unanswered before after record ↔
      e.epoch = record.epoch ∧ ∃ b ∈ before, b.batchID = e.batchID ∧
        b.feedbackAggregate.count = 0 ∧ b.batchID ∉ record.decisionBatchIDs ∧
        b.batchID ∉ after.map (·.batchID) := by
  rw [unanswered, List.mem_map]
  constructor
  · rintro ⟨b, hb, rfl⟩
    obtain ⟨hmem, hkept⟩ := List.mem_filter.mp hb
    exact ⟨rfl, b, hmem, rfl, of_decide_eq_true hkept⟩
  · rintro ⟨hepoch, b, hmem, hid, hkept⟩
    refine ⟨b, List.mem_filter.mpr ⟨hmem, decide_eq_true hkept⟩, ?_⟩
    rw [hid, ← hepoch]

/-- **Why a batch without feedback is pruned**: for the difference of the epoch and its
number. -/
theorem GraceSound.stale (hsort : SortsBatches sort) (h : GraceSound p s)
    {nowDataNum dataTotalNum : ℕ} {record : SpringFeedbackRewardRecord} {training : TrainingRun}
    (hs : s.training.step p sort (.feedback nowDataNum dataTotalNum record) = some training)
    {e : PrunedBatch} (he : e ∈ unanswered s.training.state.springPendingTrainBatches
      training.state.springPendingTrainBatches record) :
    e.batchID ∈ enqueuedIDs s.training.calls ∧
      e.batchID + springPendingFeedbackTTL < e.epoch := by
  obtain ⟨hepoch, b, hmem, hid, hcount, hnot, hgone⟩ := mem_unanswered.mp he
  obtain ⟨records, hcomes, -⟩ := h.training.pending b hmem
  have hunfed := hcomes.unfed hcount
  have hseen : TrainingCall.seen b (.feedback nowDataNum dataTotalNum record) = b := by
    rw [TrainingCall.seen]
    exact if_neg hnot
  rw [← hid, hepoch]
  refine ⟨hunfed.mem, ?_⟩
  rcases h.training.leaves hsort hs b hmem with hstays | hemitted | htrained | hstale
  · obtain ⟨b', hmem', hid', -⟩ := hstays
    exact absurd (List.mem_map.mpr ⟨b', hmem', hid'⟩) hgone
  · -- emitted now: then it was fed
    obtain ⟨u, hu, hbid⟩ := hemitted
    have hsound := h.training.step hsort hs
    have hafter := hunfed.append_feedback nowDataNum dataTotalNum hnot
    rw [← calls_of_step hs] at hafter
    have hlast : u ∈ training.updates := hu ▸ List.mem_append_right _ (List.mem_singleton_self u)
    refine absurd hbid (hafter.not_emitted p ?_ (hsound.emitted u hlast))
    rw [enqueuedIDs_feedback hs]
    exact h.nodup
  · -- trained before: then it was fed, too
    obtain ⟨u, hu, hbid⟩ := (h.training.trained b.batchID).mp htrained
    exact absurd hbid (hunfed.not_emitted p h.nodup (h.training.emitted u hu))
  · obtain ⟨epoch, hepoch', hstale⟩ := hstale
    obtain rfl : record.epoch = epoch := Option.some.inj hepoch'
    rw [hseen, SpringTrainBatch.stale, decide_eq_true_iff] at hstale
    rcases hstale with ⟨hpos, -⟩ | ⟨-, hold⟩
    · exact absurd hcount hpos.ne'
    · omega

/-- Every step keeps what holds after any steps. -/
theorem GraceSound.step (hsort : SortsBatches sort) (h : GraceSound p s) {a : GraceEvent}
    (hs : s.step p sort a = some s') : GraceSound p s' := by
  cases a with
  | batch a =>
    rw [GraceRun.step] at hs
    split at hs
    · obtain rfl := Option.some.inj hs
      exact ⟨h.training, fun bid hbid => (h.ids bid hbid).trans (Nat.le_succ _), h.nodup, h.pruned⟩
    · obtain ⟨training, htraining, rfl⟩ := Option.map_eq_some_iff.mp hs
      have hids := enqueuedIDs_batch htraining
      refine ⟨h.training.step hsort htraining, fun bid hbid => ?_, ?_, fun e he => ?_⟩
      · rw [hids] at hbid
        rcases List.mem_append.mp hbid with hbid | hbid
        · exact (h.ids bid hbid).trans (Nat.le_succ _)
        · exact (List.mem_singleton.mp hbid).le
      · have hfresh : s.nextID ∉ enqueuedIDs s.training.calls := fun hmem =>
          absurd (h.ids _ hmem) (Nat.not_succ_le_self _)
        rw [hids]
        exact h.nodup.append (List.nodup_singleton _) (List.disjoint_singleton.mpr hfresh)
      · rw [hids]
        exact List.mem_append_left _ (h.pruned e he)
  | evaluated nowDataNum dataTotalNum record =>
    rw [GraceRun.step] at hs
    obtain ⟨training, htraining, rfl⟩ := Option.map_eq_some_iff.mp hs
    have hids := enqueuedIDs_feedback htraining
    refine ⟨h.training.step hsort htraining, ?_, ?_, fun e he => ?_⟩
    · rw [hids]
      exact h.ids
    · rw [hids]
      exact h.nodup
    · rw [hids]
      rcases List.mem_append.mp he with he | he
      · exact h.pruned e he
      · exact (h.stale hsort htraining he).1
  | skipped epoch =>
    obtain rfl := Option.some.inj hs
    exact ⟨h.training, h.ids, h.nodup, h.pruned⟩

/-- A step that keeps the epochs back keeps the grace period. -/
theorem GraceStamped.step (hsort : SortsBatches sort) (hsound : GraceSound p s)
    (h : GraceStamped s) {a : GraceEvent} (hok : s.InTime a) (hs : s.step p sort a = some s') :
    GraceStamped s' := by
  cases a with
  | batch a =>
    rw [GraceRun.step] at hs
    split at hs
    · obtain rfl := Option.some.inj hs
      exact ⟨h.stamped, h.full⟩
    · rename_i hactions
      obtain ⟨training, htraining, rfl⟩ := Option.map_eq_some_iff.mp hs
      -- the stamps of the batches before stay
      have hold : ∀ bid ∈ enqueuedIDs s.training.calls,
          Function.update s.enqueuedAt s.nextID s.clock bid = s.enqueuedAt bid := fun bid hbid =>
        Function.update_of_ne (Nat.lt_succ_of_le (hsound.ids bid hbid)).ne _ _
      refine ⟨fun bid hbid => ?_, fun e he => ?_⟩
      · rw [enqueuedIDs_batch htraining] at hbid
        rcases List.mem_append.mp hbid with hbid | hbid
        · exact (hold bid hbid).trans_le (h.stamped bid hbid)
        · rw [List.mem_singleton.mp hbid]
          have hnew : Function.update s.enqueuedAt s.nextID s.clock s.nextID = s.clock :=
            Function.update_self _ _ _
          exact hnew.trans_le (hok.resolve_left hactions)
      · exact (Nat.add_le_add_right (hold _ (hsound.pruned e he)).le _).trans (h.full e he)
  | evaluated nowDataNum dataTotalNum record =>
    rw [GraceRun.step] at hs
    obtain ⟨training, htraining, rfl⟩ := Option.map_eq_some_iff.mp hs
    refine ⟨?_, fun e he => ?_⟩
    · rw [enqueuedIDs_feedback htraining]
      exact h.stamped
    · rcases List.mem_append.mp he with he | he
      · exact h.full e he
      · obtain ⟨hmem, hlt⟩ := hsound.stale hsort htraining he
        have hstamp := h.stamped e.batchID hmem
        change s.enqueuedAt e.batchID + springPendingFeedbackTTL ≤ e.epoch
        omega
  | skipped epoch =>
    obtain rfl := Option.some.inj hs
    exact ⟨h.stamped, h.full⟩

/-! ## The condition -/

/-- **In a run that keeps the epochs back**, no batch is pruned before its time. -/
theorem fullGrace_of_inTime (hsort : SortsBatches sort)
    (hr : Reaches (GraceRun.step p sort) GraceRun.InTime .new s) : s.FullGrace := by
  have hboth : GraceSound p s ∧ GraceStamped s := by
    apply hr.invariant (fun s => GraceSound p s ∧ GraceStamped s) ⟨.new p, .new⟩
    intro s a s' h hok hs
    exact ⟨h.1.step hsort hs, h.2.step hsort h.1 hok hs⟩
  exact hboth.2.full

/-- A record of some epoch, which names no batch. -/
def silentRecord (epoch : ℕ) : SpringFeedbackRewardRecord :=
  { epoch := epoch, totalTx := 1, totalInner := 1, totalRelay1 := 0, totalRelay2 := 0,
    effectiveTx := 1, crossTx := 0, loads := [], effectiveLoads := [], inners := [],
    relay1 := [], relay2 := [], decisionBatchIDs := [], crossRate := 0,
    rawLoadVariance := 0, normalizedLoadVariance := 0, rCSTR := 0, rWLB := 0, absLoadDiff := 0,
    communicationCost := 0, communicationCostSum := 0, communicationCostCount := 0,
    maxLoadShare := 0, hotspotPenalty := 0, reward := 1, rewardMode := .springLegacy,
    lambda := 0, beta := 0, iotCSTRWeight := 0, iotBalanceWeight := 0, iotCommCostWeight := 0,
    iotHotspotWeight := 0, iotHotspotThreshold := 0, runningAvgCrossRate := 0,
    runningAvgReward := 0, runningAvgNormVar := 0, rewardedEpochCount := 1 }

/-- The batch that is enqueued is pending, alone with its number, and without feedback. -/
theorem GraceSound.enqueued (h : GraceSound p s) {a : BatchActions} (hactions : a.actions ≠ [])
    {training : TrainingRun}
    (hs : s.training.step p sort (.enqueue (s.enqueueArgs a)) = some training) :
    (s.enqueueArgs a).newBatch ∈ training.state.springPendingTrainBatches ∧
      ∀ b ∈ training.state.springPendingTrainBatches, b.batchID = s.nextID →
        b = (s.enqueueArgs a).newBatch := by
  obtain rfl := Option.some.inj hs
  have hless : ∀ b ∈ s.training.state.springPendingTrainBatches, b.batchID ≠ s.nextID := by
    intro b hmem hid
    obtain ⟨records, hcomes, -⟩ := h.training.pending b hmem
    obtain ⟨earlier, args, later, hcalls, -, -, rfl⟩ := hcomes
    rw [SpringTrainBatch.collected_batchID] at hid
    have hmem : args.batchID ∈ enqueuedIDs s.training.calls := by
      rw [hcalls]
      simp
    have hle := h.ids _ hmem
    have hid' : args.batchID = s.nextID := hid
    rw [hid'] at hle
    exact Nat.not_succ_le_self _ hle
  refine ⟨?_, fun b hmem hid => ?_⟩
  · have hne : ¬ ((s.enqueueArgs a).batchID = 0 ∨ (s.enqueueArgs a).actions = []) :=
      not_or.mpr ⟨Nat.succ_ne_zero _, hactions⟩
    dsimp only
    rw [TrainingState.springEnqueueTrainActionsLocked, if_neg hne]
    split
    · rename_i last hlast
      have hother : last.batchID ≠ (s.enqueueArgs a).batchID :=
        hless last (List.mem_of_getLast? hlast)
      rw [if_neg hother]
      exact List.mem_append_right _ (List.mem_singleton_self _)
    · exact List.mem_append_right _ (List.mem_singleton_self _)
  · rcases mem_enqueue hmem with hmem | ⟨-, rfl⟩
    · exact absurd hid (hless b hmem)
    · rfl

/-- **Where the epochs get ahead**, the batch can be pruned before its time. -/
theorem pruned_early (hsort : SortsBatches sort) (h : GraceSound p s) {a : BatchActions}
    (hlate : ¬ s.InTime (.batch a)) (hs : s.step p sort (.batch a) = some s') :
    ∃ record s'', s'.clock < record.epoch ∧ s'.step p sort (.evaluated 0 1 record) = some s'' ∧
      ¬ s''.FullGrace := by
  obtain ⟨hactions, hahead⟩ := not_or.mp hlate
  rw [GraceRun.step, if_neg hactions] at hs
  obtain ⟨training, htraining, rfl⟩ := Option.map_eq_some_iff.mp hs
  obtain ⟨hnew, halone⟩ := h.enqueued hactions htraining
  -- the first epoch at which it is stale
  let epoch := max (s.clock + 1) (s.nextID + springPendingFeedbackTTL + 1)
  have hsound := h.training.step hsort htraining
  obtain ⟨flush, flush', ready, remaining, hcollects, hpending, -⟩ :=
    springBuildOnlineUpdateInputLocked_spec (p := p) hsort training.state 0 1 (silentRecord epoch)
      hsound.bounded
  refine ⟨silentRecord epoch, _, lt_max_of_lt_left (Nat.lt_succ_self _), rfl, fun hfull => ?_⟩
  have hgone : s.nextID ∉ ((training.state.springBuildOnlineUpdateInputLocked p sort 0 1
      (silentRecord epoch)).1.springPendingTrainBatches).map (·.batchID) := by
    intro hmem
    obtain ⟨b, hb, hid⟩ := List.mem_map.mp hmem
    rw [hpending] at hb
    obtain ⟨hremaining, hkept⟩ := List.mem_filter.mp hb
    obtain ⟨b₀, hb₀, hafter, -⟩ := (hcollects.remaining b hremaining).resolve_left List.not_mem_nil
    rw [hafter, SpringTrainBatch.afterFeedback_batchID] at hid
    rw [hafter, halone b₀ hb₀ hid] at hkept
    have hsame : (s.enqueueArgs a).newBatch.afterFeedback (silentRecord epoch) =
        (s.enqueueArgs a).newBatch := if_neg List.not_mem_nil
    have hstale : (s.enqueueArgs a).newBatch.stale epoch = true := by
      refine decide_eq_true (.inr ⟨rfl, ?_⟩)
      have hle : s.nextID + springPendingFeedbackTTL + 1 ≤ epoch := le_max_right _ _
      change (springPendingFeedbackTTL : ℤ) < (epoch : ℤ) - (s.nextID : ℤ)
      omega
    rw [hsame] at hkept
    simp [silentRecord, hstale] at hkept
  have hlogged := hfull ⟨s.nextID, epoch⟩ (List.mem_append_right _ (mem_unanswered.mpr
    ⟨rfl, _, hnew, rfl, rfl, List.not_mem_nil, hgone⟩))
  have hstamp : Function.update s.enqueuedAt s.nextID s.clock s.nextID = s.clock :=
    Function.update_self _ _ _
  change Function.update s.enqueuedAt s.nextID s.clock s.nextID + springPendingFeedbackTTL ≤
    epoch at hlogged
  rw [hstamp] at hlogged
  simp only [epoch, springPendingFeedbackTTL] at hlogged
  omega

/-- **The grace period of a pending batch**: in every run in which no batch is enqueued with
the epochs ahead of its number, each batch that is pruned without feedback has had its
time; and where one is, there is a next epoch that prunes it too early. -/
theorem grace_period (hsort : SortsBatches sort) :
    (∀ s, Reaches (GraceRun.step p sort) GraceRun.InTime .new s → s.FullGrace) ∧
    ∀ s a s', Reaches (GraceRun.step p sort) (fun _ _ => True) .new s → ¬ s.InTime (.batch a) →
      s.step p sort (.batch a) = some s' →
      ∃ record s'', s'.clock < record.epoch ∧
        s'.step p sort (.evaluated 0 1 record) = some s'' ∧ ¬ s''.FullGrace := by
  refine ⟨fun s hr => fullGrace_of_inTime hsort hr, fun s a s' hr hlate hs => ?_⟩
  have hsound : GraceSound p s :=
    hr.invariant (GraceSound p) (.new p) fun _ _ _ h _ hstep => h.step hsort hstep
  exact pruned_early hsort hsound hlate hs

/-- A batch with one action. -/
def oneAction : BatchActions where
  actions := [{
    batchID := 1, address := "a", related := "", state := [], nextState := [], action := 0,
    logProb := 0, value := 0, entropy := 0, confidence := 0, localReward := 0,
    relatedKnown := false, relatedShard := none, relatedWeight := 0, relatedCount := 0,
    senderPos := [], actionMask := [], sameAsRelated := false, relatedInCurrentBatch := false,
    shardLoadBefore := 0, shardLoadMeanBefore := 0, loadPenalty := 0, reward := 0, done := false }]
  txStartNonce := 0
  txEndNonce := 0
  txCount := 1
  isFinalBatch := false

/-- The batches in a stable order. -/
def stableSort (l : List SpringTrainBatch) : List SpringTrainBatch :=
  l.mergeSort fun a b => decide (a.batchID ≤ b.batchID)

/-- The first batch, enqueued after two epochs, is pruned at the twelfth, as it may be. -/
theorem pruned_in_time : ∃ s : GraceRun, s.pruned = [⟨1, 12⟩] ∧ s.FullGrace := by
  have hrun : (runWith (GraceRun.step (.default 2) stableSort) GraceRun.InTime .new
      [.skipped 1, .evaluated 0 1 (silentRecord 2), .batch oneAction,
        .evaluated 0 1 (silentRecord 11), .evaluated 0 1 (silentRecord 12)]).any
        (fun s => decide (s.pruned = [⟨1, 12⟩])) = true := by
    decide +kernel
  obtain ⟨s, hr, hpruned⟩ := Reaches.exists_of_runWith hrun
  exact ⟨s, hpruned, (grace_period mergeSort_sortsBatches).1 s hr⟩

/-- The first batch, enqueued after twenty epochs, is pruned at the next one. -/
theorem pruned_at_once : ¬ ∀ s, Reaches (GraceRun.step (.default 2) stableSort)
    (fun _ _ => True) .new s → s.FullGrace := by
  intro hall
  have hrun : (runWith (GraceRun.step (.default 2) stableSort) (fun _ _ => True) .new
      [.evaluated 0 1 (silentRecord 20), .batch oneAction, .evaluated 0 1 (silentRecord 21)]).any
        (fun s => decide (¬ s.FullGrace)) = true := by
    decide +kernel
  obtain ⟨s, hr, hearly⟩ := Reaches.exists_of_runWith hrun
  exact hearly (hall s hr)

end BlockEmulator
