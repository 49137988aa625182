import BlockEmulator.SpringTraining
import BlockEmulator.StepSystem

/-!
# A batch is trained once

The calls of the training come in any order, with feedback of any epoch, and for batches
that are unknown, trained or pruned. What a pending batch holds is determined by the call
that enqueued it and the calls since: all feedback that names it, and no other.

* `ComesFrom` — where a batch comes from, and the feedback it has.
* `springBuildOnlineUpdateInputLocked_spec` — what one record of feedback does.
* `TrainingSound` — the invariant, and `batch_trained_once`, what follows from it.
-/

namespace BlockEmulator

open StepSystem

/-! ## The feedback of a batch -/

/-- The record that a call brings. -/
def TrainingCall.record : TrainingCall → Option SpringFeedbackRewardRecord
  | .feedback _ _ rewardRecord => some rewardRecord
  | .enqueue _ | .prune _ => none

/-- The records among some calls that name a batch. -/
def recordsFor (bid : ℕ) (calls : List TrainingCall) : List SpringFeedbackRewardRecord :=
  (calls.filterMap TrainingCall.record).filter fun record => bid ∈ record.decisionBatchIDs

namespace SpringTrainBatch

/-- A batch with records of feedback. -/
def collected (batch : SpringTrainBatch) (records : List SpringFeedbackRewardRecord) :
    SpringTrainBatch :=
  records.foldl matchFeedback batch

/-- A batch after a record of feedback, which may name it. -/
def afterFeedback (batch : SpringTrainBatch) (record : SpringFeedbackRewardRecord) :
    SpringTrainBatch :=
  if batch.batchID ∈ record.decisionBatchIDs then batch.matchFeedback record else batch

variable (batch : SpringTrainBatch) (record : SpringFeedbackRewardRecord)
  (records : List SpringFeedbackRewardRecord)

theorem collected_concat : batch.collected (records ++ [record]) =
    (batch.collected records).matchFeedback record := by
  rw [collected, List.foldl_append]
  rfl

@[simp] theorem collected_batchID : (batch.collected records).batchID = batch.batchID := by
  induction records using List.reverseRecOn with
  | nil => rfl
  | append_singleton records record ih => rw [collected_concat]; exact ih

@[simp] theorem collected_actions : (batch.collected records).actions = batch.actions := by
  induction records using List.reverseRecOn with
  | nil => rfl
  | append_singleton records record ih => rw [collected_concat]; exact ih

/-- Each record is counted. -/
theorem collected_feedbackMatches :
    (batch.collected records).feedbackMatches = batch.feedbackMatches + records.length := by
  induction records using List.reverseRecOn with
  | nil => rfl
  | append_singleton records record ih =>
    rw [collected_concat, List.length_append, ← add_assoc, ← ih]
    rfl

theorem collected_count : (batch.collected records).feedbackAggregate.count =
    batch.feedbackAggregate.count + records.length := by
  induction records using List.reverseRecOn with
  | nil => rfl
  | append_singleton records record ih =>
    rw [collected_concat, List.length_append, ← add_assoc, ← ih]
    rfl

theorem weightSum_lt_add (agg : SpringFeedbackAggregate) (weight : ℚ) :
    agg.weightSum < (agg.add record weight).weightSum := by
  rw [SpringFeedbackAggregate.add]
  dsimp only
  split
  · linarith
  · linarith

/-- And adds to the weight. -/
theorem collected_weightSum (h : batch.feedbackAggregate.weightSum = 0) (hne : records ≠ []) :
    0 < (batch.collected records).feedbackAggregate.weightSum := by
  have hle : ∀ records, 0 ≤ (batch.collected records).feedbackAggregate.weightSum := by
    intro records
    induction records using List.reverseRecOn with
    | nil => exact h.ge
    | append_singleton records record ih =>
      rw [collected_concat]
      exact ih.trans (weightSum_lt_add record _ _).le
  obtain ⟨init, last, rfl⟩ := List.eq_nil_or_concat records |>.resolve_left hne
  rw [List.concat_eq_append, collected_concat]
  exact (hle init).trans_lt (weightSum_lt_add last _ _)

@[simp] theorem afterFeedback_batchID : (batch.afterFeedback record).batchID = batch.batchID := by
  rw [afterFeedback]
  split
  · rfl
  · rfl

@[simp] theorem afterFeedback_actions : (batch.afterFeedback record).actions = batch.actions := by
  rw [afterFeedback]
  split
  · rfl
  · rfl

end SpringTrainBatch

/-- Where a batch comes from: the call that enqueued it, and of the calls since then the
records that name it. -/
def ComesFrom (calls : List TrainingCall) (batch : SpringTrainBatch)
    (records : List SpringFeedbackRewardRecord) : Prop :=
  ∃ earlier args later, calls = earlier ++ TrainingCall.enqueue args :: later ∧
    args.actions ≠ [] ∧ records = recordsFor args.batchID later ∧
    batch = args.newBatch.collected records

namespace ComesFrom

variable {calls : List TrainingCall} {batch : SpringTrainBatch}
  {records : List SpringFeedbackRewardRecord}

theorem newBatch (calls : List TrainingCall) {args : TrainBatchArgs} (h : args.actions ≠ []) :
    ComesFrom (calls ++ [.enqueue args]) args.newBatch [] :=
  ⟨calls, args, [], rfl, h, rfl, rfl⟩

theorem actions_ne_nil (h : ComesFrom calls batch records) : batch.actions ≠ [] := by
  obtain ⟨earlier, args, later, -, hne, -, rfl⟩ := h
  rwa [SpringTrainBatch.collected_actions]

theorem count_eq (h : ComesFrom calls batch records) :
    batch.feedbackAggregate.count = records.length ∧ batch.feedbackMatches = records.length := by
  obtain ⟨earlier, args, later, -, -, -, rfl⟩ := h
  rw [SpringTrainBatch.collected_count, SpringTrainBatch.collected_feedbackMatches]
  exact ⟨Nat.zero_add _, Nat.zero_add _⟩

theorem weightSum_pos (h : ComesFrom calls batch records) (hne : records ≠ []) :
    0 < batch.feedbackAggregate.weightSum := by
  obtain ⟨earlier, args, later, -, -, -, rfl⟩ := h
  exact SpringTrainBatch.collected_weightSum _ _ rfl hne

/-- A call without feedback changes nothing. -/
theorem append_silent (h : ComesFrom calls batch records) {call : TrainingCall}
    (hcall : call.record = none) : ComesFrom (calls ++ [call]) batch records := by
  obtain ⟨earlier, args, later, rfl, hne, rfl, rfl⟩ := h
  refine ⟨earlier, args, later ++ [call], by simp, hne, ?_, rfl⟩
  simp [recordsFor, List.filterMap_append, hcall]

/-- Feedback is added where it names the batch. -/
theorem append_feedback (h : ComesFrom calls batch records) (nowDataNum dataTotalNum : ℕ)
    (record : SpringFeedbackRewardRecord) :
    ∃ records', ComesFrom (calls ++ [.feedback nowDataNum dataTotalNum record])
      (batch.afterFeedback record) records' ∧ records'.length ≤ records.length + 1 := by
  obtain ⟨earlier, args, later, rfl, hne, rfl, rfl⟩ := h
  have hlater : recordsFor args.batchID (later ++ [.feedback nowDataNum dataTotalNum record]) =
      recordsFor args.batchID later ++
        if args.batchID ∈ record.decisionBatchIDs then [record] else [] := by
    rw [recordsFor, List.filterMap_append, List.filter_append]
    simp [recordsFor, TrainingCall.record, List.filter_singleton]
  refine ⟨_, ⟨earlier, args, later ++ [.feedback nowDataNum dataTotalNum record], by simp, hne,
    rfl, ?_⟩, ?_⟩
  · have hid : (args.newBatch.collected (recordsFor args.batchID later)).batchID = args.batchID :=
      SpringTrainBatch.collected_batchID _ _
    rw [hlater, SpringTrainBatch.afterFeedback, hid]
    by_cases hnamed : args.batchID ∈ record.decisionBatchIDs
    · rw [if_pos hnamed, if_pos hnamed, SpringTrainBatch.collected_concat]
    · rw [if_neg hnamed, if_neg hnamed, List.append_nil]
  · rw [hlater]
    split
    · simp
    · simp

end ComesFrom

/-! ## The loop over the pending batches -/

theorem ready_count {batch : SpringTrainBatch} {epoch : ℕ} {flush : Bool}
    (h : springBatchReadyForTraining batch epoch flush = true) :
    0 < batch.feedbackAggregate.count := by
  rw [springBatchReadyForTraining] at h
  split at h
  · cases h
  · rename_i hnot
    exact Nat.pos_of_ne_zero fun hzero => hnot (.inl hzero)

/-- A batch that is not ready lacks feedback. -/
theorem not_ready_count {batch : SpringTrainBatch} {epoch : ℕ} {flush : Bool}
    (h : springBatchReadyForTraining batch epoch flush = false) :
    batch.feedbackAggregate.count = 0 ∨ batch.feedbackAggregate.weightSum ≤ 0 ∨
      batch.feedbackAggregate.count < springMaxTrainFeedbackMatches := by
  by_contra hall
  obtain ⟨hcount, hweight, hmax⟩ := by simpa only [not_or] using hall
  rw [springBatchReadyForTraining, if_neg (not_or.mpr ⟨hcount, hweight⟩),
    if_pos (c := _ ≥ springMaxTrainFeedbackMatches) (not_lt.mp hmax), ite_self] at h
  cases h

/-- What the loop makes of the pending batches: the trained ones are dropped, and each
other one is ready or remains, with its feedback. -/
structure Collects (trained : ℕ → Bool) (record : SpringFeedbackRewardRecord)
    (pending : List SpringTrainBatch) (c c' : Collecting) : Prop where
  /-- where a ready batch comes from -/
  ready : ∀ b ∈ c'.readyBatches, b ∈ c.readyBatches ∨
    ∃ b₀ ∈ pending, trained b₀.batchID = false ∧ b = b₀.afterFeedback record ∧
      0 < b.feedbackAggregate.count
  /-- and one that remains -/
  remaining : ∀ b ∈ c'.remainingBatches, b ∈ c.remainingBatches ∨
    ∃ b₀ ∈ pending, b = b₀.afterFeedback record ∧ (b.feedbackAggregate.count = 0 ∨
      b.feedbackAggregate.weightSum ≤ 0 ∨
      b.feedbackAggregate.count < springMaxTrainFeedbackMatches)
  /-- what was ready before stays so -/
  ready_mono : ∀ b ∈ c.readyBatches, b ∈ c'.readyBatches
  /-- and what remained -/
  remaining_mono : ∀ b ∈ c.remainingBatches, b ∈ c'.remainingBatches
  /-- no batch is lost -/
  all : ∀ b₀ ∈ pending, trained b₀.batchID = true ∨
    b₀.afterFeedback record ∈ c'.readyBatches ∨ b₀.afterFeedback record ∈ c'.remainingBatches

/-- One round of the loop. -/
theorem collectBatch_spec {trained : ℕ → Bool} (record : SpringFeedbackRewardRecord)
    (c : Collecting) {b₀ : SpringTrainBatch}
    (hb : b₀.feedbackMatches < springMaxTrainFeedbackMatches) :
    Collects trained record [b₀] c (collectBatch trained
      (record.decisionBatchIDs.filter fun bid => !trained bid) record c b₀) := by
  rw [collectBatch]
  rcases htrained : trained b₀.batchID
  · have hafter : (if b₀.batchID ∈ (record.decisionBatchIDs.filter fun bid => !trained bid) ∧
        b₀.feedbackMatches < springMaxTrainFeedbackMatches then b₀.matchFeedback record else b₀) =
        b₀.afterFeedback record := by
      simp [SpringTrainBatch.afterFeedback, htrained, hb]
    simp only [Bool.false_eq_true, if_false, hafter]
    split
    · rename_i hready
      refine ⟨fun b hmem => ?_, fun b hmem => .inl hmem, fun b hmem => List.mem_append_left _ hmem,
        fun b hmem => hmem, fun b hmem => ?_⟩
      · rcases List.mem_append.mp hmem with hmem | hmem
        · exact .inl hmem
        · obtain rfl := List.mem_singleton.mp hmem
          exact .inr ⟨b₀, List.mem_singleton_self _, htrained, rfl, ready_count hready⟩
      · obtain rfl := List.mem_singleton.mp hmem
        exact .inr (.inl (List.mem_append_right _ (List.mem_singleton_self _)))
    · rename_i hready
      refine ⟨fun b hmem => .inl hmem, fun b hmem => ?_, fun b hmem => hmem,
        fun b hmem => List.mem_append_left _ hmem, fun b hmem => ?_⟩
      · rcases List.mem_append.mp hmem with hmem | hmem
        · exact .inl hmem
        · obtain rfl := List.mem_singleton.mp hmem
          exact .inr ⟨b₀, List.mem_singleton_self _, rfl,
            not_ready_count (Bool.eq_false_iff.mpr hready)⟩
      · obtain rfl := List.mem_singleton.mp hmem
        exact .inr (.inr (List.mem_append_right _ (List.mem_singleton_self _)))
  · refine ⟨fun b hmem => .inl hmem, fun b hmem => .inl hmem, fun b hmem => hmem,
      fun b hmem => hmem, fun b hmem => ?_⟩
    obtain rfl := List.mem_singleton.mp hmem
    exact .inl htrained

/-- One part of the loop after another. -/
theorem Collects.append {trained : ℕ → Bool} {record : SpringFeedbackRewardRecord}
    {l l' : List SpringTrainBatch} {c c' c'' : Collecting} (h : Collects trained record l c c')
    (h' : Collects trained record l' c' c'') : Collects trained record (l ++ l') c c'' where
  ready := by
    intro b hmem
    rcases h'.ready b hmem with hmem | ⟨b₀, hmem₀, hfrom⟩
    · rcases h.ready b hmem with hmem | ⟨b₀, hmem₀, hfrom⟩
      · exact .inl hmem
      · exact .inr ⟨b₀, List.mem_append_left _ hmem₀, hfrom⟩
    · exact .inr ⟨b₀, List.mem_append_right _ hmem₀, hfrom⟩
  remaining := by
    intro b hmem
    rcases h'.remaining b hmem with hmem | ⟨b₀, hmem₀, hfrom⟩
    · rcases h.remaining b hmem with hmem | ⟨b₀, hmem₀, hfrom⟩
      · exact .inl hmem
      · exact .inr ⟨b₀, List.mem_append_left _ hmem₀, hfrom⟩
    · exact .inr ⟨b₀, List.mem_append_right _ hmem₀, hfrom⟩
  ready_mono := fun b hmem => h'.ready_mono b (h.ready_mono b hmem)
  remaining_mono := fun b hmem => h'.remaining_mono b (h.remaining_mono b hmem)
  all := by
    intro b hmem
    rcases List.mem_append.mp hmem with hmem | hmem
    · rcases h.all b hmem with htrained | hready | hremaining
      · exact .inl htrained
      · exact .inr (.inl (h'.ready_mono _ hready))
      · exact .inr (.inr (h'.remaining_mono _ hremaining))
    · exact h'.all b hmem

/-- The whole loop. -/
theorem collect_spec {trained : ℕ → Bool} (record : SpringFeedbackRewardRecord)
    {pending : List SpringTrainBatch}
    (hb : ∀ b ∈ pending, b.feedbackMatches < springMaxTrainFeedbackMatches) (c : Collecting) :
    Collects trained record pending c (pending.foldl (collectBatch trained
      (record.decisionBatchIDs.filter fun bid => !trained bid) record) c) := by
  induction pending generalizing c with
  | nil => exact ⟨fun b h => .inl h, fun b h => .inl h, fun b h => h, fun b h => h, by simp⟩
  | cons b₀ pending ih =>
    have hfirst : Collects trained record [b₀] c _ :=
      collectBatch_spec record c (hb b₀ List.mem_cons_self)
    exact hfirst.append (ih (fun b hmem => hb b (List.mem_cons_of_mem _ hmem)) _)

/-! ## One record of feedback -/

/-- What `sort.Slice` is documented to do with the batches. -/
def SortsBatches (sort : List SpringTrainBatch → List SpringTrainBatch) : Prop :=
  ∀ l, (sort l).Perm l ∧ (sort l).Pairwise fun a b => a.batchID ≤ b.batchID

variable {p : SpringConfig} {sort : List SpringTrainBatch → List SpringTrainBatch}

/-- **What one record of feedback does**: a request is emitted exactly when batches are
ready, and then these are marked as trained. -/
theorem springBuildOnlineUpdateInputLocked_spec (hsort : SortsBatches sort) (st : TrainingState)
    (nowDataNum dataTotalNum : ℕ) (record : SpringFeedbackRewardRecord)
    (hb : ∀ b ∈ st.springPendingTrainBatches,
      b.feedbackMatches < springMaxTrainFeedbackMatches ∧ b.actions ≠ []) :
    let r := st.springBuildOnlineUpdateInputLocked p sort nowDataNum dataTotalNum record
    ∃ (flush flush' : Bool) (ready remaining : List SpringTrainBatch),
      Collects st.springTrainedBatchIDs record st.springPendingTrainBatches ⟨flush, [], []⟩
        ⟨flush', ready, remaining⟩ ∧
      r.1.springPendingTrainBatches = remaining.filter (fun b =>
        !st.springTrainedBatchIDs b.batchID && !b.stale record.epoch) ∧
      (ready = [] ∧ r.2 = none ∧ r.1.springTrainedBatchIDs = st.springTrainedBatchIDs ∨
        ready ≠ [] ∧ r.2 = some (onlineUpdateInput p record flush' (sort ready)) ∧
          ∀ bid, r.1.springTrainedBatchIDs bid = true ↔
            bid ∈ (sort ready).map (·.batchID) ∨ st.springTrainedBatchIDs bid = true) := by
  let flush := decide (nowDataNum ≥ dataTotalNum)
  let c := st.springPendingTrainBatches.foldl (collectBatch st.springTrainedBatchIDs
    (record.decisionBatchIDs.filter fun bid => !st.springTrainedBatchIDs bid) record)
    ⟨flush, [], []⟩
  have hcollects : Collects st.springTrainedBatchIDs record st.springPendingTrainBatches
      ⟨flush, [], []⟩ c := collect_spec record (fun b hmem => (hb b hmem).1) _
  refine ⟨flush, c.flushUpdate, c.readyBatches, c.remainingBatches, hcollects, ?_⟩
  rw [TrainingState.springBuildOnlineUpdateInputLocked]
  split
  · rename_i hnil
    have hc : c = ⟨flush, [], []⟩ := by
      simp only [c, hnil, List.foldl_nil]
    rw [hc]
    exact ⟨hnil, .inl ⟨rfl, rfl, rfl⟩⟩
  · dsimp only
    split
    · rename_i hready
      exact ⟨rfl, .inl ⟨hready, rfl, rfl⟩⟩
    · rename_i hready
      -- no batch is without actions, so there are some in the request
      have hactions : (sort c.readyBatches).flatMap (shapedActions p) ≠ [] := by
        obtain ⟨b, hmem⟩ := List.exists_mem_of_ne_nil _ hready
        obtain ⟨b₀, hmem₀, -, rfl, -⟩ := (hcollects.ready b hmem).resolve_left (by simp)
        intro hnil
        have := List.flatMap_eq_nil_iff.mp hnil _ ((hsort _).1.mem_iff.mpr hmem)
        simp [shapedActions, (hb b₀ hmem₀).2] at this
      rw [if_neg hactions]
      refine ⟨rfl, .inr ⟨hready, rfl, fun bid => ?_⟩⟩
      change (decide (bid ∈ (sort c.readyBatches).map (·.batchID)) ||
        st.springTrainedBatchIDs bid) = true ↔ _
      rw [Bool.or_eq_true, decide_eq_true_iff]

/-! ## The last action -/

/-- Exactly the last action is marked. -/
theorem markLastDone_spec {actions : List OnlineAction} (hne : actions ≠ [])
    (h : ∀ a ∈ actions, a.done = false) :
    ∃ init last, markLastDone actions = init ++ [last] ∧ last.done = true ∧
      ∀ a ∈ init, a.done = false := by
  obtain ⟨init, last, rfl⟩ := (List.eq_nil_or_concat actions).resolve_left hne
  rw [List.concat_eq_append] at h ⊢
  refine ⟨init, { last with done := true }, ?_, rfl, fun a ha => h a (List.mem_append_left _ ha)⟩
  rw [markLastDone, List.length_append, List.length_singleton, Nat.add_sub_cancel,
    List.modify_eq_take_cons_drop (by simp)]
  simp

/-! ## The invariant -/

/-- Whether a request is made of batches that each have between one and eight records of
feedback: those of the calls since the batch was enqueued that name it. -/
def EmittedFrom (p : SpringConfig) (calls : List TrainingCall) (u : SpringOnlineUpdateInput) :
    Prop :=
  ∃ ready : List SpringTrainBatch, ready ≠ [] ∧ u.matchedBatchIDs = ready.map (·.batchID) ∧
    u.actions = markLastDone (ready.flatMap (shapedActions p)) ∧
    ∀ b ∈ ready, ∃ part records, part <+: calls ∧ ComesFrom part b records ∧
      1 ≤ records.length ∧ records.length ≤ springMaxTrainFeedbackMatches

theorem EmittedFrom.append {calls : List TrainingCall} {u : SpringOnlineUpdateInput}
    (h : EmittedFrom p calls u) (call : TrainingCall) : EmittedFrom p (calls ++ [call]) u := by
  obtain ⟨ready, hne, hids, hactions, hfrom⟩ := h
  refine ⟨ready, hne, hids, hactions, fun b hmem => ?_⟩
  obtain ⟨part, records, hpart, hrest⟩ := hfrom b hmem
  exact ⟨part, records, hpart.trans (List.prefix_append _ _), hrest⟩

/-- What holds after any calls. -/
structure TrainingSound (p : SpringConfig) (run : TrainingRun) : Prop where
  /-- a pending batch has all feedback that names it, and is not full -/
  pending : ∀ b ∈ run.state.springPendingTrainBatches, ∃ records,
    ComesFrom run.calls b records ∧ records.length < springMaxTrainFeedbackMatches
  /-- a batch is trained when it was emitted -/
  trained : ∀ bid, run.state.springTrainedBatchIDs bid = true ↔
    ∃ u ∈ run.updates, bid ∈ u.matchedBatchIDs
  /-- in one request -/
  once : run.updates.Pairwise fun u v => ∀ bid ∈ u.matchedBatchIDs, bid ∉ v.matchedBatchIDs
  /-- and with its feedback -/
  emitted : ∀ u ∈ run.updates, EmittedFrom p run.calls u

variable {run run' : TrainingRun}

theorem TrainingSound.new (p : SpringConfig) : TrainingSound p .new where
  pending := by simp [TrainingRun.new, TrainingState.new]
  trained := by simp [TrainingRun.new, TrainingState.new]
  once := List.Pairwise.nil
  emitted := by simp [TrainingRun.new]

/-- What the loop needs to know of the pending batches. -/
theorem TrainingSound.bounded (h : TrainingSound p run) :
    ∀ b ∈ run.state.springPendingTrainBatches,
      b.feedbackMatches < springMaxTrainFeedbackMatches ∧ b.actions ≠ [] := by
  intro b hmem
  obtain ⟨records, hfrom, hlt⟩ := h.pending b hmem
  exact ⟨hfrom.count_eq.2 ▸ hlt, hfrom.actions_ne_nil⟩

/-- What a call of `springEnqueueTrainActionsLocked` does: nothing, or it adds a batch, or
the batch takes the place of the last one, which has its ID and no more actions. -/
theorem enqueue_cases (st : TrainingState) (args : TrainBatchArgs) :
    let st' := st.springEnqueueTrainActionsLocked args
    let pending := st.springPendingTrainBatches
    st'.springTrainedBatchIDs = st.springTrainedBatchIDs ∧
      (st'.springPendingTrainBatches = pending ∨
        args.actions ≠ [] ∧ (st'.springPendingTrainBatches = pending ++ [args.newBatch] ∨
          ∃ init last, pending = init ++ [last] ∧ last.batchID = args.batchID ∧
            last.actions.length ≤ args.actions.length ∧
            st'.springPendingTrainBatches = init ++ [args.newBatch])) := by
  rw [TrainingState.springEnqueueTrainActionsLocked]
  split
  · exact ⟨rfl, .inl rfl⟩
  · rename_i hargs
    have hne : args.actions ≠ [] := fun hnil => hargs (.inr hnil)
    split
    · rename_i last hlast
      split
      · rename_i hsame
        split
        · rename_i hle
          obtain ⟨init, hinit⟩ := List.getLast?_eq_some_iff.mp hlast
          refine ⟨rfl, .inr ⟨hne, .inr ⟨init, last, hinit, hsame, hle, ?_⟩⟩⟩
          simp [hinit]
        · exact ⟨rfl, .inl rfl⟩
      · exact ⟨rfl, .inr ⟨hne, .inl rfl⟩⟩
    · exact ⟨rfl, .inr ⟨hne, .inl rfl⟩⟩

/-- What is pending then. -/
theorem mem_enqueue {st : TrainingState} {args : TrainBatchArgs} {b : SpringTrainBatch}
    (hmem : b ∈ (st.springEnqueueTrainActionsLocked args).springPendingTrainBatches) :
    b ∈ st.springPendingTrainBatches ∨ args.actions ≠ [] ∧ b = args.newBatch := by
  obtain ⟨-, hsame | ⟨hne, happended | ⟨init, last, hinit, -, -, hreplaced⟩⟩⟩ :=
    enqueue_cases st args
  · exact .inl (hsame ▸ hmem)
  · rw [happended] at hmem
    exact (List.mem_append.mp hmem).imp_right fun hmem => ⟨hne, List.mem_singleton.mp hmem⟩
  · rw [hreplaced] at hmem
    rw [hinit]
    exact (List.mem_append.mp hmem).imp (List.mem_append_left _)
      fun hmem => ⟨hne, List.mem_singleton.mp hmem⟩

theorem TrainingSound.enqueue (h : TrainingSound p run) (args : TrainBatchArgs) :
    TrainingSound p { run with
      state := run.state.springEnqueueTrainActionsLocked args
      calls := run.calls ++ [.enqueue args] } where
  pending := by
    intro b hmem
    rcases mem_enqueue hmem with hmem | ⟨hne, rfl⟩
    · obtain ⟨records, hfrom, hlt⟩ := h.pending b hmem
      exact ⟨records, hfrom.append_silent rfl, hlt⟩
    · exact ⟨[], .newBatch _ hne, Nat.zero_lt_succ _⟩
  trained := by
    rw [(enqueue_cases run.state args).1]
    exact h.trained
  once := h.once
  emitted := fun u hu => (h.emitted u hu).append _

theorem TrainingSound.prune (h : TrainingSound p run) (currentEpoch : ℕ) :
    TrainingSound p { run with
      state := run.state.springPrunePendingTrainBatchesLocked currentEpoch
      calls := run.calls ++ [.prune currentEpoch] } where
  pending := by
    intro b hmem
    obtain ⟨records, hfrom, hlt⟩ := h.pending b (List.mem_of_mem_filter hmem)
    exact ⟨records, hfrom.append_silent rfl, hlt⟩
  trained := h.trained
  once := h.once
  emitted := fun u hu => (h.emitted u hu).append _

/-- A batch after feedback: where it comes from, and that it is full at most. -/
theorem TrainingSound.afterFeedback (h : TrainingSound p run) {b : SpringTrainBatch}
    (hmem : b ∈ run.state.springPendingTrainBatches) (nowDataNum dataTotalNum : ℕ)
    (record : SpringFeedbackRewardRecord) :
    ∃ records, ComesFrom (run.calls ++ [.feedback nowDataNum dataTotalNum record])
      (b.afterFeedback record) records ∧ records.length ≤ springMaxTrainFeedbackMatches := by
  obtain ⟨records, hfrom, hlt⟩ := h.pending b hmem
  obtain ⟨records', hfrom', hle⟩ := hfrom.append_feedback nowDataNum dataTotalNum record
  exact ⟨records', hfrom', by omega⟩

/-- One record of feedback. -/
theorem TrainingSound.feedback (hsort : SortsBatches sort) (h : TrainingSound p run)
    (nowDataNum dataTotalNum : ℕ) (record : SpringFeedbackRewardRecord) :
    let r := run.state.springBuildOnlineUpdateInputLocked p sort nowDataNum dataTotalNum record
    TrainingSound p
      { state := r.1
        calls := run.calls ++ [.feedback nowDataNum dataTotalNum record]
        updates := run.updates ++ r.2.toList } := by
  intro r
  obtain ⟨flush, flush', ready, remaining, hcollects, hpending, houtcome⟩ :=
    springBuildOnlineUpdateInputLocked_spec (p := p) hsort run.state nowDataNum dataTotalNum record
      h.bounded
  have hkept : ∀ b ∈ r.1.springPendingTrainBatches, ∃ records,
      ComesFrom (run.calls ++ [.feedback nowDataNum dataTotalNum record]) b records ∧
        records.length < springMaxTrainFeedbackMatches := by
    intro b hmem
    rw [hpending] at hmem
    obtain ⟨b₀, hmem₀, rfl, hcount⟩ :=
      (hcollects.remaining b (List.mem_of_mem_filter hmem)).resolve_left (by simp)
    obtain ⟨records, hfrom, hle⟩ := h.afterFeedback hmem₀ nowDataNum dataTotalNum record
    refine ⟨records, hfrom, ?_⟩
    rw [hfrom.count_eq.1] at hcount
    rcases hcount with hzero | hweight | hlt
    · rw [hzero]
      exact Nat.zero_lt_succ _
    · -- a batch with feedback has weight
      by_contra hfull
      have hne : records ≠ [] := by
        rintro rfl
        exact hfull (Nat.zero_lt_succ _)
      exact absurd (hfrom.weightSum_pos hne) (not_lt.mpr hweight)
    · exact hlt
  have hbefore : ∀ u ∈ run.updates,
      EmittedFrom p (run.calls ++ [.feedback nowDataNum dataTotalNum record]) u :=
    fun u hu => (h.emitted u hu).append _
  rcases houtcome with ⟨-, hnone, htrained⟩ | ⟨hne, hsome, htrained⟩
  · have hupdates : run.updates ++ r.2.toList = run.updates := by
      rw [hnone]
      exact List.append_nil _
    rw [hupdates]
    exact ⟨hkept, fun bid => by rw [htrained]; exact h.trained bid, h.once, hbefore⟩
  · have hids : (onlineUpdateInput p record flush' (sort ready)).matchedBatchIDs =
        (sort ready).map (·.batchID) := rfl
    have hready : ∀ b ∈ sort ready, ∃ b₀ ∈ run.state.springPendingTrainBatches,
        run.state.springTrainedBatchIDs b₀.batchID = false ∧ b = b₀.afterFeedback record ∧
          0 < b.feedbackAggregate.count := fun b hmem =>
      (hcollects.ready b ((hsort ready).1.mem_iff.mp hmem)).resolve_left (by simp)
    have hupdates : run.updates ++ r.2.toList =
        run.updates ++ [onlineUpdateInput p record flush' (sort ready)] := by
      rw [hsome]
      rfl
    rw [hupdates]
    refine ⟨hkept, fun bid => ?_, List.pairwise_append.mpr ⟨h.once, List.pairwise_singleton _ _,
      fun u hu v hv => ?_⟩, fun u hu => ?_⟩
    · rw [htrained, h.trained]
      simp only [List.mem_append, List.mem_singleton, or_and_right, exists_or, exists_eq_left, hids]
      exact or_comm
    · -- what was emitted before is trained, and what is ready is not
      obtain rfl := List.mem_singleton.mp hv
      intro bid hbid hnow
      obtain ⟨b, hmem, rfl⟩ := List.mem_map.mp (hids ▸ hnow)
      obtain ⟨b₀, -, huntrained, rfl, -⟩ := hready b hmem
      rw [SpringTrainBatch.afterFeedback_batchID] at hbid
      have := (h.trained b₀.batchID).mpr ⟨u, hu, hbid⟩
      rw [huntrained] at this
      cases this
    · rcases List.mem_append.mp hu with hu | hu
      · exact hbefore u hu
      · obtain rfl := List.mem_singleton.mp hu
        have hsorted : sort ready ≠ [] := fun hnil =>
          hne (List.nil_perm.mp (hnil ▸ (hsort ready).1))
        refine ⟨sort ready, hsorted, hids, rfl, fun b hmem => ?_⟩
        obtain ⟨b₀, hmem₀, -, rfl, hcount⟩ := hready b hmem
        obtain ⟨records, hfrom, hle⟩ := h.afterFeedback hmem₀ nowDataNum dataTotalNum record
        exact ⟨_, records, List.prefix_rfl, hfrom, hfrom.count_eq.1 ▸ hcount, hle⟩

/-- Every call keeps it. -/
theorem TrainingSound.step (hsort : SortsBatches sort) (h : TrainingSound p run)
    {call : TrainingCall} (hs : run.step p sort call = some run') : TrainingSound p run' := by
  cases call with
  | enqueue args =>
    obtain rfl := Option.some.inj hs
    exact h.enqueue args
  | feedback nowDataNum dataTotalNum record =>
    obtain rfl := Option.some.inj hs
    exact h.feedback hsort nowDataNum dataTotalNum record
  | prune currentEpoch =>
    obtain rfl := Option.some.inj hs
    exact h.prune currentEpoch

/-! ## Why a batch leaves -/

/-- The epoch at which a call prunes. -/
def TrainingCall.epoch : TrainingCall → Option ℕ
  | .feedback _ _ rewardRecord => some rewardRecord.epoch
  | .prune currentEpoch => some currentEpoch
  | .enqueue _ => none

/-- A batch as a call prunes it: with the feedback that the call brings. -/
def TrainingCall.seen (batch : SpringTrainBatch) (call : TrainingCall) : SpringTrainBatch :=
  match call.record with
  | some record => batch.afterFeedback record
  | none => batch

/-- What can happen to a pending batch in a call: it stays, perhaps with more actions; it
is emitted; it was trained before; or it is pruned for its age. -/
def StaysOrLeaves (run run' : TrainingRun) (call : TrainingCall) (b : SpringTrainBatch) : Prop :=
  (∃ b' ∈ run'.state.springPendingTrainBatches,
    b'.batchID = b.batchID ∧ b.actions.length ≤ b'.actions.length) ∨
  (∃ u, run'.updates = run.updates ++ [u] ∧ b.batchID ∈ u.matchedBatchIDs) ∨
  run.state.springTrainedBatchIDs b.batchID = true ∨
  ∃ epoch, call.epoch = some epoch ∧ (call.seen b).stale epoch = true

theorem TrainingSound.leaves (hsort : SortsBatches sort) (h : TrainingSound p run)
    {call : TrainingCall} (hs : run.step p sort call = some run') :
    ∀ b ∈ run.state.springPendingTrainBatches, StaysOrLeaves run run' call b := by
  intro b hmem
  by_cases htrained : run.state.springTrainedBatchIDs b.batchID = true
  · exact .inr (.inr (.inl htrained))
  have huntrained := Bool.eq_false_iff.mpr htrained
  cases call with
  | enqueue args =>
    obtain rfl := Option.some.inj hs
    obtain ⟨-, hsame | ⟨-, happended | ⟨init, last, hinit, hid, hle, hreplaced⟩⟩⟩ :=
      enqueue_cases run.state args
    · exact .inl ⟨b, hsame ▸ hmem, rfl, le_rfl⟩
    · exact .inl ⟨b, happended ▸ List.mem_append_left _ hmem, rfl, le_rfl⟩
    · rw [hinit] at hmem
      rcases List.mem_append.mp hmem with hmem | hmem
      · exact .inl ⟨b, hreplaced ▸ List.mem_append_left _ hmem, rfl, le_rfl⟩
      · obtain rfl := List.mem_singleton.mp hmem
        exact .inl ⟨args.newBatch, hreplaced ▸ List.mem_append_right _ List.mem_cons_self,
          hid.symm, hle⟩
  | feedback nowDataNum dataTotalNum record =>
    obtain rfl := Option.some.inj hs
    obtain ⟨flush, flush', ready, remaining, hcollects, hpending, houtcome⟩ :=
      springBuildOnlineUpdateInputLocked_spec (p := p) hsort run.state nowDataNum dataTotalNum
        record h.bounded
    rcases hcollects.all b hmem with hbefore | hready | hremaining
    · exact absurd hbefore htrained
    · rcases houtcome with ⟨hnil, -⟩ | ⟨-, hsome, -⟩
      · rw [hnil] at hready
        cases hready
      · refine .inr (.inl ⟨_, by rw [hsome]; rfl, ?_⟩)
        exact List.mem_map.mpr ⟨_, (hsort ready).1.mem_iff.mpr hready,
          SpringTrainBatch.afterFeedback_batchID b record⟩
    · by_cases hstale : (b.afterFeedback record).stale record.epoch = true
      · exact .inr (.inr (.inr ⟨record.epoch, rfl, hstale⟩))
      · refine .inl ⟨b.afterFeedback record, ?_, by simp, by simp⟩
        rw [hpending]
        exact List.mem_filter.mpr ⟨hremaining, by simp [huntrained, hstale]⟩
  | prune currentEpoch =>
    obtain rfl := Option.some.inj hs
    by_cases hstale : b.stale currentEpoch = true
    · exact .inr (.inr (.inr ⟨currentEpoch, rfl, hstale⟩))
    · exact .inl ⟨b, List.mem_filter.mpr ⟨hmem, by simp [huntrained, hstale]⟩, rfl, le_rfl⟩

/-! ## Runs -/

/-- The actions of a request, but for the last, are not marked. -/
theorem EmittedFrom.done {calls : List TrainingCall} {u : SpringOnlineUpdateInput}
    (h : EmittedFrom p calls u) : ∃ init last, u.actions = init ++ [last] ∧ last.done = true ∧
      ∀ a ∈ init, a.done = false := by
  obtain ⟨ready, hne, -, hactions, hfrom⟩ := h
  rw [hactions]
  refine markLastDone_spec (fun hnil => ?_) fun a ha => ?_
  · obtain ⟨b, hmem⟩ := List.exists_mem_of_ne_nil _ hne
    obtain ⟨part, records, -, hcomes, -⟩ := hfrom b hmem
    have := List.flatMap_eq_nil_iff.mp hnil b hmem
    simp [shapedActions, hcomes.actions_ne_nil] at this
  · obtain ⟨b, -, ha⟩ := List.mem_flatMap.mp ha
    obtain ⟨action, -, rfl⟩ := List.mem_map.mp ha
    rfl

/-- **A batch is trained once**: whatever calls come in whatever order, no batch is in two
requests; a request is made of batches with one to eight records that name them; its last
action and no other is marked; and a batch leaves the pending ones only when it is
emitted, was trained before or is pruned. -/
theorem batch_trained_once (hsort : SortsBatches sort)
    (hr : Reaches (TrainingRun.step p sort) (fun _ _ => True) .new run) :
    (run.updates.Pairwise fun u v => ∀ bid ∈ u.matchedBatchIDs, bid ∉ v.matchedBatchIDs) ∧
    (∀ u ∈ run.updates, EmittedFrom p run.calls u) ∧
    (∀ u ∈ run.updates, ∃ init last, u.actions = init ++ [last] ∧ last.done = true ∧
      ∀ a ∈ init, a.done = false) ∧
    ∀ call run', run.step p sort call = some run' →
      ∀ b ∈ run.state.springPendingTrainBatches, StaysOrLeaves run run' call b := by
  have h : TrainingSound p run :=
    hr.invariant (TrainingSound p) (.new p) fun _ _ _ h _ hs => h.step hsort hs
  exact ⟨h.once, h.emitted, fun u hu => (h.emitted u hu).done, fun call run' hs => h.leaves hsort hs⟩

/-- The stable sort does what is asked of `sort.Slice`. -/
theorem mergeSort_sortsBatches :
    SortsBatches fun l => l.mergeSort fun a b => decide (a.batchID ≤ b.batchID) := by
  intro l
  let le (a b : SpringTrainBatch) : Bool := decide (a.batchID ≤ b.batchID)
  have htrans : ∀ a b c, le a b = true → le b c = true → le a c = true := fun a b c hab hbc =>
    decide_eq_true ((of_decide_eq_true hab).trans (of_decide_eq_true hbc))
  have htotal : ∀ a b, (le a b || le b a) = true := fun a b => by
    simpa [le] using Nat.le_total a.batchID b.batchID
  exact ⟨List.mergeSort_perm l le,
    (List.pairwise_mergeSort htrans htotal l).imp fun h => of_decide_eq_true h⟩

/-- Two batches, and one record twice, which names the first and an unknown one. -/
theorem batch_trained_once_twice : ∃ run : TrainingRun, run.updates.length = 1 ∧
    run.updates.Pairwise fun u v => ∀ bid ∈ u.matchedBatchIDs, bid ∉ v.matchedBatchIDs := by
  let action : OnlineAction :=
    { batchID := 1, address := "a", related := "", state := [], nextState := [], action := 0,
      logProb := 0, value := 0, entropy := 0, confidence := 0, localReward := 0,
      relatedKnown := false, relatedShard := none, relatedWeight := 0, relatedCount := 0,
      senderPos := [], actionMask := [], sameAsRelated := false, relatedInCurrentBatch := false,
      shardLoadBefore := 0, shardLoadMeanBefore := 0, loadPenalty := 0, reward := 0, done := false }
  let args (bid : ℕ) : TrainBatchArgs := ⟨bid, [action], 0, 0, 1, false⟩
  let record : SpringFeedbackRewardRecord :=
    { epoch := 1, totalTx := 1, totalInner := 1, totalRelay1 := 0, totalRelay2 := 0,
      effectiveTx := 1, crossTx := 0, loads := [], effectiveLoads := [], inners := [],
      relay1 := [], relay2 := [], decisionBatchIDs := [1, 7], crossRate := 0,
      rawLoadVariance := 0, normalizedLoadVariance := 0, rCSTR := 0, rWLB := 0, absLoadDiff := 0,
      communicationCost := 0, communicationCostSum := 0, communicationCostCount := 0,
      maxLoadShare := 0, hotspotPenalty := 0, reward := 1, rewardMode := .springLegacy,
      lambda := 0, beta := 0, iotCSTRWeight := 0, iotBalanceWeight := 0, iotCommCostWeight := 0,
      iotHotspotWeight := 0, iotHotspotThreshold := 0, runningAvgCrossRate := 0,
      runningAvgReward := 0, runningAvgNormVar := 0, rewardedEpochCount := 1 }
  have hrun : (runWith (TrainingRun.step (.default 2)
      fun l => l.mergeSort fun a b => decide (a.batchID ≤ b.batchID)) (fun _ _ => True) .new
      [.enqueue (args 1), .enqueue (args 2), .feedback 1 1 record, .enqueue (args 1),
        .feedback 1 1 record, .prune 3]).any (fun run => decide (run.updates.length = 1)) = true := by
    decide +kernel
  obtain ⟨run, hr, hlen⟩ := Reaches.exists_of_runWith hrun
  exact ⟨run, hlen, (batch_trained_once mergeSort_sortsBatches hr).1⟩

end BlockEmulator
