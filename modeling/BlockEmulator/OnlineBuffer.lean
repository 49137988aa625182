import BlockEmulator.JsonValue
import Mathlib.Algebra.Order.Group.Unbundled.Int
import Mathlib.Data.List.ReduceOption

/-!
# The buffer of online samples (`update_online.py`)

The valid actions of a request become samples. Samples that do not train yet are written to a
file as records, and read back at the next request.

* `buildBufferFromUpdate` — the valid actions of a request, in their order.
* `bufferToRecords`, `recordsToBuffer` — the records of samples, and back.
* `recordsToBuffer_bufferToRecords` — **nothing is lost on the way**, where the states are
  numbers of `np.float32`.
* `loadPendingBuffer_save` — nor in the file.
-/

namespace BlockEmulator

open Fallible

/-! ## Samples -/

/-- An entry of a `RolloutBuffer`. -/
structure OnlineSample where
  /-- `states` -/
  state : List FloatValue
  /-- `next_states` -/
  nextState : List FloatValue
  /-- `actions` -/
  action : ℤ
  /-- `log_probs` -/
  logProb : ℚ
  /-- `rewards` -/
  reward : ℚ
  /-- `dones` -/
  done : Bool
  /-- `values` -/
  value : ℚ
  /-- `target_actions` -/
  targetAction : ℤ
  /-- `target_weights` -/
  targetWeight : ℚ
  /-- `action_masks` -/
  actionMask : List ℤ
  deriving DecidableEq

/-- `REWARD_CLIP`. -/
def rewardClip : ℚ := 2 / 10

/-- `clip_value`. -/
def clipValue (value limit : ℚ) : ℚ :=
  if limit ≤ 0 then value else max (-limit) (min limit value)

/-- `update_iot_feature_dim`. -/
def updateIotFeatureDim (num : NumberReading) (data : List (String × JsonValue)) : ℤ :=
  max 0 (num.safeInt 0 (dictGet data "iot_feature_dim" (dictGet data "IOTFeatureDim" (.int 0))))

/-- `update_state_dim`. -/
def updateStateDim (shards iotFeatureDim : ℤ) : ℤ :=
  11 * shards + 1 + (if max 0 iotFeatureDim > 0 then shards else 0) + max 0 iotFeatureDim

section Samples

variable (num : NumberReading) (shards iotFeatureDim : ℤ)

/-- `RolloutBuffer.add`; `none` is an exception over the mask. -/
def rolloutAdd (state nextState : List ℚ) (action : ℤ) (logProb reward : ℚ) (done : Bool)
    (value : ℚ) (targetAction : ℤ) (targetWeight : ℚ) (actionMask : JsonValue) :
    Option OnlineSample :=
  (num.intList? actionMask).map fun mask =>
    ⟨state.map num.float32, nextState.map num.float32, action, logProb, reward, done, value,
      targetAction, targetWeight, mask⟩

/-- `raw_next_state`: of the action, or of the request. -/
def rawNextState (item : List (String × JsonValue)) (nextState : Option JsonValue) : JsonValue :=
  match dictGet item "next_state" .null with
  | .arr next => .arr next
  | other => nextState.getD other

/-- `clean_next_state`. -/
def cleanNextState (cleanState : List ℚ) : JsonValue → List ℚ
  | .arr next =>
    if (next.length : ℤ) = updateStateDim shards iotFeatureDim then next.map (num.safeFloat 0)
    else cleanState
  | _ => cleanState

/-- `target_action` and `target_weight`. -/
def targetOf (item : List (String × JsonValue)) : ℤ × ℚ :=
  let relatedShard := num.safeInt (-1) (dictGet item "related_shard" (.int (-1)))
  if (dictGet item "related_known" (.bool false)).truthy ∧ 0 ≤ relatedShard ∧
      relatedShard < shards then
    (relatedShard, max (5 / 100) (min 1
      (num.safeFloat 0 (dictGet item "related_weight" (.float (.num 0))))))
  else (-1, 0)

/-- The loop body of `build_buffer_from_update`: the sample of an action, none where it is
skipped. -/
def actionSample (nextState : Option JsonValue) : JsonValue → Option (Option OnlineSample)
  | .obj item =>
    match dictGet item "state" (.arr []) with
    | .arr state =>
      if (state.length : ℤ) ≠ updateStateDim shards iotFeatureDim then some none
      else
        let action := num.safeInt (-1) (dictGet item "action" (.int (-1)))
        if action < 0 ∨ action ≥ shards then some none
        else
          -- the update needs the probability and the value of the old policy
          match num.safeFloat? (dictGet item "log_prob" .null),
              num.safeFloat? (dictGet item "value" .null) with
          | some logProb, some value =>
            let cleanState := state.map (num.safeFloat 0)
            let target := targetOf num shards item
            (rolloutAdd num cleanState
              (cleanNextState num shards iotFeatureDim cleanState (rawNextState item nextState))
              action logProb
              (clipValue (num.safeFloat 0 (dictGet item "reward" (.float (.num 0)))) rewardClip)
              (dictGet item "done" (.bool false)).truthy value target.1 target.2
              (dictGet item "action_mask" (.arr []))).map some
          | _, _ => some none
    | _ => some none
  | _ => some none

/-- `buffer.dones[-1] = True`, where no sample ends a trajectory. -/
def endTrajectory (buffer : List OnlineSample) : List OnlineSample :=
  if buffer.any (·.done) then buffer
  else buffer.modify (buffer.length - 1) fun s => { s with done := true }

/-- `build_buffer_from_update`: the buffer and `skipped`; `none` is an exception. -/
def buildBufferFromUpdate (data : List (String × JsonValue)) :
    Option (List OnlineSample × ℕ) :=
  match dictGet data "actions" (.arr []) with
  | .arr actions =>
    let nextStates := (dictGet data "next_states" (.arr [])).items
    (actions.zipIdx.mapM fun entry =>
      actionSample num shards iotFeatureDim nextStates[entry.2]? entry.1).map fun samples =>
        (endTrajectory samples.reduceOption, (samples.filter (·.isNone)).length)
  | _ => none

/-! ## Records -/

/-- A record of `buffer_to_records`. -/
def sampleRecord (s : OnlineSample) : JsonValue :=
  .obj [("state", .arr (s.state.map .float)), ("next_state", .arr (s.nextState.map .float)),
    ("action", .int s.action), ("log_prob", .float (.num s.logProb)),
    ("reward", .float (.num s.reward)), ("done", .bool s.done), ("value", .float (.num s.value)),
    ("target_action", .int s.targetAction), ("target_weight", .float (.num s.targetWeight)),
    ("action_mask", .arr (s.actionMask.map .int))]

/-- `buffer_to_records`. -/
def bufferToRecords (buffer : List OnlineSample) : List JsonValue := buffer.map sampleRecord

/-- The loop body of `records_to_buffer`. -/
def recordSample : JsonValue → Option (Option OnlineSample)
  | .obj item =>
    match dictGet item "state" (.arr []) with
    | .arr state =>
      if (state.length : ℤ) ≠ updateStateDim shards iotFeatureDim then some none
      else
        let nextState := match dictGet item "next_state" (.arr state) with
          | .arr next =>
            if (next.length : ℤ) ≠ updateStateDim shards iotFeatureDim then state else next
          | _ => state
        let action := num.safeInt (-1) (dictGet item "action" (.int (-1)))
        if action < 0 ∨ action ≥ shards then some none
        else
          match num.safeFloat? (dictGet item "log_prob" .null),
              num.safeFloat? (dictGet item "value" .null) with
          | some logProb, some value =>
            (rolloutAdd num (state.map (num.safeFloat 0)) (nextState.map (num.safeFloat 0))
              action logProb (num.safeFloat 0 (dictGet item "reward" (.float (.num 0))))
              (dictGet item "done" (.bool false)).truthy value
              (num.safeInt (-1) (dictGet item "target_action" (.int (-1))))
              (num.safeFloat 0 (dictGet item "target_weight" (.float (.num 0))))
              (dictGet item "action_mask" (.arr []))).map some
          | _, _ => some none
    | _ => some none
  | _ => some none

/-- `records_to_buffer`. -/
def recordsToBuffer (records : List JsonValue) : Option (List OnlineSample) :=
  (records.mapM (recordSample num shards iotFeatureDim)).map List.reduceOption

/-! ## The file -/

/-- The `status` of `load_pending_buffer`, with what comes with it. -/
inductive PendingMeta where
  /-- `new` -/
  | new
  /-- `bad_payload_reset` -/
  | badPayloadReset
  /-- `reset_shards_mismatch` -/
  | resetShardsMismatch (oldShards newShards : ℤ)
  /-- `reset_iot_feature_dim_mismatch` -/
  | resetIotFeatureDimMismatch (oldDim newDim : ℤ)
  /-- `bad_records_reset` -/
  | badRecordsReset
  /-- `loaded` -/
  | loaded (oldSize oldNumTrajectories : ℕ)
  /-- `load_failed_…` -/
  | loadFailed
  deriving DecidableEq

/-- `load_pending_buffer`, of the value in the file. -/
def loadPendingBuffer : Option JsonValue → List OnlineSample × PendingMeta
  | none => ([], .new)
  | some (.obj payload) =>
    let oldShards := num.safeInt shards (dictGet payload "shards" (.int shards))
    if oldShards ≠ shards then ([], .resetShardsMismatch oldShards shards)
    else
      let oldDim := num.safeInt iotFeatureDim
        (dictGet payload "iot_feature_dim" (.int iotFeatureDim))
      if oldDim ≠ iotFeatureDim then ([], .resetIotFeatureDimMismatch oldDim iotFeatureDim)
      else
        match dictGet payload "records" (.arr []) with
        | .arr records =>
          match recordsToBuffer num shards iotFeatureDim records with
          | some buffer => (buffer, .loaded buffer.length (buffer.countP (·.done)))
          | none => ([], .loadFailed)
        | _ => ([], .badRecordsReset)
  | some _ => ([], .badPayloadReset)

/-- `save_pending_buffer`: the value in the file; an empty buffer leaves no file. -/
def savePendingBuffer (time : ℤ) (buffer : List OnlineSample) : Option JsonValue :=
  if buffer.length = 0 then none
  else some (.obj [("time_unix_nano", .int time), ("shards", .int shards),
    ("iot_feature_dim", .int iotFeatureDim), ("size", .int buffer.length),
    ("num_trajectories", .int (buffer.countP (·.done))),
    ("records", .arr (bufferToRecords buffer))])

/-- `append_buffer`: a sample is added as it is. -/
def appendBuffer (dst src : List OnlineSample) : List OnlineSample := dst ++ src

end Samples

/-! ## The round trip -/

/-- The states are numbers of `np.float32`: no entry was out of range. -/
structure OnlineSample.InRange (s : OnlineSample) : Prop where
  /-- of the state -/
  state : ∀ x ∈ s.state, x.finite?.isSome
  /-- of the next state -/
  nextState : ∀ x ∈ s.nextState, x.finite?.isSome

instance (s : OnlineSample) : Decidable s.InRange :=
  decidable_of_iff ((∀ x ∈ s.state, x.finite?.isSome) ∧ ∀ x ∈ s.nextState, x.finite?.isSome)
    ⟨fun h => ⟨h.1, h.2⟩, fun h => ⟨h.1, h.2⟩⟩

/-- A sample as the filters of a request leave it. -/
structure SampleFits (num : NumberReading) (shards iotFeatureDim : ℤ) (s : OnlineSample) :
    Prop where
  /-- the length of the state -/
  length : (s.state.length : ℤ) = updateStateDim shards iotFeatureDim
  /-- the length of the next state -/
  nextLength : (s.nextState.length : ℤ) = updateStateDim shards iotFeatureDim
  /-- the action -/
  action : 0 ≤ s.action ∧ s.action < shards
  /-- the state is one of `np.float32` -/
  state : ∀ x ∈ s.state, ∃ q, x = .num q ∧ num.float32 q = .num q
  /-- the next state is -/
  nextState : ∀ x ∈ s.nextState, ∃ q, x = .num q ∧ num.float32 q = .num q

section RoundTrip

variable {num : NumberReading} {shards iotFeatureDim : ℤ}

/-- A written state is read as it was. -/
theorem readState_written {state : List FloatValue}
    (h : ∀ x ∈ state, ∃ q, x = .num q ∧ num.float32 q = .num q) :
    ((state.map JsonValue.float).map (num.safeFloat 0)).map num.float32 = state := by
  rw [List.map_map, List.map_map]
  refine (List.map_congr_left fun x hx => ?_).trans (List.map_id state)
  obtain ⟨q, rfl, hq⟩ := h x hx
  exact hq

/-- What is in range is a number that stays as it is. -/
theorem mem_castState {state : List ℚ} (h : ∀ x ∈ state.map num.float32, x.finite?.isSome)
    {x : FloatValue} (hx : x ∈ state.map num.float32) :
    ∃ q, x = .num q ∧ num.float32 q = .num q := by
  have hfinite := h x hx
  obtain ⟨y, -, rfl⟩ := List.mem_map.mp hx
  cases hy : num.float32 y with
  | num q => exact ⟨q, rfl, num.float32_idem hy⟩
  | _ => rw [hy] at hfinite; cases hfinite

/-- **A record is read as the sample it is of.** -/
theorem recordSample_sampleRecord {s : OnlineSample} (h : SampleFits num shards iotFeatureDim s) :
    recordSample num shards iotFeatureDim (sampleRecord s) = some (some s) := by
  have hlength : ((s.state.map JsonValue.float).length : ℤ) =
      updateStateDim shards iotFeatureDim := by
    rw [List.length_map, h.length]
  have hnext : ((s.nextState.map JsonValue.float).length : ℤ) =
      updateStateDim shards iotFeatureDim := by
    rw [List.length_map, h.nextLength]
  have haction : ¬(s.action < 0 ∨ s.action ≥ shards) := by
    rintro (hneg | hbig)
    · exact absurd h.action.1 (not_le.mpr hneg)
    · exact absurd h.action.2 (not_lt.mpr hbig)
  simp only [recordSample, sampleRecord, dictGet, List.lookup_cons, Option.getD_some,
    String.reduceBEq, hlength, hnext, ne_eq, not_true_eq_false, if_false,
    NumberReading.safeInt_int, haction, NumberReading.safeFloat?_num,
    NumberReading.safeFloat_num, JsonValue.truthy, rolloutAdd, NumberReading.intList_ints,
    Option.map_some, readState_written h.state, readState_written h.nextState]

/-- **The round trip**: the records of a buffer are read as the buffer. -/
theorem recordsToBuffer_bufferToRecords {buffer : List OnlineSample}
    (h : ∀ s ∈ buffer, SampleFits num shards iotFeatureDim s) :
    recordsToBuffer num shards iotFeatureDim (bufferToRecords buffer) = some buffer := by
  have hread : (bufferToRecords buffer).mapM (recordSample num shards iotFeatureDim) =
      some (buffer.map some) := by
    rw [bufferToRecords, List.mapM_map]
    exact mapM_some fun s hs => recordSample_sampleRecord (h s hs)
  rw [recordsToBuffer, hread, Option.map_some, List.reduceOption, List.filterMap_map]
  simp

/-- What is saved is loaded. -/
theorem loadPendingBuffer_save (time : ℤ) {buffer : List OnlineSample}
    (h : ∀ s ∈ buffer, SampleFits num shards iotFeatureDim s) :
    (loadPendingBuffer num shards iotFeatureDim
      (savePendingBuffer shards iotFeatureDim time buffer)).1 = buffer := by
  rw [savePendingBuffer]
  by_cases hnone : buffer.length = 0
  · rw [if_pos hnone, List.length_eq_zero_iff.mp hnone]
    rfl
  · rw [if_neg hnone]
    simp only [loadPendingBuffer, dictGet, List.lookup_cons, Option.getD_some, String.reduceBEq,
      NumberReading.safeInt_int, ne_eq, not_true_eq_false, if_false,
      recordsToBuffer_bufferToRecords h]

/-! ## The samples of a request -/

theorem cleanNextState_length {cleanState : List ℚ}
    (h : (cleanState.length : ℤ) = updateStateDim shards iotFeatureDim) (next : JsonValue) :
    ((cleanNextState num shards iotFeatureDim cleanState next).length : ℤ) =
      updateStateDim shards iotFeatureDim := by
  unfold cleanNextState
  split
  · split
    · next hnext => rw [List.length_map, hnext]
    · exact h
  · exact h

/-- **An action that is not skipped** passed the filters. -/
theorem actionSample_fits {nextState : Option JsonValue} {item : JsonValue} {s : OnlineSample}
    (h : actionSample num shards iotFeatureDim nextState item = some (some s))
    (hrange : s.InRange) : SampleFits num shards iotFeatureDim s := by
  unfold actionSample at h
  split at h
  · split at h
    · next item state _ =>
      dsimp only at h
      split_ifs at h with hlength haction
      · cases Option.some.inj h
      · cases Option.some.inj h
      · split at h
        · rw [rolloutAdd, Option.map_map] at h
          obtain ⟨mask, -, hs⟩ := Option.map_eq_some_iff.mp h
          obtain rfl := Option.some.inj hs
          rw [not_not] at hlength
          have hclean : ((state.map (num.safeFloat 0)).length : ℤ) =
              updateStateDim shards iotFeatureDim := by rw [List.length_map, hlength]
          exact {
            length := by rw [List.length_map, hclean]
            nextLength := by rw [List.length_map, cleanNextState_length hclean]
            action := ⟨not_lt.mp fun hneg => haction (.inl hneg),
              not_le.mp fun hbig => haction (.inr hbig)⟩
            state := fun x hx => mem_castState hrange.state hx
            nextState := fun x hx => mem_castState hrange.nextState hx }
        · cases Option.some.inj h
    · cases Option.some.inj h
  · cases Option.some.inj h

/-- The end of a trajectory changes nothing but `done`. -/
theorem mem_endTrajectory {buffer : List OnlineSample} {s : OnlineSample}
    (h : s ∈ endTrajectory buffer) : ∃ t ∈ buffer, s = { t with done := s.done } := by
  unfold endTrajectory at h
  split at h
  · exact ⟨s, h, rfl⟩
  · obtain ⟨i, hi, rfl⟩ := List.mem_iff_getElem.mp h
    rw [List.length_modify] at hi
    rw [List.getElem_modify]
    split
    · exact ⟨buffer[i], List.getElem_mem hi, rfl⟩
    · exact ⟨buffer[i], List.getElem_mem hi, rfl⟩

/-- **The buffer of a request** holds what the filters leave. -/
theorem buildBufferFromUpdate_fits {data : List (String × JsonValue)} {buffer : List OnlineSample}
    {skipped : ℕ}
    (h : buildBufferFromUpdate num shards iotFeatureDim data = some (buffer, skipped))
    (hrange : ∀ s ∈ buffer, s.InRange) : ∀ s ∈ buffer, SampleFits num shards iotFeatureDim s := by
  intro s hs
  have hin := hrange s hs
  unfold buildBufferFromUpdate at h
  split at h
  · obtain ⟨samples, hsamples, heq⟩ := Option.map_eq_some_iff.mp h
    obtain rfl := congrArg Prod.fst heq
    obtain ⟨t, ht, hst⟩ := mem_endTrajectory hs
    obtain ⟨entry, -, hentry⟩ := mem_mapM hsamples (List.reduceOption_mem_iff.mp ht)
    rw [hst] at hin ⊢
    have hfits := actionSample_fits hentry ⟨hin.state, hin.nextState⟩
    exact ⟨hfits.length, hfits.nextLength, hfits.action, hfits.state, hfits.nextState⟩
  · cases h

end RoundTrip

end BlockEmulator
