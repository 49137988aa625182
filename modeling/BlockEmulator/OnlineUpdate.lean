import BlockEmulator.BatchLedger
import BlockEmulator.OnlineBuffer
import BlockEmulator.StepSystem
import Mathlib.Logic.Function.Basic

/-!
# Online updates (`update_online.py`)

A request brings actions. With those that wait in the buffer file they train the model, or
they are written to the file again. Requests for one configuration of checkpoint share a
buffer file.

* `runUpdate` — the request, with the checks that refuse it.
* `online_buffer_balanced` — **the buffer loses and repeats nothing**, where the requests that
  share a file agree on the shards and on the features.
* `shards_change_loses` — where they do not, what waited is dropped.
-/

namespace BlockEmulator

open StepSystem

/-! ## Requests -/

/-- The path of a file. -/
structure UpdatePath where
  /-- the directory -/
  dir : String
  /-- the name, without what follows its last point -/
  stem : String
  /-- what follows, with the point -/
  suffix : String
  deriving DecidableEq

/-- `model_path.with_name(model_path.stem + ".online_" + signature + ".json")`. -/
def UpdatePath.online (model : UpdatePath) (signature : String) : UpdatePath :=
  ⟨model.dir, model.stem ++ ".online_" ++ signature, ".json"⟩

/-- What `agent.load` returns of a checkpoint, with the defaults of `build_agent`. -/
structure CheckpointPayload where
  /-- `int(payload.get("state_dim", -1))` -/
  stateDim : ℤ
  /-- `int(payload.get("action_dim", -1))` -/
  actionDim : ℤ
  /-- `payload.get("extra", {})` -/
  extra : JsonValue

/-- `model_source`. -/
inductive ModelSource where
  /-- `new_model` -/
  | newModel
  /-- `loaded_model` -/
  | loadedModel
  /-- `reset_dim_mismatch` -/
  | resetDimMismatch
  /-- `reset_load_failed_…` -/
  | resetLoadFailed
  deriving DecidableEq

/-- The agent, the checkpoints and the texts: what the updates use of other code. Models are
files of a type `M`, agents are of a type `A`. -/
structure OnlineConfig (M A : Type) where
  /-- how numbers are read -/
  num : NumberReading
  /-- `ROLLOUT_BUFFER_PATH` -/
  rolloutBufferPath : UpdatePath
  /-- `hashlib.sha256(json.dumps(expected, sort_keys=True).encode()).hexdigest()[:12]` -/
  signature : List (String × JsonValue) → String
  /-- `torch.load(model_path).get("extra", {})`; `none` is an exception -/
  extra : M → Option JsonValue
  /-- `PPOAgent(state_dim, action_dim)`; `none` is an exception -/
  newAgent : ℤ → ℤ → Option A
  /-- `agent.load`: the agent it leaves, and the payload unless it fails -/
  load : A → M → A × Option CheckpointPayload
  /-- whether `checkpoint_config_mismatches` finds nothing -/
  matchesCheckpoint : JsonValue → List (String × JsonValue) → Bool
  /-- `agent.update`; `none` is an exception -/
  update : A → List OnlineSample → Option A
  /-- `agent.save`, with an extra made of the old one, of the request and of the samples -/
  save : A → JsonValue → List (String × JsonValue) → List OnlineSample → Option M

/-- The files. -/
structure OnlineFiles (M : Type) where
  /-- the models -/
  models : UpdatePath → Option M
  /-- the buffer files -/
  buffers : UpdatePath → Option JsonValue

/-- A call of `run_update`. -/
structure OnlineRequest where
  /-- the value in the input file -/
  data : JsonValue
  /-- `model_path` -/
  modelPath : UpdatePath
  /-- `now_ns()` -/
  time : ℤ

/-- `message`. -/
inductive OnlineMessage where
  /-- `skip_no_valid_new_actions` -/
  | skipNoValidNewActions
  /-- `flush_waiting_min_samples` -/
  | flushWaitingMinSamples
  /-- `buffering_not_enough_samples` -/
  | bufferingNotEnoughSamples
  /-- `updated_with_flush_rollout` -/
  | updatedWithFlushRollout
  /-- `updated_with_trajectory_rollout` -/
  | updatedWithTrajectoryRollout
  deriving DecidableEq

/-- What a call returns of its buffers, and what it took and trained on. -/
structure OnlineResult where
  /-- the file -/
  bufferPath : UpdatePath
  /-- `new_buffer` -/
  newBuffer : List OnlineSample
  /-- what `agent.update` got, where it was called -/
  trainedOn : Option (List OnlineSample)
  /-- `skipped` -/
  skipped : ℕ
  /-- `pending_meta` -/
  pendingMeta : PendingMeta
  /-- `old_pending_size` -/
  oldPendingSize : ℕ
  /-- `pending_size` -/
  pendingSize : ℕ
  /-- `message` -/
  message : OnlineMessage

/-- `BATCH_SIZE`. -/
def onlineBatchSize : ℕ := 1024

/-- `MIN_FLUSH_BATCH_SIZE`. -/
def minFlushBatchSize : ℕ := 256

/-- The dictionary in the input file. -/
def OnlineRequest.fields (req : OnlineRequest) : List (String × JsonValue) :=
  match req.data with
  | .obj fields => fields
  | _ => []

/-- `expected_checkpoint`. -/
def OnlineRequest.expected (req : OnlineRequest) : JsonValue :=
  dictGet req.fields "expected_checkpoint" (.obj [])

section Update

variable {M A : Type} (c : OnlineConfig M A)

/-- `shards`. -/
def OnlineRequest.shards (req : OnlineRequest) : ℤ :=
  c.num.safeInt 4 (dictGet req.fields "shards" (.int 4))

/-- `iot_feature_dim`. -/
def OnlineRequest.iotFeatureDim (req : OnlineRequest) : ℤ :=
  updateIotFeatureDim c.num req.fields

/-- `buffer_path`. -/
def OnlineRequest.bufferPath (req : OnlineRequest) : UpdatePath :=
  match req.expected with
  | .obj [] => c.rolloutBufferPath
  | .obj expected => req.modelPath.online (c.signature expected)
  | _ => c.rolloutBufferPath

/-- `build_agent`: the agent, `old_payload.get("extra", {})` and the source. -/
def buildAgent (shards iotFeatureDim : ℤ) (model : Option M) :
    Option (A × JsonValue × ModelSource) :=
  (c.newAgent (updateStateDim shards iotFeatureDim) shards).map fun agent =>
    match model with
    | none => (agent, .obj [], .newModel)
    | some model =>
      match c.load agent model with
      | (agent, some payload) =>
        if payload.stateDim = updateStateDim shards iotFeatureDim ∧ payload.actionDim = shards then
          (agent, payload.extra, .loadedModel)
        else (agent, .obj [], .resetDimMismatch)
      | (agent, none) => (agent, .obj [], .resetLoadFailed)

/-- Whether the request or the model is of version 3, or cannot be asked. -/
def refusesVersion (expected : List (String × JsonValue)) (req : OnlineRequest)
    (model : Option M) : Bool :=
  (dictGet expected "mechanism_version"
    (dictGet req.fields "mechanism_version" (.str "legacy"))).isStr "v3" ||
  match model with
  | none => false
  | some model =>
    match c.extra model with
    | some (.obj extra) => (dictGet extra "mechanism_version" .null).isStr "v3"
    | _ => true

/-- `prepared_agent`; `none` is an exception. -/
def prepareAgent (expected : List (String × JsonValue)) (shards iotFeatureDim : ℤ)
    (model : Option M) : Option (Option (A × JsonValue × ModelSource)) :=
  if expected.isEmpty then some none
  else
    (buildAgent c shards iotFeatureDim model).bind fun prepared =>
      match model with
      | none => some (some prepared)
      | some _ =>
        if prepared.2.2 = .loadedModel ∧ c.matchesCheckpoint prepared.2.1 expected then
          some (some prepared)
        else none

/-- `update_threshold`. -/
def updateThreshold (flushUpdate : Bool) : ℕ :=
  if flushUpdate then minFlushBatchSize else onlineBatchSize

/-- The message of a request that waits for more samples. -/
def waitingMessage (flushUpdate : Bool) : OnlineMessage :=
  if flushUpdate then .flushWaitingMinSamples else .bufferingNotEnoughSamples

/-- The message of a request that trained on `size` samples. -/
def updatedMessage (flushUpdate : Bool) (size : ℕ) : OnlineMessage :=
  if flushUpdate ∧ size < onlineBatchSize then .updatedWithFlushRollout
  else .updatedWithTrajectoryRollout

/-- `run_update`; `none` is an exception. -/
def runUpdate (files : OnlineFiles M) (req : OnlineRequest) :
    Option (OnlineFiles M × OnlineResult) :=
  match req.data, req.expected with
  | .obj data, .obj expected =>
    let shards := req.shards c
    let dim := req.iotFeatureDim c
    let path := req.bufferPath c
    let model := files.models req.modelPath
    let flushUpdate := (dictGet data "flush_update" (.bool false)).truthy
    if refusesVersion c expected req model then none
    else do
      let prepared ← prepareAgent c expected shards dim model
      let (newBuffer, skipped) ← buildBufferFromUpdate c.num shards dim data
      let (oldPending, pendingMeta) := loadPendingBuffer c.num shards dim (files.buffers path)
      let pending := appendBuffer oldPending newBuffer
      let result := OnlineResult.mk path newBuffer none skipped pendingMeta oldPending.length
        pending.length
      let saved := { files with
        buffers := Function.update files.buffers path
          (savePendingBuffer shards dim req.time pending) }
      if newBuffer.length = 0 then some (saved, result .skipNoValidNewActions)
      else if pending.length < updateThreshold flushUpdate then
        some (saved, result (waitingMessage flushUpdate))
      else do
        let (agent, extra, _) ← prepared <|> buildAgent c shards dim model
        let trained ← c.update agent pending
        let newModel ← c.save trained extra data pending
        some (⟨Function.update files.models req.modelPath (some newModel),
            Function.update files.buffers path (savePendingBuffer shards dim req.time [])⟩,
          { result (updatedMessage flushUpdate pending.length) with trainedOn := some pending })
  | _, _ => none

end Update

/-! ## What a request does -/

section Runs

variable {M A : Type} {c : OnlineConfig M A}

/-- **A request that does not fail** appends its valid actions to what waited, and either
writes all of it or trains on all of it. -/
theorem runUpdate_cases {files files' : OnlineFiles M} {req : OnlineRequest} {result : OnlineResult}
    (h : runUpdate c files req = some (files', result)) :
    ∃ skipped pending,
      buildBufferFromUpdate c.num (req.shards c) (req.iotFeatureDim c) req.fields =
        some (result.newBuffer, skipped) ∧
      result.bufferPath = req.bufferPath c ∧
      pending = (loadPendingBuffer c.num (req.shards c) (req.iotFeatureDim c)
        (files.buffers (req.bufferPath c))).1 ++ result.newBuffer ∧
      (result.trainedOn = none ∧ files'.buffers = Function.update files.buffers (req.bufferPath c)
          (savePendingBuffer (req.shards c) (req.iotFeatureDim c) req.time pending) ∨
        result.trainedOn = some pending ∧
        files'.buffers = Function.update files.buffers (req.bufferPath c)
          (savePendingBuffer (req.shards c) (req.iotFeatureDim c) req.time [])) := by
  unfold runUpdate at h
  split at h
  · next data expected hdata _ =>
    have hfields : req.fields = data := by rw [OnlineRequest.fields, hdata]
    dsimp only at h
    split_ifs at h with hversion
    obtain ⟨prepared, -, h⟩ := Option.bind_eq_some_iff.mp h
    obtain ⟨⟨newBuffer, skipped⟩, hbuild, h⟩ := Option.bind_eq_some_iff.mp h
    rw [hfields]
    dsimp only at h
    split_ifs at h with hnone hfew
    · obtain ⟨rfl, rfl⟩ := Prod.mk.inj (Option.some.inj h)
      exact ⟨skipped, _, hbuild, rfl, rfl, .inl ⟨rfl, rfl⟩⟩
    · obtain ⟨rfl, rfl⟩ := Prod.mk.inj (Option.some.inj h)
      exact ⟨skipped, _, hbuild, rfl, rfl, .inl ⟨rfl, rfl⟩⟩
    · obtain ⟨agent, -, h⟩ := Option.bind_eq_some_iff.mp h
      obtain ⟨trained, -, h⟩ := Option.bind_eq_some_iff.mp h
      obtain ⟨newModel, -, h⟩ := Option.bind_eq_some_iff.mp h
      obtain ⟨rfl, rfl⟩ := Prod.mk.inj (Option.some.inj h)
      exact ⟨skipped, _, hbuild, rfl, rfl, .inr ⟨rfl, rfl⟩⟩
  · cases h

/-! ## Runs -/

/-- The files, and what went through each buffer file. -/
structure OnlineRun (M : Type) where
  /-- the files -/
  files : OnlineFiles M
  /-- the valid actions received, in their order -/
  received : UpdatePath → List OnlineSample
  /-- what each update trained on -/
  consumed : UpdatePath → List (List OnlineSample)

/-- No request was made, no buffer file is there. -/
def OnlineRun.start (models : UpdatePath → Option M) : OnlineRun M :=
  ⟨⟨models, fun _ => none⟩, fun _ => [], fun _ => []⟩

/-- What a request did. -/
def OnlineRun.record (run : OnlineRun M) (files : OnlineFiles M) (result : OnlineResult) :
    OnlineRun M :=
  ⟨files,
    Function.update run.received result.bufferPath
      (run.received result.bufferPath ++ result.newBuffer),
    Function.update run.consumed result.bufferPath
      (run.consumed result.bufferPath ++ result.trainedOn.toList)⟩

/-- A request that does not fail. -/
def onlineStep (c : OnlineConfig M A) (run : OnlineRun M) (req : OnlineRequest) :
    Option (OnlineRun M) :=
  (runUpdate c run.files req).map fun out => run.record out.1 out.2

@[simp] theorem OnlineRun.record_received (run : OnlineRun M) (files : OnlineFiles M)
    (result : OnlineResult) :
    (run.record files result).received result.bufferPath =
      run.received result.bufferPath ++ result.newBuffer := Function.update_self ..

@[simp] theorem OnlineRun.record_consumed (run : OnlineRun M) (files : OnlineFiles M)
    (result : OnlineResult) :
    (run.record files result).consumed result.bufferPath =
      run.consumed result.bufferPath ++ result.trainedOn.toList := Function.update_self ..

/-- Another file is not touched. -/
theorem OnlineRun.record_of_ne (run : OnlineRun M) (files : OnlineFiles M) {result : OnlineResult}
    {p : UpdatePath} (h : p ≠ result.bufferPath) :
    (run.record files result).received p = run.received p ∧
      (run.record files result).consumed p = run.consumed p :=
  ⟨Function.update_of_ne h .., Function.update_of_ne h ..⟩

/-- The requests for a file are of one kind, and their states are numbers of `np.float32`. -/
structure OneKind (c : OnlineConfig M A) (shardsOf dimOf : UpdatePath → ℤ)
    (req : OnlineRequest) : Prop where
  /-- the shards are those of the file -/
  shards : req.shards c = shardsOf (req.bufferPath c)
  /-- the features are -/
  dim : req.iotFeatureDim c = dimOf (req.bufferPath c)
  /-- the states are in range -/
  inRange : ∀ buffer skipped,
    buildBufferFromUpdate c.num (req.shards c) (req.iotFeatureDim c) req.fields =
      some (buffer, skipped) → ∀ s ∈ buffer, s.InRange

variable {shardsOf dimOf : UpdatePath → ℤ}

instance (req : OnlineRequest) : Decidable (OneKind c shardsOf dimOf req) :=
  decidable_of_iff (req.shards c = shardsOf (req.bufferPath c) ∧
      req.iotFeatureDim c = dimOf (req.bufferPath c) ∧
      ∀ out ∈ buildBufferFromUpdate c.num (req.shards c) (req.iotFeatureDim c) req.fields,
        ∀ s ∈ out.1, s.InRange)
    ⟨fun h => ⟨h.1, h.2.1, fun buffer skipped hbuild => h.2.2 (buffer, skipped) hbuild⟩,
      fun h => ⟨h.shards, h.dim, fun out hbuild => h.inRange out.1 out.2 hbuild⟩⟩

/-- A buffer file, and what went through it, are as a ledger says. -/
structure OnlineRun.KeepsLedger (c : OnlineConfig M A) (shardsOf dimOf : UpdatePath → ℤ)
    (run : OnlineRun M) (p : UpdatePath) (l : BatchLedger OnlineSample) : Prop where
  /-- received -/
  received : run.received p = l.received
  /-- consumed -/
  consumed : run.consumed p = l.consumed
  /-- what waits is in the file -/
  file : ∃ time, run.files.buffers p = savePendingBuffer (shardsOf p) (dimOf p) time l.pending
  /-- and can be read -/
  fits : ∀ s ∈ l.pending, SampleFits c.num (shardsOf p) (dimOf p) s

/-- What waits is read from the file. -/
theorem OnlineRun.KeepsLedger.load {run : OnlineRun M} {p : UpdatePath}
    {l : BatchLedger OnlineSample} (h : run.KeepsLedger c shardsOf dimOf p l) :
    (loadPendingBuffer c.num (shardsOf p) (dimOf p) (run.files.buffers p)).1 = l.pending := by
  obtain ⟨time, hfile⟩ := h.file
  rw [hfile]
  exact loadPendingBuffer_save time h.fits

/-- **A request is a step of the ledger** of its file, and of no other. -/
theorem OnlineRun.KeepsLedger.step {run run' : OnlineRun M} {req : OnlineRequest}
    (hkind : OneKind c shardsOf dimOf req) (hs : onlineStep c run req = some run')
    {p : UpdatePath} {l : BatchLedger OnlineSample} (h : run.KeepsLedger c shardsOf dimOf p l) :
    ∃ l', run'.KeepsLedger c shardsOf dimOf p l' := by
  obtain ⟨⟨files, result⟩, hrun, rfl⟩ := Option.map_eq_some_iff.mp hs
  obtain ⟨skipped, pending, hbuild, hpath, hpending, hcase⟩ := runUpdate_cases hrun
  have hnew := buildBufferFromUpdate_fits hbuild (hkind.inRange _ _ hbuild)
  rw [hkind.shards, hkind.dim] at hpending hcase hnew
  rw [← hpath] at hpending hcase hnew
  by_cases hp : p = result.bufferPath
  · subst hp
    rw [h.load] at hpending
    subst hpending
    rcases hcase with ⟨htrained, hfiles⟩ | ⟨htrained, hfiles⟩
    · exact ⟨l.collect result.newBuffer, {
        received := by rw [run.record_received, h.received]; rfl
        consumed := by rw [run.record_consumed, h.consumed, htrained]; exact List.append_nil _
        file := ⟨req.time, (congrFun hfiles _).trans (Function.update_self ..)⟩
        fits := fun s hs => (List.mem_append.mp hs).elim (h.fits s) (hnew s) }⟩
    · exact ⟨(l.collect result.newBuffer).consume, {
        received := by rw [run.record_received, h.received]; rfl
        consumed := by rw [run.record_consumed, h.consumed, htrained]; rfl
        file := ⟨req.time, (congrFun hfiles _).trans (Function.update_self ..)⟩
        fits := fun s hs => absurd hs List.not_mem_nil }⟩
  · have hfile : files.buffers p = run.files.buffers p := by
      rcases hcase with ⟨-, hfiles⟩ | ⟨-, hfiles⟩
      · rw [hfiles, Function.update_of_ne hp]
      · rw [hfiles, Function.update_of_ne hp]
    obtain ⟨hreceived, hconsumed⟩ := run.record_of_ne files hp
    obtain ⟨time, hsaved⟩ := h.file
    exact ⟨l, hreceived.trans h.received, hconsumed.trans h.consumed, ⟨time, hfile.trans hsaved⟩,
      h.fits⟩

/-- **The buffer loses and repeats nothing**: what a file's requests brought is what its
updates trained on, and then what the file gives back. -/
theorem online_buffer_balanced {models : UpdatePath → Option M} {run : OnlineRun M}
    (hr : Reaches (onlineStep c) (fun _ req => OneKind c shardsOf dimOf req)
      (.start models) run) (p : UpdatePath) :
    ∃ pending,
      run.received p = (run.consumed p).flatten ++ pending ∧
      (∃ time, run.files.buffers p =
        savePendingBuffer (shardsOf p) (dimOf p) time pending) ∧
      (loadPendingBuffer c.num (shardsOf p) (dimOf p) (run.files.buffers p)).1 = pending ∧
      recordsToBuffer c.num (shardsOf p) (dimOf p) (bufferToRecords pending) = some pending := by
  obtain ⟨l, hl⟩ : ∃ l, run.KeepsLedger c shardsOf dimOf p l := by
    refine hr.invariant (fun run => ∃ l, run.KeepsLedger c shardsOf dimOf p l) ?_ ?_
    · exact ⟨.empty, rfl, rfl, ⟨0, rfl⟩, fun s hs => absurd hs List.not_mem_nil⟩
    · rintro run req run' ⟨l, hl⟩ hkind hs
      exact hl.step hkind hs
  refine ⟨l.pending, ?_, hl.file, hl.load, recordsToBuffer_bufferToRecords hl.fits⟩
  rw [hl.received, hl.consumed]
  exact l.balanced

end Runs

/-! ## Requests for one sample -/

/-- The greatest number of `np.float32`. -/
def maxFloat32 : ℚ := (2 ^ 24 - 1) * 2 ^ 104

/-- Numbers that are read as they are, within the range of `np.float32`. -/
def plainNumbers : NumberReading where
  floatOfInt n := some n
  floatOfText _ := none
  intOfText _ := none
  float32 x := if maxFloat32 < x then .posInf else if x < -maxFloat32 then .negInf else .num x
  float32_idem := by
    intro x y h
    split_ifs at h with hbig hsmall
    obtain rfl := FloatValue.num.inj h
    rw [if_neg hbig, if_neg hsmall]

/-- An agent that learns nothing. -/
def plainConfig : OnlineConfig Unit Unit where
  num := plainNumbers
  rolloutBufferPath := ⟨"models", "online_rollout_buffer", ".json"⟩
  signature _ := ""
  extra _ := some (.obj [])
  newAgent _ _ := some ()
  load _ _ := ((), none)
  matchesCheckpoint _ _ := true
  update _ _ := some ()
  save _ _ _ _ := some ()

/-- A request with some valid actions. -/
def plainRequest (shards actions : ℕ) (flushUpdate : Bool) : OnlineRequest where
  data := .obj [("shards", .int shards), ("flush_update", .bool flushUpdate),
    ("actions", .arr (List.replicate actions (.obj [
      ("state", .arr (List.replicate (11 * shards + 1) (.int 0))), ("action", .int 0),
      ("log_prob", .int (-1)), ("value", .int 0)])))]
  modelPath := ⟨"models", "ppo", ".pt"⟩
  time := 0

/-- `size`, in a buffer file. -/
def savedSize : Option JsonValue → ℤ
  | some (.obj payload) => plainNumbers.safeInt 0 (dictGet payload "size" (.int 0))
  | _ => 0

theorem savedSize_save (shards iotFeatureDim time : ℤ) (buffer : List OnlineSample) :
    savedSize (savePendingBuffer shards iotFeatureDim time buffer) = buffer.length := by
  rw [savePendingBuffer]
  by_cases hnone : buffer.length = 0
  · rw [if_pos hnone, hnone]
    rfl
  · rw [if_neg hnone]
    rfl

/-- A sample waits, the next request trains on it, and the one of the last request waits. -/
theorem online_buffer_balanced_trained :
    ∃ (run : OnlineRun Unit) (pending : List OnlineSample),
      (run.received plainConfig.rolloutBufferPath).length = 258 ∧
      (run.consumed plainConfig.rolloutBufferPath).map (·.length) = [257] ∧
      run.received plainConfig.rolloutBufferPath =
        (run.consumed plainConfig.rolloutBufferPath).flatten ++ pending ∧
      (loadPendingBuffer plainNumbers 1 0
        (run.files.buffers plainConfig.rolloutBufferPath)).1 = pending := by
  have hrun : (runWith (onlineStep plainConfig)
      (fun _ req => OneKind plainConfig (fun _ => 1) (fun _ => 0) req) (.start fun _ => none)
      [plainRequest 1 1 false, plainRequest 1 256 true, plainRequest 1 1 false]).any (fun run =>
        decide ((run.received plainConfig.rolloutBufferPath).length = 258 ∧
          (run.consumed plainConfig.rolloutBufferPath).map (·.length) = [257])) = true := by
    decide +kernel
  obtain ⟨run, hr, hreceived, hconsumed⟩ := Reaches.exists_of_runWith hrun
  obtain ⟨pending, hbalanced, -, hload, -⟩ :=
    online_buffer_balanced hr plainConfig.rolloutBufferPath
  exact ⟨run, pending, hreceived, hconsumed, hbalanced, hload⟩

/-- **Another shard count**: the sample that waited is dropped. -/
theorem shards_change_loses :
    ¬ ∀ run, Reaches (onlineStep plainConfig) (fun _ _ => True) (.start fun _ => none) run →
      ∀ p, ∃ shards iotFeatureDim time pending,
        run.files.buffers p = savePendingBuffer shards iotFeatureDim time pending ∧
        run.received p = (run.consumed p).flatten ++ pending := by
  intro hall
  have hrun : (runWith (onlineStep plainConfig) (fun _ _ => True) (.start fun _ => none)
      [plainRequest 1 1 false, plainRequest 2 1 false]).any (fun run =>
        decide ((run.received plainConfig.rolloutBufferPath).length = 2 ∧
          run.consumed plainConfig.rolloutBufferPath = [] ∧
          savedSize (run.files.buffers plainConfig.rolloutBufferPath) = 1)) = true := by
    decide +kernel
  obtain ⟨run, hr, hreceived, hconsumed, hsize⟩ := Reaches.exists_of_runWith hrun
  obtain ⟨shards, dim, time, pending, hfile, hbalanced⟩ :=
    hall run hr plainConfig.rolloutBufferPath
  rw [hfile, savedSize_save] at hsize
  rw [hbalanced, hconsumed, List.flatten_nil, List.nil_append] at hreceived
  omega

end BlockEmulator
