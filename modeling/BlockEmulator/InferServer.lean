import BlockEmulator.JsonValue
import BlockEmulator.OfflineEpisode
import BlockEmulator.PipedServer
import BlockEmulator.ReplayEnv

/-!
# The inference server (`infer_server.py`)

One process answers all batches of the supervisor. It keeps the network that it has loaded,
with all that went into the loading, and loads anew where something else is asked for or the
model file has another time. Networks and their arithmetic come from outside.

* `loadCheckpoint_perm` — what is loaded does not depend on the order of what is expected.
* `AgentCache.Coherent` — what is kept is what the model file, at that time, loads as.
* `handleRequest_transparent` — **what is kept makes no difference** to a reply: a server that
  was just started replies the same, from the files as the server leaves them.
-/

namespace BlockEmulator

open PipedServer

/-! ## Requests and replies -/

/-- What `handle_request` reads of a request. -/
structure InferRequest where
  /-- `request_id` -/
  requestID : ℕ
  /-- `shards` -/
  shards : ℕ
  /-- `iot_feature_dim` -/
  iotFeatureDim : ℕ
  /-- `allow_model_init` -/
  allowModelInit : Bool
  /-- `sample` -/
  sample : Bool
  /-- `model` -/
  model : String
  /-- `expected_checkpoint` -/
  expectedCheckpoint : List (String × JsonValue)
  /-- `items` -/
  items : List SpringBatchInferItem

/-- An item of a reply. -/
structure InferOutput where
  /-- `address` -/
  address : String
  /-- `related` -/
  related : String
  /-- `shard` -/
  shard : ℕ
  /-- `source` -/
  source : String
  /-- `confidence` -/
  confidence : ℚ
  /-- `entropy` -/
  entropy : ℚ
  /-- `batch_id` -/
  batchID : ℕ
  /-- `log_prob` -/
  logProb : ℚ
  /-- `value` -/
  value : ℚ

/-- A reply. -/
structure InferReply where
  /-- `request_id` -/
  requestID : ℕ
  /-- `items` -/
  items : List InferOutput
  /-- `error` -/
  error : Option String

/-! ## Model files -/

/-- What `PPOAgent.save` writes; a size that is missing is `-1`. -/
structure Checkpoint (Net : Type) where
  /-- `state_dim` -/
  stateDim : ℤ
  /-- `action_dim` -/
  actionDim : ℤ
  /-- `extra` -/
  extra : List (String × JsonValue)
  /-- `model_state_dict` -/
  net : Net

/-- The model files, by their paths: when a file was written, and what is in it, or the text of
the exception that `torch.load` raises on it. -/
structure ModelFiles (Net : Type) where
  /-- the last time -/
  clock : ℕ
  /-- the files -/
  files : String → Option (ℕ × Except String (Checkpoint Net))

variable {Net : Type}

/-- `_model_mtime`. -/
def ModelFiles.mtime (w : ModelFiles Net) (path : String) : ℤ :=
  match w.files path with
  | none => -1
  | some (time, _) => time

/-- A file is written, at a later time. -/
def ModelFiles.write (w : ModelFiles Net) (path : String)
    (content : Except String (Checkpoint Net)) : ModelFiles Net where
  clock := w.clock + 1
  files := Function.update w.files path (some (w.clock + 1, content))

/-- A file is deleted. -/
def ModelFiles.delete (w : ModelFiles Net) (path : String) : ModelFiles Net :=
  { w with files := Function.update w.files path none }

section

variable {w : ModelFiles Net} {path path' : String} {content : Except String (Checkpoint Net)}

theorem ModelFiles.write_self :
    (w.write path content).files path = some (w.clock + 1, content) :=
  Function.update_self ..

theorem ModelFiles.write_other (h : path' ≠ path) :
    (w.write path content).files path' = w.files path' :=
  Function.update_of_ne h ..

theorem ModelFiles.delete_self : (w.delete path).files path = none := Function.update_self ..

theorem ModelFiles.delete_other (h : path' ≠ path) :
    (w.delete path).files path' = w.files path' :=
  Function.update_of_ne h ..

end

/-- What others do with the files. -/
inductive FileMove (Net : Type) where
  /-- one is written -/
  | write (path : String) (content : Except String (Checkpoint Net))
  /-- one is deleted -/
  | delete (path : String)

/-- The files after it. -/
def FileMove.apply (w : ModelFiles Net) : FileMove Net → ModelFiles Net
  | .write path content => w.write path content
  | .delete path => w.delete path

/-! ## What comes from outside -/

/-- The interpreter and the networks. -/
structure InferEnv (Net : Type) where
  /-- `a == b` -/
  same : JsonValue → JsonValue → Bool
  /-- `float(x)`; `none` is a `TypeError` or a `ValueError` -/
  floatOf : JsonValue → Option FloatValue
  /-- `repr(x)` -/
  repr : JsonValue → String
  /-- `json.dumps(d, ensure_ascii=True, sort_keys=True)` -/
  dumps : List (String × JsonValue) → String
  /-- `load_state_dict` on an agent of some sizes: the text of an exception -/
  loadStateDict : ℕ → ℕ → Net → Except String Unit
  /-- `agent.net(states)`: for every state the logits and the value -/
  forward : Net → List (List ℚ) → List (List ℚ × ℚ)
  /-- `torch.finfo(logits.dtype).min / 2` -/
  lowest : ℚ
  /-- `torch.softmax`, of a row -/
  softmax : List ℚ → List ℚ
  /-- `Categorical(logits=…).log_prob(action)` -/
  logProb : List ℚ → ℕ → ℚ
  /-- `Categorical(logits=…).entropy()` -/
  entropy : List ℚ → ℚ
  /-- `stable_hash_index` -/
  stableHashIndex : String → ℕ → ℕ

/-- The random numbers while a request is handled. -/
structure InferDraw (Net : Type) where
  /-- the weights of a new agent of some sizes -/
  net : ℕ → ℕ → Net
  /-- `dist.sample()`, on the probabilities of each row -/
  sample : List (List ℚ) → List ℕ

/-! ## Checkpoints (`checkpoint_compat.py`) -/

/-- `isclose(a, b, rel_tol=1e-9, abs_tol=1e-9)`. -/
def isclose (a b : FloatValue) : Bool :=
  FloatValue.eq a b ||
    match a, b with
    | .num x, .num y => |x - y| ≤ max (max |x| |y| / 10 ^ 9) (1 / 10 ^ 9)
    | _, _ => false

variable (T : InferEnv Net)

/-- Whether a value of a checkpoint is the expected one. -/
def InferEnv.agrees (actual expected : JsonValue) : Bool :=
  match expected with
  | .float x => ((T.floatOf actual).map fun y => isclose y x).getD false
  | _ => T.same actual expected

/-- `d.get('mechanism_version', 'legacy')`. -/
def mechanismVersionOf (d : List (String × JsonValue)) : JsonValue :=
  dictGet d "mechanism_version" (.str "legacy")

/-- `checkpoint_config_mismatches`. -/
def checkpointConfigMismatches (extra expected : List (String × JsonValue)) : List String :=
  let versions :=
    if T.same (mechanismVersionOf extra) (mechanismVersionOf expected) then []
    else ["mechanism_version: legacy and v3 checkpoints cannot be mixed"]
  versions ++ expected.filterMap fun (key, value) =>
    match extra.lookup key with
    | none => some (key ++ ": missing (expected " ++ T.repr value ++ ")")
    | some actual =>
      if T.agrees actual value then none
      else some (key ++ ": checkpoint=" ++ T.repr actual ++ ", expected=" ++ T.repr value)

/-- `format_checkpoint_mismatch`. -/
def formatCheckpointMismatch (mismatches : List String) : String :=
  "checkpoint config mismatch: " ++ "; ".intercalate mismatches

/-! ## The agent (`AgentCache`) -/

/-- `AgentCache`. -/
structure AgentCache (Net : Type) where
  /-- `agent` -/
  agent : Option Net
  /-- `shards` -/
  shards : ℤ
  /-- `state_dim` -/
  stateDim : ℤ
  /-- `model_path` -/
  modelPath : String
  /-- `model_mtime_ns` -/
  modelMtimeNs : ℤ
  /-- `checkpoint_config_signature` -/
  checkpointConfigSignature : String

/-- `AgentCache()`. -/
def AgentCache.new : AgentCache Net := ⟨none, -1, -1, "", -1, ""⟩

/-- What `get_agent` makes of a model file; an error is the status that goes with no agent. -/
def loadCheckpoint (content : Except String (Checkpoint Net))
    (expected : List (String × JsonValue)) (expectedDim shards : ℕ) : Except String Net :=
  match content with
  | .error exc => .error ("load_failed:" ++ exc)
  | .ok payload =>
    if payload.stateDim ≠ expectedDim ∨ payload.actionDim ≠ shards then
      .error ("model_dim_mismatch: ckpt_state_dim=" ++ toString payload.stateDim ++
        ", ckpt_action_dim=" ++ toString payload.actionDim ++ ", expected_dim=" ++
        toString expectedDim ++ ", shards=" ++ toString shards)
    else
      match checkpointConfigMismatches T payload.extra expected with
      | [] =>
        match T.loadStateDict expectedDim shards payload.net with
        | .ok () => .ok payload.net
        | .error exc => .error ("load_failed:" ++ exc)
      | mismatches => .error (formatCheckpointMismatch mismatches)

/-- The agent that is kept, if it is the one that is asked for. -/
def AgentCache.reused (cache : AgentCache Net) (w : ModelFiles Net) (r : InferRequest)
    (expectedDim : ℕ) : Option Net :=
  if cache.shards = r.shards ∧ cache.stateDim = expectedDim ∧ cache.modelPath = r.model ∧
      cache.modelMtimeNs = w.mtime r.model ∧
      cache.checkpointConfigSignature = T.dumps r.expectedCheckpoint then cache.agent
  else none

/-- An agent is kept, with what it was asked for by. -/
def AgentCache.keep (w : ModelFiles Net) (r : InferRequest) (expectedDim : ℕ) (net : Net) :
    AgentCache Net :=
  ⟨some net, r.shards, expectedDim, r.model, w.mtime r.model, T.dumps r.expectedCheckpoint⟩

/-- `extra` of the model that `get_agent` creates; what is set last is looked up first. -/
def InferRequest.createdExtra (r : InferRequest) : List (String × JsonValue) :=
  [("model_source", .str "init_by_infer_server"), ("online_update_count", .int 0),
    ("iot_feature_dim", .int r.iotFeatureDim)] ++ r.expectedCheckpoint

/-- `get_agent`, on a request whose input has some size. -/
def AgentCache.getAgent (ω : InferDraw Net) (cache : AgentCache Net) (w : ModelFiles Net)
    (r : InferRequest) (expectedDim : ℕ) :
    Except String Net × AgentCache Net × ModelFiles Net :=
  match cache.reused T w r expectedDim with
  | some net => (.ok net, cache, w)
  | none =>
    match w.files r.model with
    | none =>
      if r.allowModelInit = false then (.error "no_model", cache, w)
      else
        let net := ω.net expectedDim r.shards
        let w' := w.write r.model (.ok ⟨expectedDim, r.shards, r.createdExtra, net⟩)
        (.ok net, AgentCache.keep T w' r expectedDim net, w')
    | some (_, content) =>
      match loadCheckpoint T content r.expectedCheckpoint expectedDim r.shards with
      | .ok net => (.ok net, AgentCache.keep T w r expectedDim net, w)
      | .error status => (.error status, cache, w)

/-! ## Actions -/

/-- `heuristic_scores_from_state`. -/
def heuristicScoresFromState (state : List ℚ) (shards : ℕ) : List ℚ :=
  if state.length < 11 * shards + 1 then List.replicate shards 0
  else
    let senderPos := (state.drop (10 * shards)).take shards
    (List.range shards).map fun sid =>
      let load := ((List.range 5).map fun window => state.getD (window * shards + sid) 0).sum
      1000 * senderPos.getD sid 0 - load

/-- `heuristic_from_state`. -/
def heuristicFromState (state : List ℚ) (shards : ℕ) (actionMask : List ℕ) : ℕ :=
  bestAllowedAction (heuristicScoresFromState state shards)
    (normalizeActionMask actionMask shards) shards

/-- `safe_heuristic`. -/
def safeHeuristic (r : InferRequest) (reason : String) (item : SpringBatchInferItem) :
    InferOutput :=
  let shard := heuristicFromState item.state r.shards item.actionMask
  let (shard, reason) := if r.shards ≤ shard then (0, "safe_default") else (shard, reason)
  ⟨item.address, item.related, shard, "python_heuristic_" ++ reason, 0, 0, r.requestID, 0, 0⟩

/-- `mask_logits`, of a row. -/
def maskLogits (lowest : ℚ) (logits : List ℚ) (mask : List ℕ) : List ℚ :=
  if mask.length ≠ logits.length then logits
  else if mask.all (· = 0) then logits
  else logits.zipWith (fun logit m => if m = 0 then lowest else logit) mask

/-- `tie_aware_argmax`. -/
def tieAwareArgmax (stableHashIndex : String → ℕ → ℕ) (probabilities : List ℚ) (key : String)
    (tieEps : ℚ) (enableTieBreak : Bool) : ℕ :=
  let best := (bestOf (fun i => probabilities[i]?) probabilities.length).1
  if enableTieBreak = false ∨ tieEps ≤ 0 then best
  else
    let bestProb := probabilities.getD best 0
    let candidates := (List.range probabilities.length).filter fun i =>
      bestProb - probabilities.getD i 0 ≤ tieEps
    if candidates.length ≤ 1 then best
    else candidates.getD (stableHashIndex key candidates.length) 0

/-- `ARGMAX_TIE_EPS`. -/
def argmaxTieEps : ℚ := 0

/-- `ARGMAX_TIE_BREAK`. -/
def argmaxTieBreak : Bool := true

/-- An item with its masked logits and its value. -/
structure InferRow where
  /-- the item -/
  item : SpringBatchInferItem
  /-- a row of `masked` -/
  masked : List ℚ
  /-- an entry of `values` -/
  value : ℚ

/-- The rows of the items whose states have the right size. -/
def inferRows (net : Net) (r : InferRequest) (valid : List SpringBatchInferItem) :
    List InferRow :=
  (valid.zip (T.forward net (valid.map (·.state)))).map fun (item, logits, value) =>
    ⟨item, maskLogits T.lowest logits (normalizeActionMask item.actionMask r.shards), value⟩

/-- The actions of the rows. -/
def inferActions (ω : InferDraw Net) (r : InferRequest) (rows : List InferRow) : List ℕ :=
  if r.sample then ω.sample (rows.map fun row => T.softmax row.masked)
  else rows.map fun row =>
    tieAwareArgmax T.stableHashIndex (T.softmax row.masked)
      (row.item.address ++ "|" ++ row.item.related) argmaxTieEps argmaxTieBreak

/-- What is replied for a row. -/
def policyOutput (r : InferRequest) (row : InferRow) (shard : ℕ) : InferOutput :=
  if r.shards ≤ shard then safeHeuristic r "bad_action" row.item
  else
    ⟨row.item.address, row.item.related, shard, "python_ppo", (T.softmax row.masked).getD shard 0,
      T.entropy row.masked, r.requestID, T.logProb row.masked shard, row.value⟩

/-- `outputs`: what the policy has for the items of the right size, the heuristics for the
others. -/
def placeOutputs (r : InferRequest) (expectedDim : ℕ) :
    List SpringBatchInferItem → List InferOutput → List InferOutput
  | [], _ => []
  | item :: items, outputs =>
    if item.state.length ≠ expectedDim then
      safeHeuristic r "dim_mismatch" item :: placeOutputs r expectedDim items outputs
    else
      match outputs with
      | [] => safeHeuristic r "unknown" item :: placeOutputs r expectedDim items []
      | output :: outputs => output :: placeOutputs r expectedDim items outputs

/-- `infer_items`, once there is an agent; an error is the text of an exception. -/
def inferWith (ω : InferDraw Net) (net : Net) (r : InferRequest) (expectedDim : ℕ) :
    Except String (List InferOutput) :=
  let rows := inferRows T net r (r.items.filter fun item => item.state.length = expectedDim)
  let outputs := rows.zipWith (policyOutput T r) (inferActions T ω r rows)
  match r.items.find? fun item => item.state.length ≠ expectedDim with
  | some item =>
    if r.expectedCheckpoint ≠ [] then
      .error ("RuntimeError: frozen model input dimension mismatch: got " ++
        toString item.state.length ++ ", expected " ++ toString expectedDim)
    else .ok (placeOutputs r expectedDim r.items outputs)
  | none => .ok (placeOutputs r expectedDim r.items outputs)

/-- `expected_checkpoint.get('state_layout')`; a value that is no text is no layout. -/
def layoutOf : JsonValue → Option String
  | .null => none
  | .str text => some text
  | _ => some ""

/-- `expected_dim`; `none` is a `ValueError`. -/
def InferRequest.expectedDim (r : InferRequest) : Option ℕ :=
  match mechanismVersionOf r.expectedCheckpoint with
  | .str version =>
    inputDimOf r.shards r.iotFeatureDim version
      (layoutOf (dictGet r.expectedCheckpoint "state_layout" .null))
  | _ => none

/-- `infer_items`; an error is the text of an exception. -/
def inferItems (ω : InferDraw Net) (cache : AgentCache Net) (w : ModelFiles Net)
    (r : InferRequest) : Except String (List InferOutput) × AgentCache Net × ModelFiles Net :=
  match r.expectedDim with
  | none => (.error "ValueError: Unknown mechanism/state layout", cache, w)
  | some expectedDim =>
    let (agent, cache, w) := cache.getAgent T ω w r expectedDim
    match agent with
    | .ok net => (inferWith T ω net r expectedDim, cache, w)
    | .error status =>
      (if r.expectedCheckpoint ≠ [] then
        .error ("RuntimeError: frozen model unavailable: " ++ status)
      else .ok (r.items.map (safeHeuristic r status)), cache, w)

/-- The reply that an exception leaves to `main`, and the one of `handle_request`. -/
def InferRequest.reply (r : InferRequest) : Except String (List InferOutput) → InferReply
  | .ok outputs => ⟨r.requestID, outputs, none⟩
  | .error text => ⟨0, [], some text⟩

/-- A round of the loop of `main`. -/
def handleInferRequest (w : ModelFiles Net) (cache : AgentCache Net) (ω : InferDraw Net)
    (r : InferRequest) : InferReply × AgentCache Net × ModelFiles Net :=
  if r.shards = 0 then
    (⟨r.requestID, [], some ("invalid shards: " ++ toString r.shards)⟩, cache, w)
  else
    let (outputs, cache, w) := inferItems T ω cache w r
    (r.reply outputs, cache, w)

/-! ## What is kept makes no difference -/

/-- A value that is no list and no dictionary, and not `nan`. -/
def JsonValue.Scalar : JsonValue → Prop
  | .null | .bool _ | .int _ | .str _ => True
  | .float x => x.finite?.isSome = true
  | .arr _ | .obj _ => False

/-- What is expected of a checkpoint is a dictionary of such values, and does not contradict
what a new checkpoint is given. -/
structure InferRequest.Consistent (r : InferRequest) : Prop where
  /-- the keys -/
  nodup : (r.expectedCheckpoint.map (·.1)).Nodup
  /-- the values -/
  scalar : ∀ e ∈ r.expectedCheckpoint, e.2.Scalar
  /-- what is set for every new model -/
  source : "model_source" ∉ r.expectedCheckpoint.map (·.1) ∧
    "online_update_count" ∉ r.expectedCheckpoint.map (·.1)
  /-- the number of features -/
  featureDim : ∀ v, ("iot_feature_dim", v) ∈ r.expectedCheckpoint → v = .int r.iotFeatureDim

/-- What the interpreter does with such values. -/
structure InferEnv.Lawful : Prop where
  /-- a value is equal to itself -/
  same : ∀ v : JsonValue, v.Scalar → T.same v v = true
  /-- a float is a float -/
  floatOf : ∀ x, T.floatOf (.float x) = some x
  /-- a text of a dictionary with sorted keys shows its entries -/
  dumps : ∀ a b : List (String × JsonValue), (∀ e ∈ a, e.2.Scalar) → (∀ e ∈ b, e.2.Scalar) →
    (a.map (·.1)).Nodup → (b.map (·.1)).Nodup → T.dumps a = T.dumps b → a.Perm b

variable {T}

theorem agrees_self (hT : T.Lawful) {v : JsonValue} (hv : v.Scalar) : T.agrees v v = true := by
  unfold InferEnv.agrees
  split
  · rename_i x
    obtain ⟨q, hq⟩ := Option.isSome_iff_exists.mp hv
    cases x with
    | num a => simp [hT.floatOf, isclose, FloatValue.eq]
    | posInf => cases hq
    | negInf => cases hq
    | nan i => cases hq
  · exact hT.same v hv

/-- A lookup in a dictionary finds its entry. -/
theorem lookup_eq_some_iff_mem {d : List (String × JsonValue)} (hd : (d.map (·.1)).Nodup)
    {key : String} {v : JsonValue} : d.lookup key = some v ↔ (key, v) ∈ d := by
  induction d with
  | nil => simp
  | cons e d ih =>
    obtain ⟨k, u⟩ := e
    rw [List.map_cons, List.nodup_cons] at hd
    rw [List.lookup_cons]
    by_cases hk : key = k
    · subst hk
      have hnot : (key, v) ∉ d := fun hmem => hd.1 (List.mem_map.mpr ⟨_, hmem, rfl⟩)
      simp [hnot, eq_comm]
    · rw [beq_eq_false_iff_ne.mpr hk]
      simp [ih hd.2, hk]

/-- The order of a dictionary makes no difference to lookups. -/
theorem lookup_perm {a b : List (String × JsonValue)} (ha : (a.map (·.1)).Nodup) (hp : a.Perm b)
    (key : String) : a.lookup key = b.lookup key := by
  have hb : (b.map (·.1)).Nodup := (hp.map _).nodup_iff.mp ha
  refine Option.ext fun v => ?_
  rw [lookup_eq_some_iff_mem ha, lookup_eq_some_iff_mem hb, hp.mem_iff]

/-- There is nothing to complain of, in one order or the other. -/
theorem mismatches_nil_perm {a b : List (String × JsonValue)} (ha : (a.map (·.1)).Nodup)
    (hp : a.Perm b) {extra : List (String × JsonValue)} :
    checkpointConfigMismatches T extra a = [] ↔ checkpointConfigMismatches T extra b = [] := by
  have hversion : mechanismVersionOf a = mechanismVersionOf b := by
    rw [mechanismVersionOf, mechanismVersionOf, dictGet, dictGet, lookup_perm ha hp]
  rw [checkpointConfigMismatches, checkpointConfigMismatches, List.append_eq_nil_iff,
    List.append_eq_nil_iff]
  dsimp only
  rw [hversion, List.filterMap_eq_nil_iff, List.filterMap_eq_nil_iff]
  exact and_congr_right fun _ => forall_congr' fun e => by rw [hp.mem_iff]

/-- **What is loaded does not depend on the order of what is expected.** -/
theorem loadCheckpoint_perm {a b : List (String × JsonValue)} (ha : (a.map (·.1)).Nodup)
    (hp : a.Perm b) {content : Except String (Checkpoint Net)} {dim shards : ℕ} {net : Net}
    (h : loadCheckpoint T content a dim shards = .ok net) :
    loadCheckpoint T content b dim shards = .ok net := by
  cases content with
  | error exc => cases h
  | ok payload =>
    rw [loadCheckpoint] at h ⊢
    split at h
    · cases h
    rename_i hdim
    rw [if_neg hdim]
    split at h
    · rename_i hnil
      rw [(mismatches_nil_perm ha hp).mp hnil]
      exact h
    · cases h

/-- **What was created is what is expected.** -/
theorem mismatches_created (hT : T.Lawful) {r : InferRequest} (hr : r.Consistent) :
    checkpointConfigMismatches T r.createdExtra r.expectedCheckpoint = [] := by
  have hlookup : ∀ key v, (key, v) ∈ r.expectedCheckpoint →
      r.createdExtra.lookup key = some v := by
    intro key v hmem
    have hkey : key ∈ r.expectedCheckpoint.map (·.1) := List.mem_map.mpr ⟨_, hmem, rfl⟩
    have hsource : key ≠ "model_source" := fun h => hr.source.1 (h ▸ hkey)
    have hcount : key ≠ "online_update_count" := fun h => hr.source.2 (h ▸ hkey)
    rw [InferRequest.createdExtra, List.cons_append, List.lookup_cons,
      beq_eq_false_iff_ne.mpr hsource, List.cons_append, List.lookup_cons,
      beq_eq_false_iff_ne.mpr hcount, List.cons_append, List.lookup_cons]
    by_cases hdim : key = "iot_feature_dim"
    · subst hdim
      rw [hr.featureDim v hmem]
      rfl
    · rw [beq_eq_false_iff_ne.mpr hdim]
      exact (lookup_eq_some_iff_mem hr.nodup).mpr hmem
  have hversion : mechanismVersionOf r.createdExtra = mechanismVersionOf r.expectedCheckpoint :=
    rfl
  have hsame : T.same (mechanismVersionOf r.expectedCheckpoint)
      (mechanismVersionOf r.expectedCheckpoint) = true := by
    refine hT.same _ ?_
    rw [mechanismVersionOf, dictGet]
    cases hv : r.expectedCheckpoint.lookup "mechanism_version" with
    | none => trivial
    | some v => exact hr.scalar _ ((lookup_eq_some_iff_mem hr.nodup).mp hv)
  rw [checkpointConfigMismatches, hversion, if_pos hsame, List.nil_append, List.filterMap_eq_nil_iff]
  intro e hmem
  dsimp only
  rw [hlookup e.1 e.2 hmem]
  exact if_pos (agrees_self hT (hr.scalar e hmem))

/-- No file is newer than the clock. -/
def ModelFiles.Stamped (w : ModelFiles Net) : Prop :=
  ∀ path time content, w.files path = some (time, content) → time ≤ w.clock

theorem ModelFiles.Stamped.write {w : ModelFiles Net} (h : w.Stamped) (path : String)
    (content : Except String (Checkpoint Net)) : (w.write path content).Stamped := by
  intro path' time content' hfile
  by_cases hpath : path' = path
  · subst hpath
    rw [ModelFiles.write_self] at hfile
    obtain ⟨rfl, -⟩ := Prod.mk.inj (Option.some.inj hfile)
    exact le_rfl
  · rw [ModelFiles.write_other hpath] at hfile
    exact (h path' time content' hfile).trans (Nat.le_succ _)

theorem ModelFiles.Stamped.delete {w : ModelFiles Net} (h : w.Stamped) (path : String) :
    (w.delete path).Stamped := by
  intro path' time content hfile
  by_cases hpath : path' = path
  · subst hpath
    rw [ModelFiles.delete_self] at hfile
    cases hfile
  · rw [ModelFiles.delete_other hpath] at hfile
    exact h path' time content hfile

/-- **The agent that is kept** is what the model file loads as, as long as it has the time at
which it was loaded. -/
def AgentCache.Coherent (T : InferEnv Net) (w : ModelFiles Net) (cache : AgentCache Net) : Prop :=
  ∀ net, cache.agent = some net → ∃ (r : InferRequest) (dim time : ℕ), r.Consistent ∧
    cache.shards = r.shards ∧ cache.stateDim = dim ∧ cache.modelPath = r.model ∧
    cache.modelMtimeNs = time ∧ cache.checkpointConfigSignature = T.dumps r.expectedCheckpoint ∧
    time ≤ w.clock ∧ ∀ content, w.files r.model = some (time, content) →
      loadCheckpoint T content r.expectedCheckpoint dim r.shards = .ok net

theorem AgentCache.coherent_new {w : ModelFiles Net} : AgentCache.new.Coherent T w :=
  fun _ h => nomatch h

/-- What others do with the files leaves a coherent agent coherent. -/
theorem AgentCache.Coherent.move {w : ModelFiles Net} {cache : AgentCache Net}
    (h : cache.Coherent T w) (move : FileMove Net) : cache.Coherent T (move.apply w) := by
  intro net hnet
  obtain ⟨r, dim, time, hr, hshards, hdim, hpath, htime, hsig, hle, hload⟩ := h net hnet
  cases move with
  | write path content =>
    refine ⟨r, dim, time, hr, hshards, hdim, hpath, htime, hsig, hle.trans (Nat.le_succ _),
      fun content' hfile => hload content' ?_⟩
    rw [FileMove.apply] at hfile
    by_cases hsame : r.model = path
    · -- the file is newer than the agent
      subst hsame
      rw [ModelFiles.write_self] at hfile
      obtain ⟨rfl, -⟩ := Prod.mk.inj (Option.some.inj hfile)
      omega
    · rwa [ModelFiles.write_other hsame] at hfile
  | delete path =>
    refine ⟨r, dim, time, hr, hshards, hdim, hpath, htime, hsig, hle,
      fun content' hfile => hload content' ?_⟩
    rw [FileMove.apply] at hfile
    by_cases hsame : r.model = path
    · subst hsame
      rw [ModelFiles.delete_self] at hfile
      cases hfile
    · rwa [ModelFiles.delete_other hsame] at hfile

/-- An agent that was just loaded is coherent. -/
theorem AgentCache.coherent_keep {w : ModelFiles Net} {r : InferRequest} (hr : r.Consistent)
    {dim : ℕ} {net : Net} {time : ℕ} {content : Except String (Checkpoint Net)}
    (hfile : w.files r.model = some (time, content)) (hle : time ≤ w.clock)
    (hload : loadCheckpoint T content r.expectedCheckpoint dim r.shards = .ok net) :
    (AgentCache.keep T w r dim net).Coherent T w := by
  intro net' hnet
  obtain rfl := Option.some.inj hnet
  refine ⟨r, dim, time, hr, rfl, rfl, rfl, ?_, rfl, hle, fun content' hfile' => ?_⟩
  · rw [AgentCache.keep, ModelFiles.mtime, hfile]
  · obtain ⟨-, rfl⟩ := Prod.mk.inj (Option.some.inj (hfile.symm.trans hfile'))
    exact hload

/-- An agent that is reused is what the model file loads as. -/
theorem AgentCache.Coherent.reused (hT : T.Lawful) {w : ModelFiles Net} {cache : AgentCache Net}
    (h : cache.Coherent T w) {r : InferRequest} (hr : r.Consistent) {dim : ℕ} {net : Net}
    (hnet : cache.reused T w r dim = some net) :
    ∃ time content, w.files r.model = some (time, content) ∧
      loadCheckpoint T content r.expectedCheckpoint dim r.shards = .ok net := by
  rw [AgentCache.reused] at hnet
  obtain ⟨⟨hshards, hdim, hpath, htime, hsig⟩, hagent⟩ := Option.ite_none_right_eq_some.mp hnet
  obtain ⟨r', dim', time, hr', hshards', hdim', hpath', htime', hsig', -, hload⟩ := h net hagent
  have hs : r'.shards = r.shards := by omega
  obtain rfl : dim' = dim := by omega
  have hm : r'.model = r.model := hpath'.symm.trans hpath
  have hp : r'.expectedCheckpoint.Perm r.expectedCheckpoint :=
    hT.dumps _ _ hr'.scalar hr.scalar hr'.nodup hr.nodup (hsig'.symm.trans hsig)
  rw [hm, hs] at hload
  have hmtime : w.mtime r.model = time := htime.symm.trans htime'
  rw [ModelFiles.mtime] at hmtime
  split at hmtime
  · omega
  · rename_i time' content hfile
    obtain rfl : time' = time := by omega
    exact ⟨time', content, hfile, loadCheckpoint_perm hr'.nodup hp (hload content hfile)⟩

/-- The new agents of some random numbers can be loaded again. -/
def InferDraw.Fresh (T : InferEnv Net) (ω : InferDraw Net) : Prop :=
  ∀ dim shards, T.loadStateDict dim shards (ω.net dim shards) = .ok ()

/-- What a new server gets from the model files. -/
theorem getAgent_new (ω : InferDraw Net) {w : ModelFiles Net} {r : InferRequest} {dim : ℕ} :
    AgentCache.new.getAgent T ω w r dim =
      match w.files r.model with
      | none =>
        if r.allowModelInit = false then (.error "no_model", .new, w)
        else
          let net := ω.net dim r.shards
          let w' := w.write r.model (.ok ⟨dim, r.shards, r.createdExtra, net⟩)
          (.ok net, AgentCache.keep T w' r dim net, w')
      | some (_, content) =>
        match loadCheckpoint T content r.expectedCheckpoint dim r.shards with
        | .ok net => (.ok net, AgentCache.keep T w r dim net, w)
        | .error status => (.error status, .new, w) := by
  have hreused : (AgentCache.new : AgentCache Net).reused T w r dim = none := ite_self _
  rw [AgentCache.getAgent, hreused]

/-- **The agent**: a coherent server has the agent that a new one would get from the files as
it leaves them, and stays coherent. -/
theorem AgentCache.Coherent.getAgent (hT : T.Lawful) {ω : InferDraw Net} (hω : ω.Fresh T)
    {w : ModelFiles Net} (hw : w.Stamped) {cache : AgentCache Net} (h : cache.Coherent T w)
    {r : InferRequest} (hr : r.Consistent) {dim : ℕ} {agent : Except String Net}
    {cache' : AgentCache Net} {w' : ModelFiles Net}
    (hget : cache.getAgent T ω w r dim = (agent, cache', w')) :
    w'.Stamped ∧ cache'.Coherent T w' ∧ (AgentCache.new.getAgent T ω w' r dim).1 = agent := by
  rw [AgentCache.getAgent] at hget
  split at hget
  · rename_i net hreused
    obtain ⟨rfl, rfl, rfl⟩ : Except.ok net = agent ∧ cache = cache' ∧ w = w' := by
      simpa [Prod.ext_iff] using hget
    obtain ⟨time, content, hfile, hload⟩ := h.reused hT hr hreused
    refine ⟨hw, h, ?_⟩
    rw [getAgent_new, hfile]
    dsimp only
    rw [hload]
  · split at hget
    · rename_i hfile
      split at hget
      · rename_i hinit
        obtain ⟨rfl, rfl, rfl⟩ : Except.error "no_model" = agent ∧ cache = cache' ∧ w = w' := by
          simpa [Prod.ext_iff] using hget
        refine ⟨hw, h, ?_⟩
        rw [getAgent_new, hfile]
        dsimp only
        rw [if_pos hinit]
      · -- a model is created
        let net := ω.net dim r.shards
        let content : Except String (Checkpoint Net) := .ok ⟨dim, r.shards, r.createdExtra, net⟩
        have hload : loadCheckpoint T content r.expectedCheckpoint dim r.shards = .ok net := by
          rw [loadCheckpoint]
          dsimp only [content]
          rw [if_neg (by simp), mismatches_created hT hr]
          dsimp only
          rw [hω dim r.shards]
        obtain ⟨rfl, rfl, rfl⟩ : Except.ok net = agent ∧
            AgentCache.keep T (w.write r.model content) r dim net = cache' ∧
              w.write r.model content = w' := by
          simpa [Prod.ext_iff] using hget
        refine ⟨hw.write _ _, AgentCache.coherent_keep hr ModelFiles.write_self le_rfl hload, ?_⟩
        rw [getAgent_new, ModelFiles.write_self]
        dsimp only
        rw [hload]
    · rename_i time content hfile
      split at hget
      · rename_i net hload
        obtain ⟨rfl, rfl, rfl⟩ : Except.ok net = agent ∧
            AgentCache.keep T w r dim net = cache' ∧ w = w' := by
          simpa [Prod.ext_iff] using hget
        refine ⟨hw, AgentCache.coherent_keep hr hfile (hw _ _ _ hfile) hload, ?_⟩
        rw [getAgent_new, hfile]
        dsimp only
        rw [hload]
      · rename_i status hload
        obtain ⟨rfl, rfl, rfl⟩ : Except.error status = agent ∧ cache = cache' ∧ w = w' := by
          simpa [Prod.ext_iff] using hget
        refine ⟨hw, h, ?_⟩
        rw [getAgent_new, hfile]
        dsimp only
        rw [hload]

/-- What a server that was just started replies. -/
def freshReply (T : InferEnv Net) (ω : InferDraw Net) (w : ModelFiles Net) (r : InferRequest) :
    InferReply :=
  (handleInferRequest T w .new ω r).1

/-- **What is kept makes no difference** to a reply. -/
theorem handleRequest_transparent (hT : T.Lawful) {okDraw : InferDraw Net → Prop}
    (hfresh : ∀ ω, okDraw ω → ω.Fresh T) :
    Transparent (handleInferRequest T) .new (fun o w => some (FileMove.apply w o))
      InferRequest.Consistent okDraw ModelFiles.Stamped (fun w cache => cache.Coherent T w)
      (fun w r rep => ∃ ω, okDraw ω ∧ rep = freshReply T ω w r) where
  fresh _ _ := AgentCache.coherent_new
  move {o w w'} hw hmove := by
    obtain rfl := Option.some.inj hmove
    refine ⟨?_, fun _ h => h.move o⟩
    cases o with
    | write path content => exact hw.write path content
    | delete path => exact hw.delete path
  serve {w cache ω r} hw h hr hω := by
    rw [handleInferRequest]
    split
    · rename_i hshards
      refine ⟨hw, h, ω, hω, ?_⟩
      rw [freshReply, handleInferRequest, if_pos hshards]
    · rename_i hshards
      rw [inferItems]
      cases hdim : r.expectedDim with
      | none =>
        refine ⟨hw, h, ω, hω, ?_⟩
        rw [freshReply, handleInferRequest, if_neg hshards, inferItems, hdim]
      | some dim =>
        dsimp only
        rcases hget : cache.getAgent T ω w r dim with ⟨agent, cache', w'⟩
        obtain ⟨hw', h', hnew⟩ := h.getAgent hT (hfresh ω hω) hw hr hget
        rcases hget' : AgentCache.new.getAgent T ω w' r dim with ⟨agent', cache'', w''⟩
        obtain rfl : agent' = agent := (congrArg Prod.fst hget').symm.trans hnew
        cases agent' with
        | ok net =>
          refine ⟨hw', h', ω, hω, ?_⟩
          rw [freshReply, handleInferRequest, if_neg hshards, inferItems, hdim]
          dsimp only
          rw [hget']
        | error status =>
          refine ⟨hw', h', ω, hω, ?_⟩
          rw [freshReply, handleInferRequest, if_neg hshards, inferItems, hdim]
          dsimp only
          rw [hget']

end BlockEmulator
