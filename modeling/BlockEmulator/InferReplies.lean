import BlockEmulator.CandidateParity
import BlockEmulator.InferServer
import BlockEmulator.NSShardCapacity
import BlockEmulator.SidecarCells
import Mathlib.Data.Rat.Encodable
import Mathlib.Logic.Equiv.List

/-!
# What the supervisor gets from the inference server

The supervisor asks for whole batches (`springCallPythonBatch`), with a checkpoint that it
expects, and refuses replies that name other addresses, or shards that the masks do not allow.

* `inferItems_answered` — **a reply has an answer to every item**, in order, that its mask allows.
* `springInferRequest_consistent` — the supervisor expects nothing that contradicts itself.
* `inference_replies` — **what the supervisor takes**, in every run of it, the server, and those
  who write the model files.
-/

namespace BlockEmulator

open PipedServer StepSystem

variable {Net : Type} {T : InferEnv Net}

/-! ## An answer to every item -/

/-- What the networks do: one row for every state, and no probability for what is masked. -/
structure InferEnv.Masks (T : InferEnv Net) : Prop where
  /-- an agent of some sizes has rows of its size -/
  forward : ∀ {dim shards net states}, T.loadStateDict dim shards net = .ok () →
    (∀ state ∈ states, state.length = dim) →
      (T.forward net states).length = states.length ∧
        ∀ row ∈ T.forward net states, row.1.length = shards
  /-- what is masked has no probability, something else has -/
  softmax : ∀ {net states row mask}, row ∈ T.forward net states → mask.length = row.1.length →
    mask.any (· ≠ 0) = true →
      (∀ i, mask.getD i 0 = 0 → (T.softmax (maskLogits T.lowest row.1 mask)).getD i 0 = 0) ∧
        ∃ i, 0 < (T.softmax (maskLogits T.lowest row.1 mask)).getD i 0

/-- The random numbers of a request: new agents can be loaded, and what is sampled has a
probability. -/
structure InferDraw.Lawful (T : InferEnv Net) (ω : InferDraw Net) : Prop where
  /-- new agents -/
  fresh : ω.Fresh T
  /-- samples -/
  sample : ∀ rows : List (List ℚ), (∀ probs ∈ rows, ∃ i, 0 < probs.getD i 0) →
    List.Forall₂ (fun probs action => 0 < probs.getD action 0) rows (ω.sample rows)

/-- An answer to an item. -/
structure Answered (r : InferRequest) (item : SpringBatchInferItem) (out : InferOutput) :
    Prop where
  /-- its address -/
  address : out.address = item.address
  /-- its related address -/
  related : out.related = item.related
  /-- the batch -/
  batchID : out.batchID = r.requestID
  /-- a shard -/
  lt : out.shard < r.shards
  /-- that the mask allows -/
  allowed : 0 < (normalizeActionMask item.actionMask r.shards).getD out.shard 0
  /-- where a checkpoint is expected, it is the policy that answers -/
  source : r.expectedCheckpoint ≠ [] → out.source = "python_ppo"

variable {r : InferRequest} (hs : 0 < r.shards)

include hs in
/-- The heuristics answer, where no checkpoint is expected. -/
theorem safeHeuristic_answered (hnone : r.expectedCheckpoint = []) (reason : String)
    (item : SpringBatchInferItem) : Answered r item (safeHeuristic r reason item) := by
  have hmask := normalizeActionMask_isActionMask hs item.actionMask
  obtain ⟨hlt, hallowed⟩ := bestAllowedAction_allowed hmask
    (heuristicScoresFromState item.state r.shards)
  have hin : heuristicFromState item.state r.shards item.actionMask < r.shards := hlt
  have hshard : (safeHeuristic r reason item).shard =
      heuristicFromState item.state r.shards item.actionMask := by
    rw [safeHeuristic, if_neg (not_le.mpr hin)]
  refine ⟨rfl, rfl, rfl, ?_, ?_, fun h => absurd hnone h⟩
  · rw [hshard]
    exact hlt
  · rw [hshard]
    exact hallowed

/-- The best of some probabilities is one, if there is any. -/
theorem tieAwareArgmax_pos {stableHashIndex : String → ℕ → ℕ} {probs : List ℚ} {key : String}
    {enable : Bool} (h : ∃ i, 0 < probs.getD i 0) :
    0 < probs.getD (tieAwareArgmax stableHashIndex probs key argmaxTieEps enable) 0 := by
  obtain ⟨i, hi⟩ := h
  have hlt : i < probs.length := by
    by_contra hge
    rw [List.getD_eq_getElem?_getD, List.getElem?_eq_none (not_lt.mp hge)] at hi
    exact lt_irrefl _ hi
  have hscore : probs[i]? = some (probs.getD i 0) := by
    rw [List.getD_eq_getElem?_getD, List.getElem?_eq_getElem hlt, Option.getD_some]
  obtain ⟨b, hb⟩ := Option.isSome_iff_exists.mp
    (bestOf_isSome hlt (by rw [hscore]; rfl : (probs[i]?).isSome = true))
  have hmax := bestOf_max hlt hscore hb
  obtain ⟨-, hbest⟩ := bestOf_eq_some _ _ hb
  rw [tieAwareArgmax, if_pos (.inr le_rfl), List.getD_eq_getElem?_getD, hbest, Option.getD_some]
  exact hi.trans_le hmax

/-- A row whose probabilities follow the mask of its item. -/
def InferRow.Sound (T : InferEnv Net) (r : InferRequest) (row : InferRow) : Prop :=
  (∀ i, (normalizeActionMask row.item.actionMask r.shards).getD i 0 = 0 →
    (T.softmax row.masked).getD i 0 = 0) ∧ ∃ i, 0 < (T.softmax row.masked).getD i 0

include hs in
/-- The rows of the network. -/
theorem inferRows_sound (hM : T.Masks) {net : Net} {dim : ℕ}
    (hnet : T.loadStateDict dim r.shards net = .ok ()) {valid : List SpringBatchInferItem}
    (hvalid : ∀ item ∈ valid, item.state.length = dim) :
    (∀ row ∈ inferRows T net r valid, row.Sound T r) ∧
      (inferRows T net r valid).map (·.item) = valid := by
  have hstates : ∀ state ∈ valid.map (·.state), state.length = dim := by simpa using hvalid
  obtain ⟨hlen, hrows⟩ := hM.forward hnet hstates
  rw [List.length_map] at hlen
  constructor
  · intro row hrow
    obtain ⟨⟨item, logits, value⟩, hmem, rfl⟩ := List.mem_map.mp hrow
    have hforward := (List.of_mem_zip hmem).2
    have hmask := normalizeActionMask_isActionMask hs item.actionMask
    refine hM.softmax hforward (hmask.length.trans (hrows _ hforward).symm) ?_
    obtain ⟨sid, hsid, hpos⟩ := hmask.allows
    have hlt : sid < (normalizeActionMask item.actionMask r.shards).length := by
      rwa [hmask.length]
    rw [List.getD_eq_getElem?_getD, List.getElem?_eq_getElem hlt, Option.getD_some] at hpos
    exact List.any_eq_true.mpr ⟨_, List.getElem_mem hlt, decide_eq_true hpos.ne'⟩
  · rw [inferRows, List.map_map]
    exact List.map_fst_zip hlen.ge

/-- The actions of the rows have a probability. -/
theorem inferActions_pos {ω : InferDraw Net} (hω : ω.Lawful T) {rows : List InferRow}
    (h : ∀ row ∈ rows, row.Sound T r) :
    List.Forall₂ (fun row action => 0 < (T.softmax row.masked).getD action 0) rows
      (inferActions T ω r rows) := by
  rw [inferActions]
  split
  · refine List.forall₂_map_left_iff.mp (hω.sample _ fun probs hprobs => ?_)
    obtain ⟨row, hrow, rfl⟩ := List.mem_map.mp hprobs
    exact (h row hrow).2
  · rw [List.forall₂_map_right_iff, List.forall₂_same]
    exact fun row hrow => tieAwareArgmax_pos (h row hrow).2

include hs in
/-- The policy answers. -/
theorem policyOutput_answered {row : InferRow} (h : row.Sound T r) {action : ℕ}
    (hpos : 0 < (T.softmax row.masked).getD action 0) :
    Answered r row.item (policyOutput T r row action) := by
  have hallowed : (normalizeActionMask row.item.actionMask r.shards).getD action 0 ≠ 0 :=
    fun hzero => hpos.ne' (h.1 action hzero)
  have hlt : action < r.shards := by
    by_contra hge
    refine hallowed ?_
    rw [List.getD_eq_getElem?_getD, List.getElem?_eq_none, Option.getD_none]
    rw [(normalizeActionMask_isActionMask hs row.item.actionMask).length]
    exact not_lt.mp hge
  rw [policyOutput, if_neg (not_le.mpr hlt)]
  exact ⟨rfl, rfl, rfl, hlt, Nat.pos_of_ne_zero hallowed, fun _ => rfl⟩

include hs in
/-- The answers are put where their items are. -/
theorem placeOutputs_answered {dim : ℕ} {items : List SpringBatchInferItem}
    {outputs : List InferOutput}
    (hdims : r.expectedCheckpoint ≠ [] → ∀ item ∈ items, item.state.length = dim)
    (h : List.Forall₂ (Answered r) (items.filter fun item => item.state.length = dim) outputs) :
    List.Forall₂ (Answered r) items (placeOutputs r dim items outputs) := by
  induction items generalizing outputs with
  | nil => exact .nil
  | cons item items ih =>
    have hrest : r.expectedCheckpoint ≠ [] → ∀ item ∈ items, item.state.length = dim :=
      fun hne item hmem => hdims hne item (List.mem_cons_of_mem _ hmem)
    rw [placeOutputs.eq_def]
    dsimp only
    by_cases hdim : item.state.length = dim
    · have hvalid : (item :: items).filter (fun item => item.state.length = dim) =
          item :: items.filter fun item => item.state.length = dim := by simp [hdim]
      rw [hvalid] at h
      rw [if_neg (not_not.mpr hdim)]
      cases h with
      | cons hout houts => exact .cons hout (ih hrest houts)
    · have hvalid : (item :: items).filter (fun item => item.state.length = dim) =
          items.filter fun item => item.state.length = dim := by simp [hdim]
      rw [hvalid] at h
      rw [if_pos hdim]
      have hnone : r.expectedCheckpoint = [] := by
        by_contra hne
        exact hdim (hdims hne item List.mem_cons_self)
      exact .cons (safeHeuristic_answered hs hnone _ item) (ih hrest h)

include hs in
/-- What an agent replies. -/
theorem inferWith_answered (hM : T.Masks) {ω : InferDraw Net} (hω : ω.Lawful T) {net : Net}
    {dim : ℕ} (hnet : T.loadStateDict dim r.shards net = .ok ()) {outputs : List InferOutput}
    (h : inferWith T ω net r dim = .ok outputs) : List.Forall₂ (Answered r) r.items outputs := by
  have hvalid : ∀ item ∈ r.items.filter (fun item => item.state.length = dim),
      item.state.length = dim := fun item hmem => of_decide_eq_true (List.mem_filter.mp hmem).2
  obtain ⟨hsound, hitems⟩ := inferRows_sound hs hM hnet hvalid
  have hanswers : List.Forall₂ (Answered r)
      (r.items.filter fun item => item.state.length = dim)
      ((inferRows T net r (r.items.filter fun item => item.state.length = dim)).zipWith
        (policyOutput T r) (inferActions T ω r
          (inferRows T net r (r.items.filter fun item => item.state.length = dim)))) := by
    have hactions := inferActions_pos hω hsound
    conv_lhs => rw [← hitems]
    revert hactions hsound
    generalize inferRows T net r _ = rows
    generalize inferActions T ω r rows = actions
    intro hsound hactions
    induction hactions with
    | nil => exact .nil
    | cons hpos _ ih =>
      exact .cons (policyOutput_answered hs (hsound _ List.mem_cons_self) hpos)
        (ih fun row hrow => hsound row (List.mem_cons_of_mem _ hrow))
  rw [inferWith] at h
  split at h
  · obtain ⟨hnone, h⟩ : r.expectedCheckpoint = [] ∧ _ = outputs := by
      split at h
      · cases h
      · rename_i hnone
        exact ⟨not_not.mp hnone, Except.ok.inj h⟩
    subst h
    exact placeOutputs_answered hs (fun hne => absurd hnone hne) hanswers
  · rename_i hall
    obtain rfl := Except.ok.inj h
    refine placeOutputs_answered hs (fun _ item hmem => ?_) hanswers
    simpa using List.find?_eq_none.mp hall item hmem

/-- The agent of a server that was just started fits the request. -/
theorem getAgent_new_fits {ω : InferDraw Net} (hω : ω.Fresh T) {w : ModelFiles Net} {dim : ℕ}
    {net : Net} (h : (AgentCache.new.getAgent T ω w r dim).1 = .ok net) :
    T.loadStateDict dim r.shards net = .ok () := by
  rw [getAgent_new] at h
  split at h
  · split at h
    · cases h
    · obtain rfl := Except.ok.inj h
      exact hω dim r.shards
  · rename_i time content hfile
    split at h
    · rename_i net' hload
      obtain rfl := Except.ok.inj h
      cases content with
      | error exc => cases hload
      | ok payload =>
        rw [loadCheckpoint] at hload
        split at hload
        · cases hload
        split at hload
        · split at hload
          · rename_i hfits
            obtain rfl := Except.ok.inj hload
            exact hfits
          · cases hload
        · cases hload
    · cases h

include hs in
/-- **A reply has an answer to every item.** -/
theorem freshReply_answered (hM : T.Masks) {ω : InferDraw Net} (hω : ω.Lawful T)
    {w : ModelFiles Net} (h : (freshReply T ω w r).error = none) :
    (freshReply T ω w r).requestID = r.requestID ∧
      List.Forall₂ (Answered r) r.items (freshReply T ω w r).items := by
  have hreply : freshReply T ω w r = r.reply (inferItems T ω .new w r).1 := by
    rw [freshReply, handleInferRequest, if_neg hs.ne']
  rw [hreply] at h ⊢
  cases hitems : (inferItems T ω .new w r).1 with
  | error text =>
    rw [hitems] at h
    cases h
  | ok outputs =>
    refine ⟨rfl, ?_⟩
    change List.Forall₂ (Answered r) r.items outputs
    rw [inferItems] at hitems
    split at hitems
    · cases hitems
    rename_i dim hdim
    rcases hget : AgentCache.new.getAgent T ω w r dim with ⟨agent, cache, w'⟩
    rw [hget] at hitems
    cases agent with
    | ok net =>
      exact inferWith_answered hs hM hω
        (getAgent_new_fits hω.fresh (congrArg Prod.fst hget)) hitems
    | error status =>
      dsimp only at hitems
      split at hitems
      · cases hitems
      · rename_i hnone
        obtain rfl := Except.ok.inj hitems
        rw [List.forall₂_map_right_iff, List.forall₂_same]
        exact fun item _ => safeHeuristic_answered hs (not_not.mp hnone) status item

/-! ## The supervisor -/

/-- The parameters of a batch call. -/
structure InferParams where
  /-- those of the placement -/
  p : SpringConfig
  /-- `Block_Interval` -/
  blockInterval : ℕ
  /-- `SpringEvalSample` -/
  springEvalSample : ℕ
  /-- `SpringModelFile` -/
  springModelFile : String
  /-- `SpringLoadSemanticsVersion` -/
  springLoadSemanticsVersion : String

/-- A `float64` in a JSON text: a whole one has no point. -/
def jsonFloat (q : ℚ) : JsonValue := if q.den = 1 then .int q.num else .float (.num q)

/-- The text of `SpringFeatureMode`. -/
def FeatureMode.text : FeatureMode → String
  | .full => "full"
  | .noIot => "no_iot"

/-- The text of `SpringSceneCostMode`. -/
def SceneCostMode.text : SceneCostMode → String
  | .legacy => "legacy"
  | .cross => "cross"
  | .off => "off"

namespace InferParams

variable (P : InferParams)

/-- `springConfiguredModelPath`. -/
def springConfiguredModelPath : String :=
  if P.springModelFile ≠ "" then P.springModelFile else "spring_lite/checkpoints/spring_ppo.pt"

/-- `springExpectedCheckpointConfig`. -/
def springExpectedCheckpointConfig : List (String × JsonValue) :=
  let p := P.p
  let (mdpMode, rewardMode) :=
    if p.springIOTMode = 1 then ("iot", "iot_dense_balanced") else ("spring", "paper")
  let txIdentity := if p.springIOTMode = 1 ∨ p.springIOTIdentityMode = 1 then "iot" else "raw"
  let (txIdentity, loadVersion) :=
    if springRealAccountsEnabled p then ("iot_v2", "real_accounts_execution_v2_1")
    else (txIdentity, P.springLoadSemanticsVersion)
  [("mdp_mode", .str mdpMode), ("tx_identity_resolved", .str txIdentity),
    ("shards", .int p.shardNum), ("iot_feature_dim", .int (springConfiguredIOTFeatureDim p)),
    ("sender_pos_mode", .int p.springSenderPosMode), ("reward_mode", .str rewardMode),
    ("iot_cstr_weight", jsonFloat p.springIOTCSTRWeight),
    ("iot_balance_weight", jsonFloat p.springIOTBalanceWeight),
    ("iot_comm_cost_weight", jsonFloat p.springIOTCommCostWeight),
    ("iot_hotspot_weight", jsonFloat p.springIOTHotspotWeight),
    ("candidate_top_k", .int p.springCandidateTopK), ("capacity_guard", .int p.springCapacityGuard),
    ("capacity_guard_factor", jsonFloat p.springCapacityGuardFactor),
    ("candidate_load_weight", jsonFloat p.springCandidateLoadWeight),
    ("max_block_size", .int p.maxBlockSizeGlobal), ("block_interval_ms", .int P.blockInterval),
    ("load_semantics_version", .str loadVersion)] ++
  if p.springMechanismVersion = .v3 then
    [("mechanism_version", .str "v3"), ("feature_mode", .str p.springFeatureMode.text),
      ("scene_cost_mode", .str p.springSceneCostMode.text),
      ("trajectory_version", .str "batch_clock_continuous_v1"),
      ("reward_load_basis", .str "stage"), ("state_layout", .str v3StateLayout)]
  else []

/-- The request of `springCallPythonBatch`. -/
def springInferRequest (reqID : ℕ) (items : List SpringBatchInferItem) : InferRequest where
  requestID := reqID
  shards := P.p.shardNum
  iotFeatureDim := springConfiguredIOTFeatureDim P.p
  allowModelInit := P.p.springOnlineTrain = 1
  sample := P.p.springMode = 2 ∧ (P.p.springOnlineTrain = 1 ∨ P.springEvalSample = 1)
  model := P.springConfiguredModelPath
  expectedCheckpoint := P.springExpectedCheckpointConfig
  items := items

end InferParams

/-- What becomes of a batch. -/
inductive BatchOutcome where
  /-- a panic -/
  | panics (text : String)
  /-- no results -/
  | fails
  /-- the results -/
  | results (items : List InferOutput)

/-- `strings.HasPrefix(text, word)`. -/
def hasPrefix (text word : String) : Bool := word.toList.isPrefixOf text.toList

/-- The check of an item of a reply, in the third version. -/
def springOutputOk (p : SpringConfig) (item : SpringBatchInferItem) (out : InferOutput) : Bool :=
  out.address = item.address ∧ hasPrefix out.source "python_ppo" ∧ out.shard < p.shardNum ∧
    springActionAllowed p.shardNum item.actionMask out.shard

/-- What `springCallPythonBatch` makes of an error. -/
def springBatchFailed (p : SpringConfig) (text : String) : BatchOutcome :=
  if p.springMechanismVersion = .v3 then
    .panics "v3 frozen inference failed; refuse policy fallback"
  else if containsText text.toList "frozen model unavailable" then
    .panics "SPRING frozen PPO preflight failed"
  else .fails

/-- An item of a reply, with the number of the batch. -/
def InferOutput.numbered (reqID : ℕ) (out : InferOutput) : InferOutput :=
  if out.batchID = 0 then { out with batchID := reqID } else out

/-- What `springCallPythonBatch` makes of the reply to a request; `none` is an error of the
pipes or the process. -/
def springBatchOutcome (P : InferParams) (r : InferRequest) (reply : Option InferReply) :
    BatchOutcome :=
  match reply with
  | none => springBatchFailed P.p ""
  | some reply =>
    match reply.error with
    | some text => springBatchFailed P.p text
    | none =>
      let items := reply.items.map (.numbered r.requestID)
      if P.p.springMechanismVersion = .v3 then
        if reply.items.length ≠ r.items.length then .panics "v3 incomplete inference response"
        else if (r.items.zip reply.items).all fun pair => springOutputOk P.p pair.1 pair.2 then
          .results items
        else .panics "v3 invalid inference response; refuse policy fallback"
      else .results items

/-! ## The calls -/

@[simp] theorem JsonValue.scalar_int (n : ℤ) : (JsonValue.int n).Scalar := trivial

@[simp] theorem JsonValue.scalar_str (text : String) : (JsonValue.str text).Scalar := trivial

@[simp] theorem jsonFloat_scalar (q : ℚ) : (jsonFloat q).Scalar := by
  rw [jsonFloat]
  split
  · trivial
  · rfl

namespace InferParams

variable (P : InferParams)

theorem springExpectedCheckpointConfig_keys :
    P.springExpectedCheckpointConfig.map (·.1) =
      ["mdp_mode", "tx_identity_resolved", "shards", "iot_feature_dim", "sender_pos_mode",
        "reward_mode", "iot_cstr_weight", "iot_balance_weight", "iot_comm_cost_weight",
        "iot_hotspot_weight", "candidate_top_k", "capacity_guard", "capacity_guard_factor",
        "candidate_load_weight", "max_block_size", "block_interval_ms",
        "load_semantics_version"] ++
      if P.p.springMechanismVersion = .v3 then
        ["mechanism_version", "feature_mode", "scene_cost_mode", "trajectory_version",
          "reward_load_basis", "state_layout"]
      else [] := by
  rw [springExpectedCheckpointConfig, List.map_append, apply_ite (List.map _)]
  rfl

/-- **The supervisor expects nothing that contradicts itself.** -/
theorem springInferRequest_consistent (reqID : ℕ) (items : List SpringBatchInferItem) :
    (P.springInferRequest reqID items).Consistent where
  nodup := by
    change (P.springExpectedCheckpointConfig.map (·.1)).Nodup
    rw [springExpectedCheckpointConfig_keys]
    split
    · decide
    · decide
  scalar := by
    change ∀ e ∈ P.springExpectedCheckpointConfig, e.2.Scalar
    rw [springExpectedCheckpointConfig, List.forall_mem_append]
    constructor
    · simp
    · split
      · simp
      · exact nofun
  source := by
    change _ ∉ P.springExpectedCheckpointConfig.map (·.1) ∧
      _ ∉ P.springExpectedCheckpointConfig.map (·.1)
    rw [springExpectedCheckpointConfig_keys]
    split
    · decide
    · decide
  featureDim v h := by
    change ("iot_feature_dim", v) ∈ P.springExpectedCheckpointConfig at h
    change v = .int (springConfiguredIOTFeatureDim P.p)
    rw [springExpectedCheckpointConfig] at h
    rcases List.mem_append.mp h with h | h
    · simpa using h
    · split at h
      · simp at h
      · cases h

theorem springExpectedCheckpointConfig_ne_nil : P.springExpectedCheckpointConfig ≠ [] := by
  rw [springExpectedCheckpointConfig]
  exact List.append_ne_nil_of_left_ne_nil (List.cons_ne_nil _ _) _

/-- The requests of the supervisor: a mask is given for every shard, or not at all. -/
def Asks (r : InferRequest) : Prop :=
  0 < P.p.shardNum ∧ ∃ reqID items, r = P.springInferRequest reqID items ∧
    ∀ item ∈ items, item.actionMask = [] ∨ item.actionMask.length = P.p.shardNum

end InferParams

/-- A mask that is not given allows all shards, on both sides. -/
theorem normalizeActionMask_nil (shards : ℕ) :
    normalizeActionMask [] shards = springNormalizeActionMask shards [] := by
  have hzero : springActionMaskCount
      ((List.range shards).map fun sid => if 0 < ([] : List ℕ).getD sid 0 then 1 else 0) = 0 := by
    rw [springActionMaskCount, List.countP_eq_zero]
    simp
  rw [springNormalizeActionMask, if_pos hzero, normalizeActionMask]
  split
  · rename_i hs
    rw [hs]
    rfl
  · simp

/-- The checks of the supervisor pass. -/
theorem springOutputOk_answered {P : InferParams} {r : InferRequest} (hasks : P.Asks r)
    {item : SpringBatchInferItem} (hitem : item ∈ r.items) {out : InferOutput}
    (h : Answered r item out) : springOutputOk P.p item out = true := by
  obtain ⟨hs, reqID, items, rfl, hmasks⟩ := hasks
  have hmask : normalizeActionMask item.actionMask P.p.shardNum =
      springNormalizeActionMask P.p.shardNum item.actionMask := by
    rcases hmasks item hitem with hnil | hlen
    · rw [hnil]
      exact normalizeActionMask_nil _
    · exact normalizeActionMask_eq hlen
  have hallowed : 0 < (normalizeActionMask item.actionMask P.p.shardNum).getD out.shard 0 :=
    h.allowed
  have hsource := h.source P.springExpectedCheckpointConfig_ne_nil
  rw [hmask] at hallowed
  rw [springOutputOk, hsource, springActionAllowed]
  exact decide_eq_true ⟨h.address, rfl, h.lt, decide_eq_true hallowed⟩

/-- The answers have the number of their batch. -/
theorem map_numbered {r : InferRequest} {items : List SpringBatchInferItem}
    {outs : List InferOutput} (h : List.Forall₂ (Answered r) items outs) :
    outs.map (.numbered r.requestID) = outs := by
  induction h with
  | nil => rfl
  | @cons item out _ _ hout _ ih =>
    have hsame : out.numbered r.requestID = out := by
      rw [InferOutput.numbered, ← hout.batchID]
      exact ite_self _
    rw [List.map_cons, hsame, ih]

/-- **A whole reply is taken as it is.** -/
theorem springBatchOutcome_answered {P : InferParams} {r : InferRequest} (hasks : P.Asks r)
    {rep : InferReply} (herr : rep.error = none)
    (h : List.Forall₂ (Answered r) r.items rep.items) :
    springBatchOutcome P r (some rep) = .results rep.items := by
  have hok : (r.items.zip rep.items).all (fun pair => springOutputOk P.p pair.1 pair.2) =
      true := by
    rw [List.all_eq_true]
    exact fun pair hpair =>
      springOutputOk_answered hasks (List.of_mem_zip hpair).1 (List.forall₂_zip h hpair)
  rw [springBatchOutcome]
  dsimp only
  rw [herr]
  dsimp only
  rw [map_numbered h, if_neg (not_not.mpr h.length_eq.symm), if_pos hok, ite_self]

theorem springBatchFailed_ne (p : SpringConfig) (text : String) (items : List InferOutput) :
    springBatchFailed p text ≠ .results items := by
  rw [springBatchFailed]
  split
  · exact nofun
  · split
    · exact nofun
    · exact nofun

/-- Results come from a reply without an error. -/
theorem springBatchOutcome_results {P : InferParams} {r : InferRequest}
    {reply : Option InferReply} {items : List InferOutput}
    (h : springBatchOutcome P r reply = .results items) :
    ∃ rep, reply = some rep ∧ rep.error = none := by
  cases reply with
  | none => exact absurd h (springBatchFailed_ne _ _ _)
  | some rep =>
    refine ⟨rep, rfl, ?_⟩
    cases herr : rep.error with
    | none => rfl
    | some text =>
      rw [springBatchOutcome] at h
      dsimp only at h
      rw [herr] at h
      exact absurd h (springBatchFailed_ne _ _ _)

/-- **What the supervisor takes.** A reply is what a server that was just started would have
replied, from the model files as they were at some time of the call. What the supervisor takes
of it answers all items of its request, in order, with shards that their masks allow, and its
checks fail on no reply. A call is never stuck. -/
theorem inference_replies (hT : T.Lawful) (hM : T.Masks) {w₀ : ModelFiles Net}
    (hw : w₀.Stamped) {s : State (ModelFiles Net) (AgentCache Net) InferRequest InferReply}
    (hrun : Reaches (step (handleInferRequest T) .new fun o w => some (FileMove.apply w o))
      (fun _ a => a.Ok (fun r => ∃ P : InferParams, P.Asks r) (·.Lawful T)) (.start w₀) s) :
    (∀ c ∈ s.log, ∀ P : InferParams, P.Asks c.request →
      (∀ rep, c.reply = some rep →
        (∃ w ∈ c.seen, ∃ ω : InferDraw Net, ω.Lawful T ∧ rep = freshReply T ω w c.request) ∧
          (rep.error = none → springBatchOutcome P c.request c.reply = .results rep.items)) ∧
      ∀ items, springBatchOutcome P c.request c.reply = .results items →
        List.Forall₂ (Answered c.request) c.request.items items) ∧
    (s.call.isSome →
      (∀ ω, ∃ t, step (handleInferRequest T) .new (fun o w => some (FileMove.apply w o)) s
        (.serve ω) = some t) ∨
      ∃ t, step (handleInferRequest T) .new (fun o w => some (FileMove.apply w o)) s
        .take = some t) := by
  have ht := handleRequest_transparent hT (fun ω (hω : InferDraw.Lawful T ω) => hω.fresh)
  have hrun' : Reaches (step (handleInferRequest T) .new fun o w => some (FileMove.apply w o))
      (fun _ a => a.Ok InferRequest.Consistent (·.Lawful T)) (.start w₀) s := by
    refine hrun.mono fun _ a ha => ?_
    cases a with
    | call r =>
      obtain ⟨P, -, reqID, items, rfl, -⟩ := ha
      exact P.springInferRequest_consistent reqID items
    | serve ω => exact ha
    | _ => trivial
  constructor
  · intro c hc P hasks
    have hs : 0 < c.request.shards := by
      obtain ⟨hs, reqID, items, hr, -⟩ := hasks
      rw [hr]
      exact hs
    have hreply : ∀ rep, c.reply = some rep →
        (∃ w ∈ c.seen, ∃ ω : InferDraw Net, ω.Lawful T ∧ rep = freshReply T ω w c.request) ∧
          (rep.error = none →
            List.Forall₂ (Answered c.request) c.request.items rep.items) := by
      intro rep hrep
      obtain ⟨-, w, hseen, ω, hω, rfl⟩ := replies_answer ht hw hrun' hc hrep
      exact ⟨⟨w, hseen, ω, hω, rfl⟩, fun herr => (freshReply_answered hs hM hω herr).2⟩
    refine ⟨fun rep hrep => ⟨(hreply rep hrep).1, fun herr => ?_⟩, fun items hitems => ?_⟩
    · rw [hrep]
      exact springBatchOutcome_answered hasks herr ((hreply rep hrep).2 herr)
    · obtain ⟨rep, hrep, herr⟩ := springBatchOutcome_results hitems
      have hanswers := (hreply rep hrep).2 herr
      rw [hrep, springBatchOutcome_answered hasks herr hanswers] at hitems
      rwa [← BatchOutcome.results.inj hitems]
  · intro hcall
    have hpaired := hrun'.invariant _ (Paired.start hw) fun _ _ _ h ha hstep => h.step ht ha hstep
    exact hpaired.call_moves hcall

/-! ## A call -/

/-- A scalar value, as a pair of numbers and texts would be. -/
def scalarCode : JsonValue → Option (Bool ⊕ ℤ ⊕ ℚ ⊕ List ℕ)
  | .bool b => some (.inl b)
  | .int n => some (.inr (.inl n))
  | .float (.num q) => some (.inr (.inr (.inl q)))
  | .str text => some (.inr (.inr (.inr (text.toList.map Char.toNat))))
  | _ => none

/-- The value back. -/
def scalarOf : Option (Bool ⊕ ℤ ⊕ ℚ ⊕ List ℕ) → JsonValue
  | none => .null
  | some (.inl b) => .bool b
  | some (.inr (.inl n)) => .int n
  | some (.inr (.inr (.inl q))) => .float (.num q)
  | some (.inr (.inr (.inr codes))) => .str (String.ofList (codes.map Char.ofNat))

theorem text_ofCodes (text : String) :
    String.ofList ((text.toList.map Char.toNat).map Char.ofNat) = text := by
  rw [List.map_map]
  simp [Function.comp_def]

theorem scalarOf_scalarCode {v : JsonValue} (hv : v.Scalar) : scalarOf (scalarCode v) = v := by
  cases v with
  | float x =>
    cases x with
    | num q => rfl
    | posInf => cases hv
    | negInf => cases hv
    | nan i => cases hv
  | str text => exact congrArg JsonValue.str (text_ofCodes text)
  | arr items => exact hv.elim
  | obj fields => exact hv.elim
  | null => rfl
  | bool b => rfl
  | int n => rfl

/-- Networks that know their sizes, and have the same logit for every shard. -/
def uniformEnv : InferEnv (ℕ × ℕ) where
  same a b := scalarCode a = scalarCode b
  floatOf
    | .float x => some x
    | .int n => some (.num n)
    | _ => none
  repr _ := ""
  dumps d := String.ofList (List.replicate (Encodable.encode
    (d.map fun e => (e.1.toList.map Char.toNat, scalarCode e.2))) '1')
  loadStateDict dim shards net :=
    if net = (dim, shards) then .ok () else .error "size mismatch"
  forward net states := states.map fun _ => (List.replicate net.2 0, 0)
  lowest := -17 * 10 ^ 37
  softmax logits := logits.map fun x => if x = 0 then 1 / (logits.count 0 : ℕ) else 0
  logProb _ _ := 0
  entropy _ := 0
  stableHashIndex _ _ := 0

theorem uniformEnv_lawful : uniformEnv.Lawful where
  same v _ := decide_eq_true rfl
  floatOf _ := rfl
  dumps a b ha hb _ _ h := by
    have hback : ∀ d : List (String × JsonValue), (∀ e ∈ d, e.2.Scalar) →
        (d.map fun e => (e.1.toList.map Char.toNat, scalarCode e.2)).map
          (fun e => (String.ofList (e.1.map Char.ofNat), scalarOf e.2)) = d := by
      intro d hd
      rw [List.map_map]
      conv_rhs => rw [← List.map_id d]
      refine List.map_congr_left fun e he => ?_
      simp only [Function.comp_apply, text_ofCodes, scalarOf_scalarCode (hd e he)]
      rfl
    have hlen := congrArg List.length (String.ofList_injective h)
    rw [List.length_replicate, List.length_replicate] at hlen
    have hsame := Encodable.encode_injective hlen
    rw [← hback a ha, hsame, hback b hb]

theorem uniformEnv_masks : uniformEnv.Masks where
  forward {dim shards net states} hnet _ := by
    have hsizes : net = (dim, shards) := by
      by_contra hne
      cases (if_neg hne).symm.trans hnet
    subst hsizes
    refine ⟨List.length_map .., fun row hrow => ?_⟩
    obtain ⟨_, _, rfl⟩ := List.mem_map.mp hrow
    exact List.length_replicate
  softmax {net states row mask} hrow hmask hany := by
    obtain ⟨_, -, rfl⟩ := List.mem_map.mp hrow
    have hlen : mask.length = (List.replicate net.2 (0 : ℚ)).length := hmask
    have hall : ¬mask.all (· = 0) = true := by
      simpa [List.any_eq_true, List.all_eq_true] using hany
    have hmasked : maskLogits uniformEnv.lowest (List.replicate net.2 0) mask =
        mask.map fun m => if m = 0 then uniformEnv.lowest else 0 := by
      rw [List.length_replicate] at hlen
      rw [maskLogits, if_neg (by simp [hlen]), if_neg hall, ← hlen]
      refine List.ext_getElem (by simp) fun i _ _ => ?_
      simp
    have hlowest : uniformEnv.lowest ≠ 0 := by norm_num [uniformEnv]
    -- a shard that is allowed has its share
    have hread : ∀ i, (hi : i < mask.length) →
        (uniformEnv.softmax (mask.map fun m => if m = 0 then uniformEnv.lowest else 0)).getD i 0 =
          if mask[i] = 0 then (0 : ℚ)
          else 1 / ((mask.map fun m => if m = 0 then uniformEnv.lowest else 0).count 0 : ℕ) := by
      intro i hi
      change (List.map _ (List.map _ mask)).getD i 0 = _
      rw [List.getD_eq_getElem?_getD, List.getElem?_eq_getElem (by simpa using hi),
        Option.getD_some, List.getElem_map, List.getElem_map]
      split <;> simp_all
    rw [hmasked]
    constructor
    · intro i hzero
      by_cases hi : i < mask.length
      · rw [hread i hi, if_pos]
        rwa [List.getD_eq_getElem?_getD, List.getElem?_eq_getElem hi, Option.getD_some] at hzero
      · change (List.map _ (List.map _ mask)).getD i 0 = 0
        rw [List.getD_eq_getElem?_getD, List.getElem?_eq_none (by simpa using hi),
          Option.getD_none]
    · obtain ⟨m, hm, hne⟩ := List.any_eq_true.mp hany
      obtain ⟨i, hi, rfl⟩ := List.getElem_of_mem hm
      have hne : mask[i] ≠ 0 := of_decide_eq_true hne
      have hcount : 0 < (mask.map fun m => if m = 0 then uniformEnv.lowest else 0).count 0 :=
        List.count_pos_iff.mpr (List.mem_map.mpr ⟨_, hm, if_neg hne⟩)
      refine ⟨i, ?_⟩
      rw [hread i hi, if_neg hne]
      positivity

/-- New networks have their sizes, and what is sampled is the first that has a probability. -/
def firstDraw : InferDraw (ℕ × ℕ) where
  net dim shards := (dim, shards)
  sample rows := rows.map fun probs => probs.findIdx (0 < ·)

theorem firstDraw_lawful : firstDraw.Lawful uniformEnv where
  fresh dim shards := if_pos rfl
  sample rows h := by
    refine List.forall₂_map_right_iff.mpr (List.forall₂_same.mpr fun probs hprobs => ?_)
    obtain ⟨i, hi⟩ := h probs hprobs
    have hsome : ∃ x ∈ probs, decide (0 < x) = true := by
      by_cases hlt : i < probs.length
      · rw [List.getD_eq_getElem?_getD, List.getElem?_eq_getElem hlt, Option.getD_some] at hi
        exact ⟨_, List.getElem_mem hlt, decide_eq_true hi⟩
      · rw [List.getD_eq_getElem?_getD, List.getElem?_eq_none (not_lt.mp hlt)] at hi
        exact absurd hi (lt_irrefl _)
    have hlt := List.findIdx_lt_length_of_exists hsome
    change 0 < probs.getD (probs.findIdx (0 < ·)) 0
    rw [List.getD_eq_getElem?_getD, List.getElem?_eq_getElem hlt, Option.getD_some]
    simpa using List.findIdx_getElem (w := hlt)

/-- Frozen inference in the third version, on two shards. -/
def frozenParams : InferParams where
  p := { SpringConfig.default 2 with springMechanismVersion := .v3 }
  blockInterval := 5000
  springEvalSample := 0
  springModelFile := "spring_ppo.pt"
  springLoadSemanticsVersion := "tx_count_v1"

/-- The second shard is allowed. -/
def frozenRequest : InferRequest :=
  frozenParams.springInferRequest 1 [⟨"a", "b", List.replicate 36 0, [0, 1]⟩]

/-- A model of the right sizes, with what is expected of it. -/
def frozenFiles : ModelFiles (ℕ × ℕ) where
  clock := 1
  files := Function.update (fun _ => none) "spring_ppo.pt"
    (some (1, .ok ⟨36, 2, frozenRequest.expectedCheckpoint, (36, 2)⟩))

/-- After a reply was written the model file is overwritten, and the second call finds the
server dead. -/
def frozenActions : List (Action InferRequest (InferDraw (ℕ × ℕ)) (FileMove (ℕ × ℕ))) :=
  [.call frozenRequest, .serve firstDraw, .move (.write "spring_ppo.pt" (.error "EOFError")),
    .take, .call { frozenRequest with requestID := 2 }, .die, .take]

/-- The end of the run. -/
def frozenEnd : Option (State (ModelFiles (ℕ × ℕ)) (AgentCache (ℕ × ℕ)) InferRequest InferReply) :=
  runWith (step (handleInferRequest uniformEnv) .new fun o w => some (FileMove.apply w o))
    (fun _ _ => True) (.start frozenFiles) frozenActions

example : frozenEnd.map (fun s => s.log.map fun c => c.reply.map fun rep =>
    (rep.error, rep.items.map fun out => (out.shard, out.confidence))) =
      some [none, some (none, [(1, 1)])] := by decide +kernel

end BlockEmulator
