import BlockEmulator.DiscountedReturns
import BlockEmulator.StepSystem
import BlockEmulator.TrainingDiagnostics

/-!
# Rollouts on the clock of the batches (`continuous_rollout.py`, `ppo.py`)

The collector keeps the placements of the batches until there are enough of them for an
update. Within a batch nothing is discounted. A batch that places nothing adds what it
earns to the last placement before it, discounted by the batches in between. The last
placement of a batch gets its discount when the next decision is due, or none at the end
of the data.

A step of the buffer is one record. What an update answers is left out: the updates are
the buffers that `agent.update` got. An exception is `none`.

* `gaeReturns` — the returns and advantages of a buffer; `gaeReturns_fst` and
  `gaeReturns_snd` say which.
* `ContinuousRollout.beforeDecision`, `addBatch`, `finish` — the methods.
* `CollectorCall`, `callStep` — a call, in any order.
-/

namespace BlockEmulator

open StepSystem DiscountedReturns Fallible

/-! ## Advantages (`_gae_returns`) -/

/-- A position of the arrays that `_gae_returns` runs over. -/
structure GaeStep where
  /-- `rewards` -/
  reward : ℚ
  /-- `dones` -/
  done : Bool
  /-- `values` -/
  value : ℚ
  /-- `next_values` -/
  nextValue : ℚ
  /-- `discounts` -/
  discount : Option ℚ
  /-- `trace_discounts` -/
  traceDiscount : Option ℚ

/-- One round of the loop, from the last position on: `gae` and `advantages`. -/
def gaeRound (gamma gaeLambda : ℚ) (s : GaeStep) (acc : ℚ × List ℚ) : ℚ × List ℚ :=
  let (gae, advantages) := acc
  let nonTerminal : ℚ := if s.done then 0 else 1
  let discount := s.discount.getD gamma
  let trace := s.traceDiscount.getD (gamma * gaeLambda)
  let delta := s.reward + discount * s.nextValue * nonTerminal - s.value
  let gae := delta + trace * nonTerminal * gae
  (gae, gae :: advantages)

/-- `_gae_returns`: the returns and the advantages. -/
def gaeReturns (gamma gaeLambda : ℚ) (steps : List GaeStep) : List ℚ × List ℚ :=
  let (_, advantages) := steps.foldr (gaeRound gamma gaeLambda) (0, [])
  (List.zipWith (fun s advantage => advantage + s.value) steps advantages, advantages)

/-- A position in the terms of the advantages. -/
def GaeStep.step (gamma gaeLambda : ℚ) (s : GaeStep) : Step ℚ where
  reward := s.reward
  discount := s.discount.getD gamma * if s.done then 0 else 1
  trace := s.traceDiscount.getD (gamma * gaeLambda) * if s.done then 0 else 1
  value := s.value
  nextValue := s.nextValue

/-- **The loop computes the advantages.** -/
theorem gaeReturns_snd (gamma gaeLambda : ℚ) (steps : List GaeStep) :
    (gaeReturns gamma gaeLambda steps).2 = advantages (steps.map (·.step gamma gaeLambda)) := by
  have hloop : steps.foldr (gaeRound gamma gaeLambda) (0, []) =
      ((advantages (steps.map (·.step gamma gaeLambda))).headD 0,
        advantages (steps.map (·.step gamma gaeLambda))) := by
    induction steps with
    | nil => rfl
    | cons s steps ih =>
      rw [List.foldr_cons, ih, List.map_cons, advantages, gaeRound]
      have hgae : s.reward + s.discount.getD gamma * s.nextValue * (if s.done then 0 else 1) -
          s.value + s.traceDiscount.getD (gamma * gaeLambda) * (if s.done then 0 else 1) *
            (advantages (steps.map (·.step gamma gaeLambda))).headD 0 =
          (s.step gamma gaeLambda).error + (s.step gamma gaeLambda).trace *
            (advantages (steps.map (·.step gamma gaeLambda))).headD 0 := by
        rw [Step.error, GaeStep.step]
        ring
      rw [hgae, List.headD_cons]
  rw [gaeReturns, hloop]

/-- **And the returns**, where the estimates are those of what follows. -/
theorem gaeReturns_fst {gamma gaeLambda bootstrap : ℚ} {steps : List GaeStep}
    (h : Bootstraps bootstrap (steps.map (·.step gamma gaeLambda))) {i : ℕ}
    (hi : i < steps.length) :
    (gaeReturns gamma gaeLambda steps).1[i]? =
      some (discounted bootstrap ((steps.drop i).map fun s =>
        ((s.step gamma gaeLambda).reward, (s.step gamma gaeLambda).discount))) := by
  have hi' : i < (steps.map (·.step gamma gaeLambda)).length := by rwa [List.length_map]
  have hreturn := return_eq_discounted h hi'
  have hadvantages : i < (advantages (steps.map (·.step gamma gaeLambda))).length := by
    rwa [advantages_length]
  have hfst : (gaeReturns gamma gaeLambda steps).1 =
      List.zipWith (fun (s : GaeStep) advantage => advantage + s.value) steps
        (gaeReturns gamma gaeLambda steps).2 := rfl
  rw [List.getD_eq_getElem _ _ hadvantages, List.getElem_map, ← List.map_drop, List.map_map]
    at hreturn
  rw [hfst, gaeReturns_snd, List.getElem?_zipWith_eq_some]
  exact ⟨steps[i], _, List.getElem?_eq_getElem hi, List.getElem?_eq_getElem hadvantages, hreturn⟩

/-! ## The buffer -/

/-- A step of `RolloutBuffer`. -/
structure RolloutStep where
  /-- `states` -/
  state : List ℚ
  /-- `next_states` -/
  nextState : List ℚ
  /-- `actions` -/
  action : ℕ
  /-- `log_probs` -/
  logProb : ℚ
  /-- `rewards` -/
  reward : ℚ
  /-- `dones` -/
  done : Bool
  /-- `values` -/
  value : ℚ
  /-- `action_masks` -/
  actionMask : List ℕ
  /-- `discounts` -/
  discount : Option ℚ
  /-- `trace_discounts` -/
  traceDiscount : Option ℚ

/-- `RolloutBuffer`. -/
structure RolloutBuffer where
  /-- the steps -/
  steps : List RolloutStep
  /-- `diagnostic_steps` -/
  diagnosticSteps : List DiagnosticStep

/-- The empty buffer, and `clear`. -/
def RolloutBuffer.empty : RolloutBuffer := ⟨[], []⟩

/-- The position of a step, under a critic. -/
def RolloutStep.gaeStep (critic : List ℚ → ℚ) (s : RolloutStep) : GaeStep :=
  ⟨s.reward, s.done, s.value, critic s.nextState, s.discount, s.traceDiscount⟩

/-! ## The collector -/

/-- What a `ContinuousRollout` is made with, and what it reads of the agent. -/
structure RolloutConfig where
  /-- `agent.gamma` -/
  gamma : ℚ
  /-- `agent.gae_lambda` -/
  gaeLambda : ℚ
  /-- `diagnostics` -/
  diagnostics : Bool
  /-- `min_actions` -/
  minActions : ℕ
  /-- `min_batches` -/
  minBatches : ℕ
  /-- `local_weight` -/
  localWeight : ℚ
  /-- `scale` -/
  scale : ℚ
  /-- `scene_cost_mode` -/
  sceneCostMode : SceneCostMode

/-- `ContinuousRollout`. -/
structure ContinuousRollout where
  /-- the configuration -/
  config : RolloutConfig
  /-- `buffer` -/
  buffer : RolloutBuffer
  /-- `batches` -/
  batches : ℕ
  /-- `pending` -/
  pending : Bool
  /-- `elapsed` -/
  elapsed : ℕ
  /-- `updates`: what was updated from -/
  updates : List RolloutBuffer
  /-- `executed_batches` -/
  executedBatches : ℕ
  /-- `revisit_only_batches` -/
  revisitOnlyBatches : ℕ
  /-- `global_reward_sum` -/
  globalRewardSum : ℚ
  /-- `revisit_global_reward_sum` -/
  revisitGlobalRewardSum : ℚ

/-- `l[-1] = f(l[-1])`. -/
def modifyLast {α : Type} (f : α → α) (l : List α) : List α := l.modify (l.length - 1) f

namespace ContinuousRollout

/-- A new collector. -/
def new (config : RolloutConfig) : ContinuousRollout where
  config := config
  buffer := .empty
  batches := 0
  pending := false
  elapsed := 0
  updates := []
  executedBatches := 0
  revisitOnlyBatches := 0
  globalRewardSum := 0
  revisitGlobalRewardSum := 0

variable (r : ContinuousRollout)

/-- `_update`. -/
def update : ContinuousRollout :=
  { r with
    updates := r.updates ++ [r.buffer]
    buffer := .empty
    batches := 0 }

/-- The last step, when the state of the next decision is known. -/
def settle (state : List ℚ) (s : RolloutStep) : RolloutStep :=
  { s with
    nextState := state
    discount := some (r.config.gamma ^ r.elapsed)
    traceDiscount := some ((r.config.gamma * r.config.gaeLambda) ^ r.elapsed) }

/-- `before_decision`. -/
def beforeDecision (state : List ℚ) : ContinuousRollout :=
  if r.pending = false then r
  else
    let r := { r with
      buffer := { r.buffer with steps := modifyLast (r.settle state) r.buffer.steps }
      pending := false }
    if r.buffer.steps.length ≥ r.config.minActions ∧ r.batches ≥ r.config.minBatches then r.update
    else r

/-- The local part of the reward of an action. -/
def localReward (c : RolloutConfig) (size : ℕ) (a : RolloutAction) : ℚ :=
  c.scale * c.localWeight * springClamp a.localReward (-1) 1 / size

/-- `global_reward` of `add_batch`. -/
def globalReward (c : RolloutConfig) (batchReward : ℚ) : ℚ :=
  c.scale * (1 - c.localWeight) * springClamp batchReward (-1) 1

/-- What `add_batch` adds for the action at a position. -/
def stepOf (c : RolloutConfig) (actions : List RolloutAction) (batchReward : ℚ)
    (e : RolloutAction × ℕ) : RolloutStep :=
  let reward := localReward c actions.length e.1
  { state := e.1.state
    nextState := ((actions[e.2 + 1]?).map (·.state)).getD e.1.nextState
    action := e.1.action
    logProb := e.1.logProb
    reward := if e.2 = actions.length - 1 then reward + globalReward c batchReward else reward
    done := false
    value := e.1.value
    actionMask := e.1.actionMask
    discount := some 1
    traceDiscount := some 1 }

/-- And the record beside it. -/
def recordOf (c : RolloutConfig) (size : ℕ) (batchReward : ℚ) (e : DiagnosticStep × ℕ) :
    DiagnosticStep :=
  { e.1 with globalReward := if e.2 = size - 1 then globalReward c batchReward else 0 }

/-- `add_batch`. -/
def addBatch (actions : List RolloutAction) (batchReward : ℚ) : Option ContinuousRollout :=
  let reward := globalReward r.config batchReward
  let r := { r with
    executedBatches := r.executedBatches + 1
    batches := r.batches + 1
    globalRewardSum := r.globalRewardSum + reward }
  if actions = [] then
    if r.pending = false then none
    else
      let earned := r.config.gamma ^ r.elapsed * reward
      some { r with
        revisitOnlyBatches := r.revisitOnlyBatches + 1
        revisitGlobalRewardSum := r.revisitGlobalRewardSum + reward
        buffer := {
          steps := modifyLast (fun s => { s with reward := s.reward + earned }) r.buffer.steps
          diagnosticSteps :=
            if r.config.diagnostics then
              modifyLast (fun d => { d with globalReward := d.globalReward + earned })
                r.buffer.diagnosticSteps
            else r.buffer.diagnosticSteps }
        elapsed := r.elapsed + 1 }
  else if r.pending then none
  else if actions.any fun a => !"python_ppo".toList.isPrefixOf a.source.toList then none
  else
    (if r.config.diagnostics then
      placementDiagnostics actions r.config.localWeight r.config.scale r.config.sceneCostMode
    else some []).map fun records =>
      { r with
        buffer := {
          steps := r.buffer.steps ++ actions.zipIdx.map (stepOf r.config actions batchReward)
          diagnosticSteps := r.buffer.diagnosticSteps ++
            records.zipIdx.map (recordOf r.config actions.length batchReward) }
        pending := true
        elapsed := 1 }

/-- `finish`. -/
def finish : ContinuousRollout :=
  if r.buffer.steps = [] then { r with pending := false }
  else
    let last := fun (s : RolloutStep) =>
      { s with done := true, discount := some 0, traceDiscount := some 0 }
    { ({ r with buffer := { r.buffer with steps := modifyLast last r.buffer.steps } }).update with
      pending := false }

end ContinuousRollout

/-- A call of a method. -/
inductive CollectorCall
  /-- `before_decision` -/
  | beforeDecision (state : List ℚ)
  /-- `add_batch` -/
  | addBatch (actions : List RolloutAction) (batchReward : ℚ)
  /-- `finish` -/
  | finish

/-- The collector after a call. -/
def callStep (r : ContinuousRollout) : CollectorCall → Option ContinuousRollout
  | .beforeDecision state => some (r.beforeDecision state)
  | .addBatch actions batchReward => r.addBatch actions batchReward
  | .finish => some r.finish

/-- A batch updates nothing. -/
theorem addBatch_frame {r r' : ContinuousRollout} {actions : List RolloutAction}
    {batchReward : ℚ} (h : r.addBatch actions batchReward = some r') :
    r'.config = r.config ∧ r'.updates = r.updates := by
  unfold ContinuousRollout.addBatch at h
  dsimp only at h
  split at h
  · split at h
    · cases h
    · obtain rfl := Option.some.inj h
      exact ⟨rfl, rfl⟩
  · split at h
    · cases h
    · split at h
      · cases h
      · obtain ⟨records, -, rfl⟩ := Option.map_eq_some_iff.mp h
        exact ⟨rfl, rfl⟩

/-! ## The last step -/

theorem modifyLast_concat {α : Type} (f : α → α) (l : List α) (x : α) :
    modifyLast f (l ++ [x]) = l ++ [f x] := by
  have hlast : (l ++ [x]).length - 1 = l.length := by simp
  rw [modifyLast, hlast]
  clear hlast
  induction l with
  | nil => rfl
  | cons y l ih => rw [List.cons_append, List.length_cons, List.modify_succ_cons, ih, List.cons_append]

@[simp] theorem modifyLast_length {α : Type} (f : α → α) (l : List α) :
    (modifyLast f l).length = l.length := List.length_modify _ _ _

/-! ## One shard -/

/-- Half of the rewards is local, and updates take two batches. -/
def halfConfig (diagnostics : Bool) : RolloutConfig where
  gamma := 1 / 2
  gaeLambda := 1
  diagnostics := diagnostics
  minActions := 1
  minBatches := 2
  localWeight := 1 / 2
  scale := 1
  sceneCostMode := .cross

/-- An action on one shard, in a state that starts with its value. -/
def plainAction (value : ℚ) : RolloutAction where
  batchID := 0
  state := value :: List.replicate 11 1
  nextState := value :: List.replicate 11 1
  action := 0
  logProb := 0
  value := value
  localReward := 1
  senderPos := [0]
  source := "python_ppo"
  actionMask := [1]
  costByShard := [0]

end BlockEmulator
