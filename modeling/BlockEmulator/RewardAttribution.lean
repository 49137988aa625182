import BlockEmulator.ContinuousRollout

/-!
# The parts of rewards and advantages (`UpdateDiagnostics`)

With the diagnostics on, the collector keeps beside every step the local and the global
part of its reward. The diagnostics of an update run the advantages over either part
alone, and over the values alone.

* `Accounted` — the parts beside the steps, kept by every call.
* `updateDiagnostics` — the parts of the advantages.
* `attribution_adds_up` — **both add up**, in every run of calls.
-/

namespace BlockEmulator

open StepSystem DiscountedReturns ContinuousRollout Fallible

/-! ## The parts of the advantages -/

/-- `components` of `UpdateDiagnostics`. -/
structure AdvantageComponents where
  /-- `local` -/
  localPart : List ℚ
  /-- `global_reward` -/
  globalPart : List ℚ
  /-- `value` -/
  valuePart : List ℚ

/-- A position with one reward and no values: a call of `gae` with zeros. -/
def rewardStep (reward : DiagnosticStep → ℚ) (e : RolloutStep × DiagnosticStep) : GaeStep :=
  ⟨reward e.2, e.1.done, 0, 0, e.1.discount, e.1.traceDiscount⟩

/-- A position with the values and no reward. -/
def valueStep (critic : List ℚ → ℚ) (e : RolloutStep × DiagnosticStep) : GaeStep :=
  ⟨0, e.1.done, e.1.value, critic e.1.nextState, e.1.discount, e.1.traceDiscount⟩

/-- `UpdateDiagnostics`, as far as the parts; `none` is a `ValueError`. -/
def updateDiagnostics (gamma gaeLambda : ℚ) (critic : List ℚ → ℚ) (b : RolloutBuffer) :
    Option AdvantageComponents :=
  if b.diagnosticSteps.length ≠ b.steps.length then none
  else
    let entries := b.steps.zip b.diagnosticSteps
    let gae := fun (position : RolloutStep × DiagnosticStep → GaeStep) =>
      (gaeReturns gamma gaeLambda (entries.map position)).2
    some ⟨gae (rewardStep (·.localReward)), gae (rewardStep (·.globalReward)), gae (valueStep critic)⟩

/-! ## The parts of the rewards -/

/-- Beside every step stand the parts of its reward. -/
structure Accounted (b : RolloutBuffer) : Prop where
  /-- one record for each step -/
  length : b.diagnosticSteps.length = b.steps.length
  /-- the local and the global part are the reward -/
  reward : ∀ (i : ℕ) (d : DiagnosticStep) (s : RolloutStep),
    b.diagnosticSteps[i]? = some d → b.steps[i]? = some s →
      d.localReward + d.globalReward = s.reward

theorem Accounted.empty : Accounted .empty := ⟨rfl, fun i d s h => by cases h⟩

/-- Changes of the last step that leave its reward. -/
theorem Accounted.modifyLast_same {b : RolloutBuffer} (h : Accounted b)
    {f : RolloutStep → RolloutStep} (hf : ∀ s, (f s).reward = s.reward) :
    Accounted { b with steps := modifyLast f b.steps } where
  length := by
    rw [modifyLast_length]
    exact h.length
  reward i d s hd hs := by
    dsimp only at hd hs
    rw [modifyLast, List.getElem?_modify] at hs
    obtain ⟨s₀, hs₀, rfl⟩ := Option.map_eq_some_iff.mp hs
    have hold := h.reward i d s₀ hd hs₀
    split
    · rw [hf]
      exact hold
    · exact hold

/-- What is earned later is global, and is added to both. -/
theorem Accounted.modifyLast_add {b : RolloutBuffer} (h : Accounted b) (earned : ℚ) :
    Accounted
      { steps := modifyLast (fun s => { s with reward := s.reward + earned }) b.steps
        diagnosticSteps :=
          modifyLast (fun d => { d with globalReward := d.globalReward + earned })
            b.diagnosticSteps } where
  length := by
    dsimp only
    rw [modifyLast_length, modifyLast_length]
    exact h.length
  reward i d s hd hs := by
    dsimp only at hd hs
    rw [modifyLast, List.getElem?_modify] at hd hs
    obtain ⟨d₀, hd₀, rfl⟩ := Option.map_eq_some_iff.mp hd
    obtain ⟨s₀, hs₀, rfl⟩ := Option.map_eq_some_iff.mp hs
    have hold := h.reward i d₀ s₀ hd₀ hs₀
    rw [h.length]
    split
    · dsimp only
      rw [← hold, add_assoc]
    · exact hold

/-- The record of an action has its local reward. -/
theorem placementDiagnostic_local {localWeight scale : ℚ} {sceneCostMode : SceneCostMode}
    {batchSize position : ℕ} {a : RolloutAction} {record : DiagnosticStep}
    (h : placementDiagnostic localWeight scale sceneCostMode batchSize position a = some record) :
    record.localReward = scale * localWeight * springClamp a.localReward (-1) 1 / batchSize := by
  unfold placementDiagnostic at h
  dsimp only at h
  split at h
  · cases h
  obtain ⟨parts, -, h⟩ := Option.bind_eq_some_iff.mp h
  obtain ⟨selected, -, h⟩ := Option.bind_eq_some_iff.mp h
  obtain ⟨part, -, h⟩ := Option.bind_eq_some_iff.mp h
  obtain ⟨most, -, h⟩ := Option.bind_eq_some_iff.mp h
  obtain ⟨least, -, rfl⟩ := Option.map_eq_some_iff.mp h
  rfl

/-- The records of a batch, beside its steps. -/
theorem Accounted.append {c : RolloutConfig} {b : RolloutBuffer} (h : Accounted b)
    {actions : List RolloutAction} (batchReward : ℚ) {records : List DiagnosticStep}
    (hrecords : placementDiagnostics actions c.localWeight c.scale c.sceneCostMode =
      some records) :
    Accounted
      { steps := b.steps ++ actions.zipIdx.map (stepOf c actions batchReward)
        diagnosticSteps := b.diagnosticSteps ++
          records.zipIdx.map (recordOf c actions.length batchReward) } := by
  have hlength : records.length = actions.length := by
    rw [mapM_length hrecords, List.length_zipIdx]
  refine ⟨by simp [h.length, hlength], fun i d s hd hs => ?_⟩
  dsimp only at hd hs
  rcases Nat.lt_or_ge i b.steps.length with hlt | hge
  · rw [List.getElem?_append_left (by rw [h.length]; exact hlt)] at hd
    rw [List.getElem?_append_left hlt] at hs
    exact h.reward i d s hd hs
  · rw [List.getElem?_append_right (by rw [h.length]; exact hge), h.length] at hd
    rw [List.getElem?_append_right hge] at hs
    obtain ⟨hj, rfl⟩ := List.getElem?_eq_some_iff.mp hs
    generalize i - b.steps.length = j at hd hj ⊢
    have hj : j < actions.length := by simpa using hj
    obtain ⟨hj', rfl⟩ := List.getElem?_eq_some_iff.mp hd
    have hjr : j < records.length := hlength ▸ hj
    have hrecord := getElem_mapM hrecords (show j < actions.zipIdx.length by simpa using hj)
    rw [List.getElem?_eq_getElem hjr, List.getElem_zipIdx] at hrecord
    have hlocal := placementDiagnostic_local hrecord
    simp only [List.getElem_map, List.getElem_zipIdx, zero_add, recordOf, stepOf]
    rw [hlocal]
    split
    · rfl
    · exact add_zero _

/-! ## Runs -/

/-- What every call keeps. -/
structure CollectorOk (c : RolloutConfig) (r : ContinuousRollout) : Prop where
  /-- the configuration stays -/
  config : r.config = c
  /-- the parts of the open buffer -/
  buffer : Accounted r.buffer
  /-- and of those that were updated from -/
  updates : ∀ u ∈ r.updates, Accounted u

variable {c : RolloutConfig} {r r' : ContinuousRollout}

theorem CollectorOk.update (h : CollectorOk c r) : CollectorOk c r.update where
  config := h.config
  buffer := .empty
  updates u hu := by
    rcases List.mem_append.mp hu with hold | hnew
    · exact h.updates u hold
    · obtain rfl := List.mem_singleton.mp hnew
      exact h.buffer

theorem CollectorOk.beforeDecision (h : CollectorOk c r) (state : List ℚ) :
    CollectorOk c (r.beforeDecision state) := by
  unfold ContinuousRollout.beforeDecision
  split
  · exact h
  · have hsettled : CollectorOk c { r with
        buffer := { r.buffer with steps := modifyLast (r.settle state) r.buffer.steps }
        pending := false } :=
      ⟨h.config, h.buffer.modifyLast_same fun _ => rfl, h.updates⟩
    dsimp only
    split
    · exact hsettled.update
    · exact hsettled

theorem CollectorOk.addBatch (hdiagnostics : c.diagnostics = true) (h : CollectorOk c r)
    {actions : List RolloutAction} {batchReward : ℚ}
    (hadd : r.addBatch actions batchReward = some r') : CollectorOk c r' := by
  obtain ⟨hconfig, hupdates⟩ := addBatch_frame hadd
  refine ⟨hconfig.trans h.config, ?_, hupdates ▸ h.updates⟩
  have hon : r.config.diagnostics = true := by rw [h.config]; exact hdiagnostics
  unfold ContinuousRollout.addBatch at hadd
  dsimp only at hadd
  split at hadd
  · split at hadd
    · cases hadd
    · obtain rfl := Option.some.inj hadd
      exact h.buffer.modifyLast_add _
  · split at hadd
    · cases hadd
    · split at hadd
      · cases hadd
      · obtain ⟨records, hrecords, rfl⟩ := Option.map_eq_some_iff.mp hadd
        exact h.buffer.append batchReward hrecords

theorem CollectorOk.finish (h : CollectorOk c r) : CollectorOk c r.finish := by
  unfold ContinuousRollout.finish
  split
  · exact ⟨h.config, h.buffer, h.updates⟩
  · have hended : CollectorOk c { r with
        buffer := { r.buffer with
          steps := modifyLast (fun s =>
            { s with done := true, discount := some 0, traceDiscount := some 0 })
            r.buffer.steps } } :=
      ⟨h.config, h.buffer.modifyLast_same fun _ => rfl, h.updates⟩
    exact ⟨h.config, hended.update.buffer, hended.update.updates⟩

theorem CollectorOk.call (hdiagnostics : c.diagnostics = true) (h : CollectorOk c r)
    {call : CollectorCall} (hstep : callStep r call = some r') : CollectorOk c r' := by
  cases call with
  | beforeDecision state =>
    obtain rfl := Option.some.inj hstep
    exact h.beforeDecision state
  | addBatch actions batchReward => exact h.addBatch hdiagnostics hstep
  | finish =>
    obtain rfl := Option.some.inj hstep
    exact h.finish

/-- **The parts of the advantages add up**, over any critic. -/
theorem Accounted.parts_add {b : RolloutBuffer} (h : Accounted b) (gamma gaeLambda : ℚ)
    (critic : List ℚ → ℚ) : ∃ parts, updateDiagnostics gamma gaeLambda critic b = some parts ∧
      List.zipWith (· + ·) (List.zipWith (· + ·) parts.localPart parts.globalPart)
          parts.valuePart =
        (gaeReturns gamma gaeLambda (b.steps.map (·.gaeStep critic))).2 := by
  unfold updateDiagnostics
  rw [if_neg (not_not.mpr h.length)]
  refine ⟨_, rfl, ?_⟩
  dsimp only
  simp only [gaeReturns_snd, List.map_map]
  -- the two rewards over no values, and then the values
  have hrewards : List.zipWith (· + ·)
      (advantages ((b.steps.zip b.diagnosticSteps).map
        ((·.step gamma gaeLambda) ∘ rewardStep (·.localReward))))
      (advantages ((b.steps.zip b.diagnosticSteps).map
        ((·.step gamma gaeLambda) ∘ rewardStep (·.globalReward)))) =
      advantages ((b.steps.zip b.diagnosticSteps).map
        ((·.step gamma gaeLambda) ∘ rewardStep fun d => d.localReward + d.globalReward)) :=
    advantages_add fun e _ => ⟨rfl, add_zero 0, add_zero 0, ⟨rfl, rfl⟩, rfl, rfl⟩
  rw [hrewards]
  have hfst : (b.steps.zip b.diagnosticSteps).map Prod.fst = b.steps :=
    List.map_fst_zip h.length.ge
  conv_rhs => rw [← hfst, List.map_map]
  refine advantages_add fun e he => ?_
  obtain ⟨i, hi, rfl⟩ := List.mem_iff_getElem.mp he
  rw [List.length_zip] at hi
  have hreward := h.reward i _ _
    (List.getElem?_eq_getElem (lt_of_lt_of_le hi (Nat.min_le_right _ _)))
    (List.getElem?_eq_getElem (lt_of_lt_of_le hi (Nat.min_le_left _ _)))
  rw [List.getElem_zip]
  exact ⟨(add_zero _).trans hreward, zero_add _, zero_add _, ⟨rfl, rfl⟩, rfl, rfl⟩

/-- **Attribution adds up**: whatever is called in whatever order, beside every step stand
the parts of its reward, and in every update the parts of the advantages are the
advantages that the trainer gets. -/
theorem attribution_adds_up (hdiagnostics : c.diagnostics = true)
    (hr : Reaches callStep (fun _ _ => True) (.new c) r) :
    Accounted r.buffer ∧ ∀ u ∈ r.updates, Accounted u ∧ ∀ gamma gaeLambda critic,
      ∃ parts, updateDiagnostics gamma gaeLambda critic u = some parts ∧
        List.zipWith (· + ·) (List.zipWith (· + ·) parts.localPart parts.globalPart)
            parts.valuePart =
          (gaeReturns gamma gaeLambda (u.steps.map (·.gaeStep critic))).2 := by
  have hok : CollectorOk c r := by
    refine hr.invariant (CollectorOk c) ⟨rfl, .empty, fun u hu => by cases hu⟩ ?_
    exact fun _ _ _ h _ hs => h.call hdiagnostics hs
  exact ⟨hok.buffer, fun u hu => ⟨hok.updates u hu, (hok.updates u hu).parts_add⟩⟩

/-- Two placements and a batch without any, up to the end of the data. -/
theorem attribution_adds_up_two : ∃ (r : ContinuousRollout) (u : RolloutBuffer),
    u ∈ r.updates ∧ u.steps.map (·.reward) = [1 / 4, 1] ∧
    u.diagnosticSteps.map (fun d => (d.localReward, d.globalReward)) = [(1 / 4, 0), (1 / 4, 3 / 4)] ∧
    ∃ parts, updateDiagnostics (1 / 2) 1 (fun state => state.headD 0) u = some parts ∧
      List.zipWith (· + ·) (List.zipWith (· + ·) parts.localPart parts.globalPart)
          parts.valuePart =
        (gaeReturns (1 / 2) 1 (u.steps.map (·.gaeStep fun state => state.headD 0))).2 := by
  have hrun : (runWith callStep (fun _ _ => True) (.new (halfConfig true))
      [.addBatch [plainAction 1, plainAction 2] 1, .addBatch [] 1, .finish]).any
        (fun r => decide (∃ u ∈ r.updates, u.steps.map (·.reward) = [1 / 4, 1] ∧
          u.diagnosticSteps.map (fun d => (d.localReward, d.globalReward)) =
            [(1 / 4, 0), (1 / 4, 3 / 4)])) = true := by
    decide +kernel
  obtain ⟨r, hr, u, hu, hreward, hparts⟩ := Reaches.exists_of_runWith hrun
  obtain ⟨-, hupdates⟩ := attribution_adds_up (c := halfConfig true) rfl hr
  exact ⟨r, u, hu, hreward, hparts, (hupdates u hu).2 _ _ _⟩

end BlockEmulator
