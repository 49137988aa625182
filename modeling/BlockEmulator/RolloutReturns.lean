import BlockEmulator.ContinuousRollout

/-!
# Returns on the clock of the batches

The training loop announces every decision with its state, adds every batch that is
executed, and finishes at the end of the data. A segment is what lies between two
updates. With a trace that does not decay, the return of the first action of a batch is
what the batches from there to the end of the segment earn, each discounted by the
batches before it, and then the estimate of the state in which the next decision is made.

* `RolloutRun` — a run, with the batches of the segments.
* `Settled` — what the steps of a segment sum to, when its last step has its discount.
* `Settled.revisit`, `Settled.place` — a batch without and with placements.
* `batch_clock_returns` — **the returns of every update**.
-/

namespace BlockEmulator

open StepSystem DiscountedReturns ContinuousRollout Finset

/-! ## Runs -/

/-- An executed batch. -/
structure RolloutBatch where
  /-- `actions` -/
  actions : List RolloutAction
  /-- `batch_reward` -/
  batchReward : ℚ

/-- A segment that was updated from. -/
structure ClosedSegment where
  /-- the batches -/
  batches : List RolloutBatch
  /-- the state of the next decision, if there was one -/
  next : Option (List ℚ)
  /-- the buffer of the update -/
  buffer : RolloutBuffer

/-- The collector, with the batches of its segments. -/
structure RolloutRun where
  /-- the collector -/
  collector : ContinuousRollout
  /-- the batches since the last update -/
  segment : List RolloutBatch
  /-- the segments before -/
  closed : List ClosedSegment

/-- A new collector. -/
def RolloutRun.new (config : RolloutConfig) : RolloutRun := ⟨.new config, [], []⟩

/-- What the training loop does. -/
inductive RolloutEvent
  /-- a batch is executed -/
  | batch (b : RolloutBatch)
  /-- the data end -/
  | finish

/-- What was updated from since, closes the segment. -/
def RolloutRun.close (run : RolloutRun) (collector : ContinuousRollout)
    (next : Option (List ℚ)) : RolloutRun where
  collector := collector
  segment := if collector.updates.length = run.collector.updates.length then run.segment else []
  closed := run.closed ++
    (collector.updates.drop run.collector.updates.length).map fun buffer =>
      ⟨run.segment, next, buffer⟩

/-- The decisions of a batch, each announced with its state. -/
def announce (r : ContinuousRollout) (actions : List RolloutAction) : ContinuousRollout :=
  actions.foldl (fun r a => r.beforeDecision a.state) r

/-- One event. -/
def rolloutStep (run : RolloutRun) : RolloutEvent → Option RolloutRun
  | .batch b =>
    let announced := run.close (announce run.collector b.actions) (b.actions.head?.map (·.state))
    (announced.collector.addBatch b.actions b.batchReward).map fun collector =>
      { announced with collector := collector, segment := announced.segment ++ [b] }
  | .finish => some (run.close run.collector.finish none)

/-- The values of the actions are those of a critic. -/
def ValuedBy (critic : List ℚ → ℚ) (_ : RolloutRun) : RolloutEvent → Prop
  | .batch b => ∀ a ∈ b.actions, a.value = critic a.state
  | .finish => True

instance (critic : List ℚ → ℚ) (run : RolloutRun) :
    (e : RolloutEvent) → Decidable (ValuedBy critic run e)
  | .batch b => inferInstanceAs (Decidable (∀ a ∈ b.actions, a.value = critic a.state))
  | .finish => inferInstanceAs (Decidable True)

/-! ## What a segment sums to -/

/-- What a batch earns: the local rewards of its actions, and the global reward. -/
def RolloutBatch.earned (c : RolloutConfig) (b : RolloutBatch) : ℚ :=
  (b.actions.map (localReward c b.actions.length)).sum + globalReward c b.batchReward

/-- What the batch at a position earns. -/
def earnedAt (c : RolloutConfig) (batches : List RolloutBatch) (j : ℕ) : ℚ :=
  ((batches[j]?).map (·.earned c)).getD 0

/-- The position of the first action of a batch. -/
def firstStep (batches : List RolloutBatch) (k : ℕ) : ℕ :=
  ((batches.take k).map (·.actions.length)).sum

section

variable (c : RolloutConfig) (critic : List ℚ → ℚ)

/-- A step of the buffer in the terms of the advantages. -/
def RolloutStep.toStep (s : RolloutStep) : Step ℚ :=
  (s.gaeStep critic).step c.gamma c.gaeLambda

/-- Its reward, and its discount. -/
def RolloutStep.pair (s : RolloutStep) : ℚ × ℚ :=
  ((s.toStep c critic).reward, (s.toStep c critic).discount)

/-- The steps of a segment, the last of which has its discount. -/
structure Settled (batches : List RolloutBatch) (bootstrap : ℚ) (steps : List RolloutStep) :
    Prop where
  /-- a step for each action -/
  length : steps.length = firstStep batches batches.length
  /-- the estimates are those of what follows -/
  bootstraps : Bootstraps bootstrap (steps.map (·.toStep c critic))
  /-- from the first action of a batch on, the steps sum to what the batches earn -/
  sums : ∀ k b, batches[k]? = some b → b.actions ≠ [] → ∀ v,
    discounted v ((steps.drop (firstStep batches k)).map (·.pair c critic)) =
      tailReturn c.gamma (earnedAt c batches) batches.length v k

end

variable {c : RolloutConfig} {critic : List ℚ → ℚ}

theorem Settled.nil (bootstrap : ℚ) : Settled c critic [] bootstrap [] where
  length := rfl
  bootstraps := trivial
  sums k b h := by cases h

theorem firstStep_succ {batches : List RolloutBatch} {k : ℕ} {b : RolloutBatch}
    (hb : batches[k]? = some b) :
    firstStep batches (k + 1) = firstStep batches k + b.actions.length := by
  rw [firstStep, firstStep, List.take_add_one, hb, Option.toList_some, List.map_append,
    List.sum_append, List.map_singleton, List.sum_singleton]

theorem firstStep_mono (batches : List RolloutBatch) : Monotone (firstStep batches) := by
  refine monotone_nat_of_le_succ fun k => ?_
  cases hb : batches[k]? with
  | none =>
    have hlength := List.getElem?_eq_none_iff.mp hb
    rw [firstStep, firstStep, List.take_of_length_le hlength, List.take_of_length_le (by omega)]
  | some b =>
    rw [firstStep_succ hb]
    exact Nat.le_add_right _ _

/-- A batch with actions starts before the end. -/
theorem firstStep_lt {batches : List RolloutBatch} {k : ℕ} {b : RolloutBatch}
    (hb : batches[k]? = some b) (hactions : b.actions ≠ []) :
    firstStep batches k < firstStep batches batches.length := by
  obtain ⟨hk, -⟩ := List.getElem?_eq_some_iff.mp hb
  have hpos := List.length_pos_of_ne_nil hactions
  calc firstStep batches k < firstStep batches k + b.actions.length := by omega
    _ = firstStep batches (k + 1) := (firstStep_succ hb).symm
    _ ≤ firstStep batches batches.length := firstStep_mono batches hk

theorem firstStep_append (batches : List RolloutBatch) (b : RolloutBatch) {k : ℕ}
    (hk : k ≤ batches.length) : firstStep (batches ++ [b]) k = firstStep batches k := by
  rw [firstStep, firstStep, List.take_append_of_le_length hk]

theorem firstStep_append_length (batches : List RolloutBatch) (b : RolloutBatch) :
    firstStep (batches ++ [b]) (batches ++ [b]).length =
      firstStep batches batches.length + b.actions.length := by
  have hb : (batches ++ [b])[batches.length]? = some b := by simp
  rw [List.length_append, List.length_singleton, firstStep_succ hb,
    firstStep_append batches b le_rfl]

/-- The returns of the first actions are what the batches earn from there on. -/
def ReturnsOk (c : RolloutConfig) (critic : List ℚ → ℚ) (batches : List RolloutBatch)
    (bootstrap : ℚ) (steps : List RolloutStep) : Prop :=
  ∀ k b, batches[k]? = some b → b.actions ≠ [] →
    (gaeReturns c.gamma c.gaeLambda (steps.map (·.gaeStep critic))).1[firstStep batches k]? =
      some (tailReturn c.gamma (earnedAt c batches) batches.length bootstrap k)

/-- **The returns of the first actions**, from what the steps sum to. -/
theorem returnsOk_of_sums {batches : List RolloutBatch} {bootstrap : ℚ} {steps : List RolloutStep}
    (hlength : steps.length = firstStep batches batches.length)
    (hbootstraps : Bootstraps bootstrap (steps.map (·.toStep c critic)))
    (hsums : ∀ k b, batches[k]? = some b → b.actions ≠ [] →
      discounted bootstrap ((steps.drop (firstStep batches k)).map (·.pair c critic)) =
        tailReturn c.gamma (earnedAt c batches) batches.length bootstrap k) :
    ReturnsOk c critic batches bootstrap steps := by
  intro k b hb hactions
  have hmap : steps.map (·.toStep c critic) =
      (steps.map (·.gaeStep critic)).map (·.step c.gamma c.gaeLambda) := by
    rw [List.map_map]
    rfl
  rw [hmap] at hbootstraps
  have hlt : firstStep batches k < (steps.map (·.gaeStep critic)).length := by
    rw [List.length_map, hlength]
    exact firstStep_lt hb hactions
  rw [gaeReturns_fst hbootstraps hlt, ← hsums k b hb hactions, ← List.map_drop, List.map_map]
  rfl

theorem Settled.returns {batches : List RolloutBatch} {bootstrap : ℚ} {steps : List RolloutStep}
    (h : Settled c critic batches bootstrap steps) : ReturnsOk c critic batches bootstrap steps :=
  returnsOk_of_sums h.length h.bootstraps fun k b hb hne => h.sums k b hb hne bootstrap

/-! ## One more batch -/

theorem earnedAt_append (c : RolloutConfig) (batches : List RolloutBatch) (b : RolloutBatch) :
    (∀ j < batches.length, earnedAt c (batches ++ [b]) j = earnedAt c batches j) ∧
      earnedAt c (batches ++ [b]) batches.length = b.earned c := by
  refine ⟨fun j hj => ?_, ?_⟩
  · rw [earnedAt, earnedAt, List.getElem?_append_left hj]
  · rw [earnedAt, List.getElem?_append_right le_rfl, Nat.sub_self]
    rfl

/-- With one more batch, an earlier one sums to what it did, over what the new one earns. -/
theorem tailReturn_append (c : RolloutConfig) (batches : List RolloutBatch) (b : RolloutBatch)
    {k : ℕ} (hk : k ≤ batches.length) (v : ℚ) :
    tailReturn c.gamma (earnedAt c (batches ++ [b])) (batches ++ [b]).length v k =
      tailReturn c.gamma (earnedAt c batches) batches.length (b.earned c + c.gamma * v) k := by
  obtain ⟨hbefore, hnew⟩ := earnedAt_append c batches b
  rw [List.length_append, List.length_singleton, tailReturn_succ _ _ hk, hnew,
    tailReturn_congr hbefore]

/-- The first action of a batch is among the steps before the last one, or it is the last. -/
theorem Settled.drop_concat {batches : List RolloutBatch} {bootstrap : ℚ}
    {steps : List RolloutStep} {last : RolloutStep}
    (h : Settled c critic batches bootstrap (steps ++ [last])) {k : ℕ} {b : RolloutBatch}
    (hb : batches[k]? = some b) (hactions : b.actions ≠ []) (s : RolloutStep) :
    (steps ++ [s]).drop (firstStep batches k) = steps.drop (firstStep batches k) ++ [s] := by
  have hlt := firstStep_lt hb hactions
  rw [← h.length, List.length_append, List.length_singleton] at hlt
  exact List.drop_append_of_le_length (by omega)

/-- A batch with actions is the new one, or an earlier one. -/
theorem getElem_append_cases {batches : List RolloutBatch} {b b' : RolloutBatch} {k : ℕ}
    (hb' : (batches ++ [b])[k]? = some b') :
    batches[k]? = some b' ∧ k < batches.length ∨ k = batches.length ∧ b' = b := by
  rcases lt_trichotomy k batches.length with hlt | rfl | hgt
  · rw [List.getElem?_append_left hlt] at hb'
    exact .inl ⟨hb', hlt⟩
  · rw [List.getElem?_append_right le_rfl, Nat.sub_self] at hb'
    exact .inr ⟨rfl, (Option.some.inj hb').symm⟩
  · rw [List.getElem?_eq_none (by simp; omega)] at hb'
    cases hb'

/-- **A batch without placements** earns for the last step. -/
theorem Settled.revisit {batches : List RolloutBatch} {steps : List RolloutStep}
    {x y : RolloutStep} {state : List ℚ} {reward value : ℚ} {elapsed : ℕ}
    (h : Settled c critic batches (critic state) (steps ++ [x]))
    (hx : x.toStep c critic =
      ⟨reward, c.gamma ^ elapsed, c.gamma ^ elapsed, value, critic state⟩)
    {b : RolloutBatch} (hactions : b.actions = [])
    (hy : y.toStep c critic = ⟨reward + c.gamma ^ elapsed * b.earned c, c.gamma ^ (elapsed + 1),
      c.gamma ^ (elapsed + 1), value, critic state⟩) :
    Settled c critic (batches ++ [b]) (critic state) (steps ++ [y]) where
  length := by
    have hlength := h.length
    rw [firstStep_append_length, hactions, List.length_nil, add_zero, ← hlength]
    simp
  bootstraps := by
    have hbootstraps := h.bootstraps
    simp only [List.map_append, List.map_singleton, bootstraps_append, hx, hy, List.head?_cons,
      Option.map_some, Option.getD_some] at hbootstraps ⊢
    exact ⟨hbootstraps.1, rfl, rfl, trivial⟩
  sums := by
    intro k b' hb' hne v
    rcases getElem_append_cases hb' with ⟨hold, hk⟩ | ⟨rfl, rfl⟩
    · have hsum := h.sums k b' hold hne (b.earned c + c.gamma * v)
      rw [h.drop_concat hold hne, List.map_append, discounted_append] at hsum
      rw [firstStep_append batches b hk.le, h.drop_concat hold hne, List.map_append,
        discounted_append, tailReturn_append c batches b hk.le, ← hsum]
      simp only [List.map_singleton, RolloutStep.pair, hx, hy, discounted]
      congr 1
      ring
    · exact absurd hactions hne

/-! ## A batch with placements -/

/-- A step that goes on, in the terms of the advantages. -/
theorem toStep_of (critic : List ℚ → ℚ) {s : RolloutStep} {d t : ℚ} (hdone : s.done = false)
    (hd : s.discount = some d) (ht : s.traceDiscount = some t) :
    s.toStep c critic = ⟨s.reward, d, t, s.value, critic s.nextState⟩ := by
  simp [RolloutStep.toStep, RolloutStep.gaeStep, GaeStep.step, hdone, hd, ht]

/-- The last step with its discount. -/
theorem toStep_settle (critic : List ℚ → ℚ) {r : ContinuousRollout} (hconfig : r.config = c)
    (hlambda : c.gaeLambda = 1) {last : RolloutStep} (hdone : last.done = false) (state : List ℚ) :
    (r.settle state last).toStep c critic =
      ⟨last.reward, c.gamma ^ r.elapsed, c.gamma ^ r.elapsed, last.value, critic state⟩ := by
  have hset := toStep_of (c := c) critic (s := r.settle state last) hdone rfl rfl
  rw [hset, hconfig, hlambda, mul_one]
  rfl

/-- The estimate behind a step of a batch is the one of the action that follows. -/
theorem stepOf_bootstraps {actions : List RolloutAction} {batchReward : ℚ}
    (hvalued : ∀ a ∈ actions, a.value = critic a.state) {before : List RolloutAction}
    {last : RolloutAction} {i : ℕ} (h : actions.drop i = before ++ [last]) :
    Bootstraps last.value
      (((before.zipIdx i).map (stepOf c actions batchReward)).map (·.toStep c critic)) := by
  induction before generalizing i with
  | nil => exact trivial
  | cons a before ih =>
    have hrest : actions.drop (i + 1) = before ++ [last] := by
      rw [← List.drop_drop, h]
      rfl
    rw [List.zipIdx_cons, List.map_cons, List.map_cons,
      toStep_of _ (s := stepOf c actions batchReward (a, i)) rfl rfl rfl]
    refine ⟨rfl, ?_, ih hrest⟩
    have hnext : actions[i + 1]? = (before ++ [last]).head? := by
      rw [← hrest, List.head?_drop]
    have hvalue : ∀ b, actions[i + 1]? = some b → critic b.state = b.value :=
      fun b hb => (hvalued b (List.mem_of_getElem? hb)).symm
    simp only [stepOf, hnext] at hvalue ⊢
    cases before with
    | nil => simpa using hvalue last rfl
    | cons b before =>
      simpa [stepOf, RolloutStep.toStep, RolloutStep.gaeStep, GaeStep.step] using hvalue b rfl

/-- Before the last action of a batch, nothing is discounted. -/
theorem stepOf_pairs {actions : List RolloutAction} {batchReward : ℚ}
    {before : List RolloutAction} {last : RolloutAction} (h : actions = before ++ [last]) :
    (before.zipIdx.map (stepOf c actions batchReward)).map (·.pair c critic) =
      (before.map (localReward c actions.length)).map fun r => (r, 1) := by
  have hlength : actions.length - 1 = before.length := by rw [h]; simp
  apply List.ext_getElem
  · simp
  · intro i hi _
    have hlt : i < before.length := by simpa using hi
    simp only [List.getElem_map, List.getElem_zipIdx, zero_add]
    rw [RolloutStep.pair, toStep_of _ (s := stepOf c actions batchReward (before[i], i)) rfl rfl rfl]
    dsimp only [stepOf]
    rw [hlength, if_neg hlt.ne]

/-- **A batch with placements** earns for all that follows, and bootstraps what precedes. -/
theorem Settled.place {batches : List RolloutBatch} {b : RolloutBatch} {first : RolloutAction}
    {steps : List RolloutStep} {y : RolloutStep} {state : List ℚ}
    (h : Settled c critic batches (critic first.state) steps)
    (hvalued : ∀ a ∈ b.actions, a.value = critic a.state)
    (hfirst : b.actions.head? = some first)
    {before : List RolloutAction} {last : RolloutAction} (hactions : b.actions = before ++ [last])
    (hy : y.toStep c critic = ⟨localReward c b.actions.length last + globalReward c b.batchReward,
      c.gamma, c.gamma, last.value, critic state⟩) :
    Settled c critic (batches ++ [b]) (critic state)
      (steps ++ (before.zipIdx.map (stepOf c b.actions b.batchReward) ++ [y])) := by
  -- what the batch sums to, over what follows it
  have hblock : ∀ v, discounted v
      ((before.zipIdx.map (stepOf c b.actions b.batchReward) ++ [y]).map (·.pair c critic)) =
        b.earned c + c.gamma * v := by
    intro v
    rw [List.map_append, discounted_append, stepOf_pairs hactions, discounted_undiscounted]
    simp only [List.map_singleton, RolloutStep.pair, hy, discounted]
    have hsum : ∀ f : RolloutAction → ℚ, (b.actions.map f).sum = (before.map f).sum + f last := by
      intro f
      rw [hactions, List.map_append, List.sum_append, List.map_singleton, List.sum_singleton]
    rw [RolloutBatch.earned, hsum]
    ring
  refine ⟨?_, ?_, ?_⟩
  · rw [firstStep_append_length, List.length_append, ← h.length, hactions]
    simp
  · have hhead : (((before.zipIdx.map (stepOf c b.actions b.batchReward) ++ [y]).map
        (·.toStep c critic)).head?.map (·.value)).getD (critic state) = critic first.state := by
      rw [← hvalued first (List.mem_of_mem_head? hfirst)]
      rw [hactions] at hfirst
      cases before with
      | nil =>
        obtain rfl := Option.some.inj hfirst
        simp [hy]
      | cons a before =>
        obtain rfl := Option.some.inj hfirst
        rfl
    rw [List.map_append, bootstraps_append, hhead]
    refine ⟨h.bootstraps, ?_⟩
    rw [List.map_append, bootstraps_append, List.map_singleton, hy]
    exact ⟨stepOf_bootstraps hvalued hactions, rfl, rfl, trivial⟩
  · intro k b' hb' hne v
    rcases getElem_append_cases hb' with ⟨hold, hk⟩ | ⟨rfl, rfl⟩
    · have hlt := firstStep_lt hold hne
      rw [← h.length] at hlt
      rw [firstStep_append batches b hk.le, List.drop_append_of_le_length hlt.le, List.map_append,
        discounted_append, hblock, h.sums k b' hold hne, tailReturn_append c batches b hk.le]
    · rw [firstStep_append batches b' le_rfl, ← h.length, List.drop_left, hblock,
        tailReturn_append c batches b' le_rfl, tailReturn_self]

/-! ## The collector -/

/-- A segment with a pending last step: whatever the state of the next decision is. -/
structure Pending (c : RolloutConfig) (critic : List ℚ → ℚ) (batches : List RolloutBatch)
    (r : ContinuousRollout) : Prop where
  /-- there is a last step -/
  pending : r.pending = true
  /-- which does not end the data -/
  last : ∃ steps last, r.buffer.steps = steps ++ [last] ∧ last.done = false
  /-- with its discount, the segment is settled -/
  settled : ∀ state, Settled c critic batches (critic state)
    (modifyLast (r.settle state) r.buffer.steps)

theorem Pending.addBatch (hlambda : c.gaeLambda = 1) {batches : List RolloutBatch}
    {r r' : ContinuousRollout} (hconfig : r.config = c) (h : Pending c critic batches r)
    {batchReward : ℚ} (hadd : r.addBatch [] batchReward = some r') :
    Pending c critic (batches ++ [⟨[], batchReward⟩]) r' := by
  obtain ⟨steps, last, hsteps, hdone⟩ := h.last
  unfold ContinuousRollout.addBatch at hadd
  dsimp only at hadd
  rw [if_pos rfl, if_neg (by simp [h.pending])] at hadd
  obtain rfl := Option.some.inj hadd
  have hearned : RolloutBatch.earned c ⟨[], batchReward⟩ = globalReward c batchReward := by
    simp [RolloutBatch.earned]
  refine ⟨h.pending, ?_, fun state => ?_⟩
  · dsimp only
    rw [hsteps, modifyLast_concat]
    exact ⟨steps, _, rfl, hdone⟩
  · have hold := h.settled state
    rw [hsteps, modifyLast_concat] at hold
    dsimp only
    rw [hsteps, modifyLast_concat, modifyLast_concat]
    refine hold.revisit (toStep_settle _ hconfig hlambda hdone state) rfl ?_
    rw [hearned]
    subst hconfig
    have hlast : { last with
        reward := last.reward + r.config.gamma ^ r.elapsed *
          globalReward r.config batchReward }.done = false := hdone
    exact toStep_settle _ (r := { r with elapsed := r.elapsed + 1 }) rfl hlambda hlast state

/-- A collector between the decisions and the execution of a batch. -/
structure SegmentAnnounced (c : RolloutConfig) (critic : List ℚ → ℚ) (batches : List RolloutBatch)
    (state : List ℚ) (r : ContinuousRollout) : Prop where
  /-- the last step has its discount -/
  pending : r.pending = false
  /-- the segment is settled -/
  settled : Settled c critic batches (critic state) r.buffer.steps

theorem SegmentAnnounced.addBatch (hlambda : c.gaeLambda = 1) {batches : List RolloutBatch}
    {b : RolloutBatch} {first : RolloutAction} {r r' : ContinuousRollout} (hconfig : r.config = c)
    (hfirst : b.actions.head? = some first) (h : SegmentAnnounced c critic batches first.state r)
    (hvalued : ∀ a ∈ b.actions, a.value = critic a.state)
    (hadd : r.addBatch b.actions b.batchReward = some r') :
    Pending c critic (batches ++ [b]) r' := by
  have hne : b.actions ≠ [] := by
    intro hnil
    rw [hnil] at hfirst
    cases hfirst
  obtain ⟨before, last, hactions⟩ : ∃ before last, b.actions = before ++ [last] :=
    ⟨_, _, (List.dropLast_append_getLast hne).symm⟩
  unfold ContinuousRollout.addBatch at hadd
  dsimp only at hadd
  rw [if_neg hne, if_neg (by simp [h.pending])] at hadd
  split at hadd
  · cases hadd
  obtain ⟨records, -, rfl⟩ := Option.map_eq_some_iff.mp hadd
  have hblock : ∀ f : RolloutAction × ℕ → RolloutStep,
      b.actions.zipIdx.map f = before.zipIdx.map f ++ [f (last, before.length)] := by
    intro f
    rw [hactions, List.zipIdx_append, List.map_append]
    simp
  have hlast : before.length = b.actions.length - 1 := by rw [hactions]; simp
  refine ⟨rfl, ?_, fun state => ?_⟩
  · dsimp only
    rw [hblock, ← List.append_assoc]
    exact ⟨_, _, rfl, rfl⟩
  · dsimp only
    rw [hblock, ← List.append_assoc, modifyLast_concat, List.append_assoc]
    subst hconfig
    refine h.settled.place hvalued hfirst hactions ?_
    have hopen : (stepOf r.config b.actions b.batchReward (last, before.length)).done = false := rfl
    have hstep := toStep_settle critic (r := { r with elapsed := 1 }) rfl hlambda hopen state
    rw [pow_one] at hstep
    refine hstep.trans ?_
    simp only [stepOf, if_pos hlast]

/-- The first decision settles the last step; the others find nothing pending. -/
theorem announce_cons (r : ContinuousRollout) (first : RolloutAction)
    (rest : List RolloutAction) :
    announce r (first :: rest) = r.beforeDecision first.state := by
  have hsettled : ∀ (r : ContinuousRollout) (state : List ℚ),
      (r.beforeDecision state).pending = false := by
    intro r state
    unfold beforeDecision
    split
    · assumption
    · dsimp only
      split
      · rfl
      · rfl
  have hrest : ∀ (actions : List RolloutAction) (r : ContinuousRollout), r.pending = false →
      announce r actions = r := by
    intro actions
    induction actions with
    | nil => exact fun r _ => rfl
    | cons a actions ih =>
      intro r hr
      have hsame : r.beforeDecision a.state = r := if_pos hr
      rw [announce, List.foldl_cons, hsame]
      exact ih r hr
  exact hrest rest _ (hsettled r first.state)

/-! ## Runs -/

/-- What is assumed behind a segment. -/
def bootstrapOf (critic : List ℚ → ℚ) (next : Option (List ℚ)) : ℚ := (next.map critic).getD 0

/-- What a run keeps, but for the open segment. -/
structure ClosedOk (c : RolloutConfig) (critic : List ℚ → ℚ) (run : RolloutRun) : Prop where
  /-- the configuration stays -/
  config : run.collector.config = c
  /-- every update is from a segment -/
  updates : run.collector.updates = run.closed.map (·.buffer)
  /-- with its returns -/
  returns : ∀ s ∈ run.closed,
    ReturnsOk c critic s.batches (bootstrapOf critic s.next) s.buffer.steps

/-- The open segment: there is none yet, or its last step is pending. -/
def OpenOk (c : RolloutConfig) (critic : List ℚ → ℚ) (run : RolloutRun) : Prop :=
  run.segment = [] ∧ run.collector.buffer.steps = [] ∧ run.collector.pending = false ∨
    Pending c critic run.segment run.collector

/-- Without an update the segment goes on. -/
theorem RolloutRun.close_same {run : RolloutRun} {collector : ContinuousRollout}
    (h : collector.updates = run.collector.updates) (next : Option (List ℚ)) :
    run.close collector next = ⟨collector, run.segment, run.closed⟩ := by
  simp [RolloutRun.close, h]

/-- With one it is closed. -/
theorem RolloutRun.close_update {run : RolloutRun} {collector : ContinuousRollout}
    {buffer : RolloutBuffer} (h : collector.updates = run.collector.updates ++ [buffer])
    (next : Option (List ℚ)) :
    run.close collector next = ⟨collector, [], run.closed ++ [⟨run.segment, next, buffer⟩]⟩ := by
  simp [RolloutRun.close, h]

/-- One more segment. -/
theorem ClosedOk.close_update {run : RolloutRun} (h : ClosedOk c critic run)
    {collector : ContinuousRollout} {buffer : RolloutBuffer} {next : Option (List ℚ)}
    (hconfig : collector.config = c)
    (hupdates : collector.updates = run.collector.updates ++ [buffer])
    (hreturns : ReturnsOk c critic run.segment (bootstrapOf critic next) buffer.steps) :
    ClosedOk c critic ⟨collector, [], run.closed ++ [⟨run.segment, next, buffer⟩]⟩ where
  config := hconfig
  updates := by rw [hupdates, h.updates, List.map_append, List.map_singleton]
  returns s hs := by
    rcases List.mem_append.mp hs with hold | hnew
    · exact h.returns s hold
    · obtain rfl := List.mem_singleton.mp hnew
      exact hreturns

theorem ClosedOk.collector {run : RolloutRun} (h : ClosedOk c critic run)
    {collector : ContinuousRollout} (hconfig : collector.config = c)
    (hupdates : collector.updates = run.collector.updates) (segment : List RolloutBatch) :
    ClosedOk c critic ⟨collector, segment, run.closed⟩ where
  config := hconfig
  updates := hupdates.trans h.updates
  returns := h.returns

/-- **The decisions of a batch** settle the open segment, and close it or not. -/
theorem announced_ok {run : RolloutRun} (hclosed : ClosedOk c critic run)
    (hopen : OpenOk c critic run) (first : RolloutAction) :
    let run' := run.close (run.collector.beforeDecision first.state) (some first.state)
    ClosedOk c critic run' ∧ SegmentAnnounced c critic run'.segment first.state run'.collector := by
  intro run'
  rcases hopen with ⟨hsegment, hsteps, hpending⟩ | hpend
  · have hsame : run.collector.beforeDecision first.state = run.collector := if_pos hpending
    have hrun : run' = ⟨run.collector, run.segment, run.closed⟩ := by
      change run.close _ _ = _
      rw [hsame]
      exact run.close_same rfl _
    rw [hrun]
    refine ⟨hclosed.collector hclosed.config rfl _, hpending, ?_⟩
    rw [hsegment, hsteps]
    exact .nil _
  · let settled : RolloutBuffer := { run.collector.buffer with
      steps := modifyLast (run.collector.settle first.state) run.collector.buffer.steps }
    let collector : ContinuousRollout :=
      { run.collector with buffer := settled, pending := false }
    have hdecision : run.collector.beforeDecision first.state =
        if collector.buffer.steps.length ≥ collector.config.minActions ∧
          collector.batches ≥ collector.config.minBatches then collector.update else collector :=
      if_neg (by simp [hpend.pending])
    by_cases hcloses : collector.buffer.steps.length ≥ collector.config.minActions ∧
      collector.batches ≥ collector.config.minBatches
    · rw [if_pos hcloses] at hdecision
      have hrun : run' = ⟨collector.update, [],
          run.closed ++ [⟨run.segment, some first.state, settled⟩]⟩ := by
        change run.close _ _ = _
        rw [hdecision]
        exact RolloutRun.close_update rfl _
      rw [hrun]
      refine ⟨hclosed.close_update hclosed.config rfl (hpend.settled first.state).returns, rfl, ?_⟩
      exact .nil _
    · rw [if_neg hcloses] at hdecision
      have hconfig : collector.config = c := hclosed.config
      have hupdates : collector.updates = run.collector.updates := rfl
      have hrun : run' = ⟨collector, run.segment, run.closed⟩ := by
        change run.close _ _ = _
        rw [hdecision]
        exact RolloutRun.close_same hupdates _
      rw [hrun]
      exact ⟨hclosed.collector hconfig hupdates _, rfl, hpend.settled first.state⟩

/-- The last step, at the end of the data. -/
def endStep (s : RolloutStep) : RolloutStep :=
  { s with done := true, discount := some 0, traceDiscount := some 0 }

/-- **The end of the data**: nothing is assumed behind it. -/
theorem Pending.end_returns (hlambda : c.gaeLambda = 1) {batches : List RolloutBatch}
    {r : ContinuousRollout} (hconfig : r.config = c) (h : Pending c critic batches r) :
    ReturnsOk c critic batches 0 (modifyLast endStep r.buffer.steps) := by
  obtain ⟨steps, last, hsteps, hdone⟩ := h.last
  have hold := h.settled []
  have hx := toStep_settle critic hconfig hlambda hdone []
  rw [hsteps, modifyLast_concat] at hold ⊢
  have hy : (endStep last).toStep c critic =
      ⟨last.reward, 0, 0, last.value, critic last.nextState⟩ := by
    simp [endStep, RolloutStep.toStep, RolloutStep.gaeStep, GaeStep.step]
  refine returnsOk_of_sums ?_ ?_ fun k b hb hne => ?_
  · rw [← hold.length]
    simp
  · have hbootstraps := hold.bootstraps
    simp only [List.map_append, List.map_singleton, bootstraps_append, hx, hy, List.head?_cons,
      Option.map_some, Option.getD_some] at hbootstraps ⊢
    exact ⟨hbootstraps.1, rfl, by rw [zero_mul, zero_mul], trivial⟩
  · have hsum := hold.sums k b hb hne 0
    rw [hold.drop_concat hb hne, List.map_append, discounted_append] at hsum ⊢
    simpa only [List.map_singleton, RolloutStep.pair, hx, hy, discounted, mul_zero] using hsum

/-! ## Runs -/

/-- A batch is added behind what its first decision leaves, or to the last step. -/
theorem rolloutBatch_ok (hlambda : c.gaeLambda = 1) {run run' : RolloutRun} {b : RolloutBatch}
    (hclosed : ClosedOk c critic run) (hopen : OpenOk c critic run)
    (hok : ∀ a ∈ b.actions, a.value = critic a.state)
    (h : rolloutStep run (.batch b) = some run') : ClosedOk c critic run' ∧ OpenOk c critic run' := by
  obtain ⟨actions, batchReward⟩ := b
  obtain ⟨collector, hadd, rfl⟩ := Option.map_eq_some_iff.mp h
  obtain ⟨hconfig, hupdates⟩ := addBatch_frame hadd
  cases actions with
  | nil =>
    have hrun : run.close (announce run.collector []) none =
        ⟨run.collector, run.segment, run.closed⟩ := RolloutRun.close_same rfl _
    simp only [List.head?_nil, Option.map_none, hrun] at hadd hconfig hupdates ⊢
    refine ⟨hclosed.collector (hconfig.trans hclosed.config) hupdates _, .inr ?_⟩
    rcases hopen with ⟨-, -, hpending⟩ | hpend
    · -- nothing to add to: an error of Python
      unfold ContinuousRollout.addBatch at hadd
      dsimp only at hadd
      rw [if_pos rfl, if_pos hpending] at hadd
      cases hadd
    · exact hpend.addBatch hlambda hclosed.config hadd
  | cons first rest =>
    simp only [List.head?_cons, Option.map_some, announce_cons] at hadd hconfig hupdates ⊢
    obtain ⟨hclosed', hannounced⟩ := announced_ok hclosed hopen first
    refine ⟨?_, .inr ?_⟩
    · exact ⟨hconfig.trans hclosed'.config, hupdates.trans hclosed'.updates, hclosed'.returns⟩
    · exact hannounced.addBatch hlambda hclosed'.config rfl hok hadd

/-- The end of the data closes the segment, if there is one. -/
theorem rolloutFinish_ok (hlambda : c.gaeLambda = 1) {run : RolloutRun}
    (hclosed : ClosedOk c critic run) (hopen : OpenOk c critic run) :
    ClosedOk c critic (run.close run.collector.finish none) ∧
      OpenOk c critic (run.close run.collector.finish none) := by
  rcases hopen with ⟨hsegment, hsteps, hpending⟩ | hpend
  · have hfinish : run.collector.finish = { run.collector with pending := false } := if_pos hsteps
    have hupdates : run.collector.finish.updates = run.collector.updates := by rw [hfinish]
    rw [RolloutRun.close_same hupdates]
    refine ⟨hclosed.collector ?_ hupdates _, .inl ⟨hsegment, ?_, ?_⟩⟩
    · rw [hfinish]
      exact hclosed.config
    · rw [hfinish]
      exact hsteps
    · rw [hfinish]
  · obtain ⟨steps, last, hsteps, -⟩ := hpend.last
    have hne : run.collector.buffer.steps ≠ [] := by
      rw [hsteps]
      exact List.append_ne_nil_of_right_ne_nil _ (List.cons_ne_nil _ _)
    have hfinish : run.collector.finish =
        { ({ run.collector with buffer := { run.collector.buffer with
            steps := modifyLast endStep run.collector.buffer.steps } }).update with
          pending := false } := if_neg hne
    rw [hfinish, RolloutRun.close_update rfl]
    refine ⟨hclosed.close_update hclosed.config rfl ?_, .inl ⟨rfl, rfl, rfl⟩⟩
    exact hpend.end_returns hlambda hclosed.config

theorem rolloutStep_ok (hlambda : c.gaeLambda = 1) {run run' : RolloutRun} {e : RolloutEvent}
    (hclosed : ClosedOk c critic run) (hopen : OpenOk c critic run) (hok : ValuedBy critic run e)
    (h : rolloutStep run e = some run') : ClosedOk c critic run' ∧ OpenOk c critic run' := by
  cases e with
  | batch b => exact rolloutBatch_ok hlambda hclosed hopen hok h
  | finish =>
    obtain rfl := Option.some.inj h
    exact rolloutFinish_ok hlambda hclosed hopen

/-- **The returns are on the clock of the batches**: in every run and every update, the
return of the first action of a batch is what the batches from there on earn, discounted
by the batches before each, and the estimate of the state of the next decision. -/
theorem batch_clock_returns (hlambda : c.gaeLambda = 1) {run : RolloutRun}
    (hr : Reaches rolloutStep (ValuedBy critic) (.new c) run) :
    run.collector.updates = run.closed.map (·.buffer) ∧
      ∀ s ∈ run.closed, ∀ k b, s.batches[k]? = some b → b.actions ≠ [] →
        (gaeReturns c.gamma c.gaeLambda
            (s.buffer.steps.map (·.gaeStep critic))).1[firstStep s.batches k]? =
          some (∑ j ∈ Ico k s.batches.length, c.gamma ^ (j - k) * earnedAt c s.batches j +
            c.gamma ^ (s.batches.length - k) * bootstrapOf critic s.next) := by
  have hrun : ClosedOk c critic run ∧ OpenOk c critic run := by
    refine hr.invariant (fun run => ClosedOk c critic run ∧ OpenOk c critic run) ?_ ?_
    · exact ⟨⟨rfl, rfl, fun s hs => by cases hs⟩, .inl ⟨rfl, rfl, rfl⟩⟩
    · exact fun run e run' hinv hok hs => rolloutStep_ok hlambda hinv.1 hinv.2 hok hs
  exact ⟨hrun.1.updates, hrun.1.returns⟩

/-- A batch that places, one that does not, and the decision that closes their segment. -/
theorem batch_clock_returns_two : ∃ (run : RolloutRun) (s : ClosedSegment),
    s ∈ run.closed ∧ s.next = some (plainAction 2).state ∧
    s.batches.map (·.actions.length) = [1, 0] ∧
    (gaeReturns (1 / 2) 1 (s.buffer.steps.map (·.gaeStep fun state => state.headD 0))).1[0]? =
      some (∑ j ∈ Ico 0 2, (1 / 2) ^ (j - 0) * earnedAt (halfConfig false) s.batches j +
        (1 / 2) ^ (2 - 0) * bootstrapOf (fun state => state.headD 0) s.next) := by
  have hrun : (runWith rolloutStep (ValuedBy fun state => state.headD 0) (.new (halfConfig false))
      [.batch ⟨[plainAction 1], 1⟩, .batch ⟨[], 1⟩, .batch ⟨[plainAction 2], 0⟩]).any
        (fun run => decide (∃ s ∈ run.closed, s.next = some (plainAction 2).state ∧
          s.batches.map (·.actions.length) = [1, 0])) = true := by
    decide +kernel
  obtain ⟨run, hr, s, hs, hnext, hactions⟩ := Reaches.exists_of_runWith hrun
  obtain ⟨-, hreturns⟩ := batch_clock_returns (c := halfConfig false) rfl hr
  have hlength : s.batches.length = 2 := by
    rw [← List.length_map (·.actions.length), hactions]
    rfl
  obtain ⟨b, b', hbatches⟩ := List.length_eq_two.mp hlength
  have hne : b.actions ≠ [] := by
    intro hnil
    simp [hbatches, hnil] at hactions
  have hreturn := hreturns s hs 0 b (by rw [hbatches]; rfl) hne
  rw [hlength] at hreturn
  exact ⟨run, s, hs, hnext, hactions, hreturn⟩

end BlockEmulator
